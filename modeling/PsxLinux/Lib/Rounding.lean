import PsxLinux.Lib.Sticky
import Mathlib.Algebra.Order.AbsoluteValue.Basic
import Mathlib.Algebra.Order.Field.Power

/-!
# Rounding to a binary floating-point format

The numbers of a format with `M` fraction bits and least exponent `emin`, with no upper bound on
the exponent, and what it means to round a positive rational to them. A significand with three
extra bits that is right at every multiple of 4 (`Sticky 4`) is enough to round correctly in every
direction: `roundsTo_of_sticky`.
-/

namespace PsxLinux.Lib

/-- The distance of neighbouring numbers with exponent `e`. -/
def ulp (M : ℕ) (e : ℤ) : ℚ := 2 ^ (e - M)

/-- A number of the format. -/
def Representable (M : ℕ) (emin : ℤ) (q : ℚ) : Prop :=
  ∃ (m : ℕ) (e : ℤ), m < 2 ^ (M + 1) ∧ emin ≤ e ∧ q = m * ulp M e

/-- A number of the format whose significand, in the only way to write it with a leading one or
the least exponent, is even. -/
def EvenSignificand (M : ℕ) (emin : ℤ) (q : ℚ) : Prop :=
  ∃ (m : ℕ) (e : ℤ), Even m ∧ m < 2 ^ (M + 1) ∧ emin ≤ e ∧ (2 ^ M ≤ m ∨ e = emin) ∧ q = m * ulp M e

/-- Where a magnitude is rounded to. -/
inductive Direction where
  | nearest
  | down
  | up
deriving DecidableEq

/-- `q` is what `a` is rounded to in this direction, ties to even. -/
def RoundsTo (M : ℕ) (emin : ℤ) : Direction → ℚ → ℚ → Prop
  | .nearest, a, q => Representable M emin q ∧
      (∀ f, Representable M emin f → |q - a| ≤ |f - a|) ∧
      ∀ f, Representable M emin f → f ≠ q → |f - a| = |q - a| → EvenSignificand M emin q
  | .down, a, q => Representable M emin q ∧ q ≤ a ∧
      ∀ f, Representable M emin f → f ≤ a → f ≤ q
  | .up, a, q => Representable M emin q ∧ a ≤ q ∧
      ∀ f, Representable M emin f → a ≤ f → q ≤ f

variable {M k k' : ℕ} {emin e e' : ℤ} {a b f p q : ℚ}
variable {dir : Direction}

lemma ulp_pos (M : ℕ) (e : ℤ) : 0 < ulp M e := zpow_pos two_pos _

lemma ulp_add (M n : ℕ) (e : ℤ) : ulp M (e + n) = 2 ^ n * ulp M e := by
  rw [ulp, ulp, ← zpow_natCast, ← zpow_add₀ two_ne_zero]
  congr 1
  ring

lemma ulp_extra (M n : ℕ) (e : ℤ) : ulp M e = 2 ^ n * ulp (M + n) e := by
  rw [ulp, ulp, ← zpow_natCast, ← zpow_add₀ two_ne_zero]
  congr 1
  push_cast
  ring

/-! ## The neighbours of a number -/

/-- The significand `k` is written with a leading one, or with the least exponent. -/
def Leading (M : ℕ) (emin e : ℤ) (k : ℕ) : Prop := 2 ^ M ≤ k ∨ e = emin

lemma Representable.nonneg (hf : Representable M emin f) : 0 ≤ f := by
  obtain ⟨m, e, -, -, rfl⟩ := hf
  exact mul_nonneg (Nat.cast_nonneg m) (ulp_pos M e).le

/-- No number of the format lies between a number and its successor. -/
lemma Representable.le_or_le (hf : Representable M emin f) (hlead : Leading M emin e k)
    (he : emin ≤ e) : f ≤ k * ulp M e ∨ (k + 1) * ulp M e ≤ f := by
  obtain ⟨m, e', hm, he', rfl⟩ := hf
  rcases le_or_gt e e' with hle | hlt
  · obtain ⟨n, rfl⟩ := Int.le.dest hle
    rw [ulp_add, ← mul_assoc]
    rcases Nat.lt_or_ge k (m * 2 ^ n) with h | h
    · right
      have hcast : ((k : ℚ) + 1) ≤ m * 2 ^ n := by exact_mod_cast h
      exact mul_le_mul_of_nonneg_right hcast (ulp_pos M e).le
    · left
      have hcast : (m : ℚ) * 2 ^ n ≤ k := by exact_mod_cast h
      exact mul_le_mul_of_nonneg_right hcast (ulp_pos M e).le
  · -- a smaller exponent: the number is below every normal number with exponent `e`
    left
    have hk : 2 ^ M ≤ k := by
      rcases hlead with h | h
      · exact h
      · omega
    obtain ⟨n, rfl⟩ := Int.le.dest (Int.add_one_le_iff.2 hlt)
    have hstep : ulp M (e' + 1 + n) = 2 ^ (n + 1) * ulp M e' := by
      rw [ulp_add, show e' + 1 = e' + (1 : ℕ) from rfl, ulp_add]
      ring
    rw [hstep, ← mul_assoc]
    refine mul_le_mul_of_nonneg_right ?_ (ulp_pos M e').le
    have hnat : m ≤ k * 2 ^ (n + 1) := by
      calc m ≤ 2 ^ (M + 1) := hm.le
        _ = 2 ^ M * 2 := pow_succ 2 M
        _ ≤ k * 2 ^ (n + 1) := by
          refine Nat.mul_le_mul hk ?_
          exact Nat.le_self_pow n.succ_ne_zero 2
    exact_mod_cast hnat

/-- The successor of the largest significand has the next exponent. -/
lemma carry_eq (h : k + 1 = 2 ^ (M + 1)) :
    ((k : ℚ) + 1) * ulp M e = (2 ^ M : ℕ) * ulp M (e + 1) := by
  have hcast : (k : ℚ) + 1 = 2 ^ (M + 1) := by exact_mod_cast h
  rw [hcast, show e + 1 = e + (1 : ℕ) from rfl, ulp_add]
  push_cast
  ring

lemma representable_next (hk : k < 2 ^ (M + 1)) (he : emin ≤ e) :
    Representable M emin ((k + 1) * ulp M e) := by
  rcases Nat.lt_or_ge (k + 1) (2 ^ (M + 1)) with h | h
  · exact ⟨k + 1, e, h, he, by push_cast; ring⟩
  · have hmax : k + 1 = 2 ^ (M + 1) := by omega
    exact ⟨2 ^ M, e + 1, Nat.pow_lt_pow_right one_lt_two M.lt_succ_self, by omega, carry_eq hmax⟩

lemma evenSignificand_next (hM : 0 < M) (hk : k < 2 ^ (M + 1)) (he : emin ≤ e)
    (hlead : Leading M emin e k) (hodd : k % 2 = 1) :
    EvenSignificand M emin ((k + 1) * ulp M e) := by
  rcases Nat.lt_or_ge (k + 1) (2 ^ (M + 1)) with h | h
  · refine ⟨k + 1, e, Nat.even_iff.2 (by omega), h, he, ?_, by push_cast; ring⟩
    exact hlead.imp (fun h => by omega) id
  · have hmax : k + 1 = 2 ^ (M + 1) := by omega
    refine ⟨2 ^ M, e + 1, ?_, Nat.pow_lt_pow_right one_lt_two M.lt_succ_self, by omega,
      .inl le_rfl, carry_eq hmax⟩
    exact (even_two.pow_of_ne_zero hM.ne')

/-! ## Rounding to one of the two neighbours -/

section Neighbours

variable (hk : k < 2 ^ (M + 1)) (he : emin ≤ e) (hlead : Leading M emin e k)
include hk he hlead

lemma roundsTo_down (h₁ : k * ulp M e ≤ a) (h₂ : a < (k + 1) * ulp M e) :
    RoundsTo M emin .down a (k * ulp M e) := by
  refine ⟨⟨k, e, hk, he, rfl⟩, h₁, fun f hf hfa => ?_⟩
  rcases hf.le_or_le hlead he with h | h
  · exact h
  · linarith

lemma roundsTo_up (h₁ : k * ulp M e < a) (h₂ : a ≤ (k + 1) * ulp M e) :
    RoundsTo M emin .up a ((k + 1) * ulp M e) := by
  refine ⟨representable_next hk he, h₂, fun f hf hfa => ?_⟩
  rcases hf.le_or_le hlead he with h | h
  · linarith
  · exact h

lemma roundsTo_nearest_lower (h₁ : k * ulp M e ≤ a) (h₂ : a ≤ (k + 1 / 2) * ulp M e)
    (htie : a = (k + 1 / 2) * ulp M e → k % 2 = 0) :
    RoundsTo M emin .nearest a (k * ulp M e) := by
  have habs : |k * ulp M e - a| = a - k * ulp M e := by
    rw [abs_sub_comm]
    exact abs_of_nonneg (by linarith)
  refine ⟨⟨k, e, hk, he, rfl⟩, fun f hf => ?_, fun f hf hne heq => ?_⟩
  · rcases hf.le_or_le hlead he with h | h
    · linarith [neg_abs_le (f - a)]
    · linarith [le_abs_self (f - a)]
  · rcases hf.le_or_le hlead he with h | h
    · have hlt : f < k * ulp M e := lt_of_le_of_ne h hne
      linarith [neg_abs_le (f - a)]
    · -- a tie: the upper neighbour is as near
      have hmid : a = (k + 1 / 2) * ulp M e := by
        linarith [le_abs_self (f - a)]
      exact ⟨k, e, Nat.even_iff.2 (htie hmid), hk, he, hlead, rfl⟩

lemma roundsTo_nearest_upper (hM : 0 < M) (h₁ : (k + 1 / 2) * ulp M e ≤ a)
    (h₂ : a ≤ (k + 1) * ulp M e) (htie : a = (k + 1 / 2) * ulp M e → k % 2 = 1) :
    RoundsTo M emin .nearest a ((k + 1) * ulp M e) := by
  have habs : |(k + 1) * ulp M e - a| = (k + 1) * ulp M e - a := abs_of_nonneg (by linarith)
  refine ⟨representable_next hk he, fun f hf => ?_, fun f hf hne heq => ?_⟩
  · rcases hf.le_or_le hlead he with h | h
    · linarith [neg_abs_le (f - a)]
    · linarith [le_abs_self (f - a)]
  · rcases hf.le_or_le hlead he with h | h
    · have hmid : a = (k + 1 / 2) * ulp M e := by
        linarith [neg_abs_le (f - a)]
      exact evenSignificand_next hM hk he hlead (htie hmid)
    · have hlt : (k + 1) * ulp M e < f := lt_of_le_of_ne h (Ne.symm hne)
      linarith [le_abs_self (f - a)]

end Neighbours

lemma roundsTo_self (dir : Direction) (h : Representable M emin a) : RoundsTo M emin dir a a := by
  cases dir with
  | nearest =>
    refine ⟨h, fun f _ => ?_, fun f _ hne heq => absurd ?_ hne⟩
    · rw [sub_self]
      exact abs_nonneg _
    · rw [sub_self, abs_zero, abs_eq_zero] at heq
      exact sub_eq_zero.1 heq
  | down => exact ⟨h, le_rfl, fun _ _ hf => hf⟩
  | up => exact ⟨h, le_rfl, fun _ _ hf => hf⟩

/-- A number of the format is only rounded to itself. -/
lemma RoundsTo.eq_of_representable {q : ℚ} (hq : RoundsTo M emin dir a q)
    (h : Representable M emin a) : q = a := by
  cases dir with
  | nearest =>
    have hle := hq.2.1 a h
    rw [sub_self] at hle
    exact sub_eq_zero.1 (abs_nonpos_iff.1 hle)
  | down => exact le_antisymm hq.2.1 (hq.2.2 a h le_rfl)
  | up => exact le_antisymm (hq.2.2 a h le_rfl) hq.2.1

/-- A number of the format has one significand and one exponent. -/
lemma leading_unique (hk : k < 2 ^ (M + 1)) (hk' : k' < 2 ^ (M + 1)) (he : emin ≤ e)
    (he' : emin ≤ e') (hlead : Leading M emin e k) (hlead' : Leading M emin e' k')
    (h : k * ulp M e = k' * ulp M e') : k = k' ∧ e = e' := by
  wlog hle : e ≤ e' generalizing k k' e e'
  · exact (this hk' hk he' he hlead' hlead h.symm (le_of_not_ge hle)).imp Eq.symm Eq.symm
  obtain ⟨n, rfl⟩ := Int.le.dest hle
  rw [ulp_add, ← mul_assoc, mul_left_inj' (ulp_pos M e).ne'] at h
  have hnat : k = k' * 2 ^ n := by exact_mod_cast h
  rcases Nat.eq_zero_or_pos n with rfl | hn
  · exact ⟨by simpa using hnat, by simp⟩
  · have hge : 2 ^ M ≤ k' := hlead'.resolve_right (by omega)
    have hmul : 2 ^ M * 2 ≤ k' * 2 ^ n := Nat.mul_le_mul hge (Nat.le_self_pow hn.ne' 2)
    omega

lemma representable_zero (M : ℕ) (emin : ℤ) : Representable M emin 0 :=
  ⟨0, emin, Nat.two_pow_pos _, le_rfl, by simp⟩

/-- A larger number is not rounded to a smaller one. -/
lemma RoundsTo.mono (hp : RoundsTo M emin dir a p) (hq : RoundsTo M emin dir b q)
    (h : a < b) : p ≤ q := by
  cases dir with
  | nearest =>
    have h₁ := sq_le_sq.2 (hp.2.1 q hq.1)
    have h₂ := sq_le_sq.2 (hq.2.1 p hp.1)
    by_contra! hlt
    nlinarith [mul_pos (sub_pos.2 h) (sub_pos.2 hlt)]
  | down => exact hq.2.2 p hp.1 (hp.2.1.trans h.le)
  | up => exact hp.2.2 q hq.1 (h.le.trans hq.2.1)

lemma RoundsTo.nonneg (h : RoundsTo M emin dir a q) : 0 ≤ q := by
  cases dir <;> exact h.1.nonneg

/-- A number below half an ulp is rounded to zero, unless away from it. -/
lemma roundsTo_zero_iff (ha : 0 < a) (h : 2 * a < ulp M emin) :
    RoundsTo M emin dir a 0 ↔ dir ≠ .up := by
  have hk : 0 < 2 ^ (M + 1) := Nat.two_pow_pos _
  have hlow : ((0 : ℕ) : ℚ) * ulp M emin = 0 := by simp
  cases dir with
  | nearest =>
    have hnear := roundsTo_nearest_lower hk le_rfl (.inr rfl) (by linarith)
      (by rw [Nat.cast_zero]; linarith : a ≤ ((0 : ℕ) + 1 / 2) * ulp M emin) fun _ => rfl
    simpa using hnear
  | down =>
    have hdown := roundsTo_down hk le_rfl (.inr rfl) (by linarith)
      (by rw [Nat.cast_zero]; linarith : a < ((0 : ℕ) + 1) * ulp M emin)
    simpa using hdown
  | up => simp [RoundsTo, ha]

/-! ## Rounding a significand with three extra bits -/

/-- The significand without its three extra bits. -/
def roundSignificand : Direction → ℕ → ℕ
  | .nearest, m => (m + 3 + m / 8 % 2) / 8
  | .down, m => m / 8
  | .up, m => (m + 7) / 8

/-- Where the value lies between two neighbours and the middle. -/
lemma sticky_between {m : ℕ} (hsticky : Sticky 4 m (a / ulp (M + 3) e)) :
    (m / 8 : ℕ) * ulp M e ≤ a ∧ a < ((m / 8 : ℕ) + 1) * ulp M e ∧
      (a ≤ (m / 8 : ℕ) * ulp M e ↔ m % 8 = 0) ∧
      (a ≤ ((m / 8 : ℕ) + 1 / 2) * ulp M e ↔ m % 8 ≤ 4) ∧
      (((m / 8 : ℕ) + 1 / 2) * ulp M e ≤ a ↔ 4 ≤ m % 8) := by
  have hpos := ulp_pos (M + 3) e
  have hulp : ulp M e = 8 * ulp (M + 3) e := by
    rw [ulp_extra M 3 e]
    norm_num
  have hthreshold : ∀ t : ℕ, 4 ∣ t →
      (t * ulp (M + 3) e ≤ a ↔ t ≤ m) ∧ (a ≤ t * ulp (M + 3) e ↔ m ≤ t) := by
    intro t ht
    obtain ⟨h₁, h₂⟩ := hsticky t ht
    rw [div_lt_iff₀ hpos] at h₁
    rw [lt_div_iff₀ hpos] at h₂
    exact ⟨not_lt.symm.trans (h₁.symm.not.trans not_lt),
      not_lt.symm.trans (h₂.symm.not.trans not_lt)⟩
  obtain ⟨hlow₁, hlow₂⟩ := hthreshold (8 * (m / 8)) (by omega)
  obtain ⟨hmid₁, hmid₂⟩ := hthreshold (8 * (m / 8) + 4) (by omega)
  obtain ⟨hhigh, -⟩ := hthreshold (8 * (m / 8) + 8) (by omega)
  have hscale : ∀ c : ℚ, ((m / 8 : ℕ) + c) * ulp M e = (8 * (m / 8 : ℕ) + 8 * c) * ulp (M + 3) e := by
    intro c
    rw [hulp]
    ring
  have h₀ := hscale 0
  have h₁ := hscale (1 / 2)
  have h₂ := hscale 1
  push_cast at hlow₁ hlow₂ hmid₁ hmid₂ hhigh
  norm_num at h₀ h₁ h₂
  norm_num [h₀, h₁, h₂]
  rw [hlow₁, hlow₂, hmid₁, hmid₂, ← not_le, hhigh]
  omega

section Sticky

variable {m : ℕ} (he : emin ≤ e) (hm : m < 2 ^ (M + 4)) (hlead : 2 ^ (M + 3) ≤ m ∨ e = emin)
  (hsticky : Sticky 4 m (a / ulp (M + 3) e))
include hm hlead

lemma leading_div_eight : m / 8 < 2 ^ (M + 1) ∧ Leading M emin e (m / 8) := by
  rw [pow_add] at hm hlead
  exact ⟨by omega, hlead.imp (fun h => by omega) id⟩

include he hsticky

/-- The value is a number of the format exactly if the three bits are zero. -/
lemma representable_iff_of_sticky : Representable M emin a ↔ m % 8 = 0 := by
  obtain ⟨hge, hlt, hexact, -⟩ := sticky_between hsticky
  obtain ⟨hk, hlead'⟩ := leading_div_eight hm hlead
  rw [← hexact]
  exact ⟨fun hrep => (hrep.le_or_le hlead' he).resolve_right (not_le.2 hlt),
    fun hle => ⟨m / 8, e, hk, he, le_antisymm hle hge⟩⟩

/-- **Three extra bits are enough.** -/
theorem roundsTo_of_sticky (dir : Direction) (hM : 0 < M) :
    RoundsTo M emin dir a (roundSignificand dir m * ulp M e) := by
  obtain ⟨hge, hlt, hexact, hlow, hhigh⟩ := sticky_between hsticky
  obtain ⟨hk, hlead'⟩ := leading_div_eight hm hlead
  cases dir with
  | down => exact roundsTo_down hk he hlead' hge hlt
  | up =>
    rcases Nat.eq_zero_or_pos (m % 8) with h | h
    · rw [roundSignificand, show (m + 7) / 8 = m / 8 by omega, ← le_antisymm (hexact.2 h) hge]
      exact roundsTo_self .up ⟨m / 8, e, hk, he, le_antisymm (hexact.2 h) hge⟩
    · rw [roundSignificand, show (m + 7) / 8 = m / 8 + 1 by omega, Nat.cast_succ]
      exact roundsTo_up hk he hlead' (not_le.1 (mt hexact.1 h.ne')) hlt.le
  | nearest =>
    by_cases hlower : m % 8 < 4 ∨ (m % 8 = 4 ∧ m / 8 % 2 = 0)
    · rw [roundSignificand, show (m + 3 + m / 8 % 2) / 8 = m / 8 by omega]
      refine roundsTo_nearest_lower hk he hlead' hge (hlow.2 (by omega)) fun heq => ?_
      have := hhigh.1 heq.ge
      omega
    · rw [roundSignificand, show (m + 3 + m / 8 % 2) / 8 = m / 8 + 1 by omega, Nat.cast_succ]
      refine roundsTo_nearest_upper hk he hlead' hM (hhigh.2 (by omega)) hlt.le fun heq => ?_
      have := hlow.1 heq.le
      omega

end Sticky

end PsxLinux.Lib
