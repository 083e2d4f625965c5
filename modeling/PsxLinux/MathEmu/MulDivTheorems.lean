import PsxLinux.MathEmu.AddTheorems
import Mathlib.Tactic.LinearCombination

/-!
# Multiplication and division are correctly rounded

The product of two words is put together from four products of half words; its upper word with a
sticky bit for the lower one is the exact product shifted (`mulWords_eq_jam`). The quotient comes
out bit by bit, and the remainder gives the sticky bit (`divLoop_spec`).
-/

namespace PsxLinux.MathEmu

open Lib

variable {f : Format} {csr : Csr} {sn : Bool} {xe ye : ℤ} {xm ym : ℕ} {a b : ℚ}

/-! ## The product of two words -/

lemma carry_spec {W h l t : ℕ} (hl : l < W) (ht : t < W) :
    (h + ofBool (decide ((l + t) % W < l))) * W + (l + t) % W = h * W + l + t := by
  rw [ofBool]
  rcases Nat.lt_or_ge (l + t) W with hlt | hge
  · rw [Nat.mod_eq_of_lt hlt, if_neg (by simp), Nat.add_zero]
    omega
  · have hmod : (l + t) % W = l + t - W := by
      rw [Nat.mod_eq_sub_mod hge, Nat.mod_eq_of_lt (by omega)]
    rw [if_pos (by simp only [decide_eq_true_eq]; omega), Nat.add_mul]
    omega

/-- The sum with one of the middle products, as a number of two words. -/
lemma addMiddle_spec {hrm lrm t : ℕ} (hl : lrm < 2 ^ f.wordBits)
    (hsum : hrm * 2 ^ f.wordBits + lrm + t * 2 ^ f.halfBits < 2 ^ f.wordBits * 2 ^ f.wordBits) :
    (addMiddle f hrm lrm t).1 * 2 ^ f.wordBits + (addMiddle f hrm lrm t).2 =
        hrm * 2 ^ f.wordBits + lrm + t * 2 ^ f.halfBits ∧
      (addMiddle f hrm lrm t).2 < 2 ^ f.wordBits := by
  have hword := f.word_eq
  have hW : 2 ^ f.wordBits = 2 ^ f.halfBits * 2 ^ f.halfBits := by
    rw [hword, two_mul, pow_add]
  have hpos : 0 < 2 ^ f.halfBits := Nat.two_pow_pos _
  have hWpos : 0 < 2 ^ f.wordBits := Nat.two_pow_pos _
  have hdecomp : t * 2 ^ f.halfBits =
      t / 2 ^ f.halfBits * 2 ^ f.wordBits + t % 2 ^ f.halfBits * 2 ^ f.halfBits := by
    conv_lhs => rw [← Nat.div_add_mod t (2 ^ f.halfBits)]
    rw [hW]
    ring
  have hlow : t % 2 ^ f.halfBits * 2 ^ f.halfBits < 2 ^ f.wordBits := by
    rw [hW]
    exact Nat.mul_lt_mul_of_pos_right (Nat.mod_lt _ hpos) hpos
  have hshl : shl f t f.halfBits = t % 2 ^ f.halfBits * 2 ^ f.halfBits := by
    rw [shl_eq (by omega), show f.wordBits - f.halfBits = f.halfBits by omega]
  simp only [addMiddle, hshl, Nat.shiftRight_eq_div_pow]
  generalize 2 ^ f.wordBits = W at *
  generalize t % 2 ^ f.halfBits * 2 ^ f.halfBits = low at *
  generalize t / 2 ^ f.halfBits = high at *
  refine ⟨?_, Nat.mod_lt _ hWpos⟩
  -- nothing is lost, since the whole sum fits into two words
  have hcarry := carry_spec (h := hrm + high) hl hlow
  have htop : hrm + high + ofBool (decide ((lrm + low) % W < lrm)) < W := by
    refine Nat.lt_of_mul_lt_mul_right (a := W) ?_
    rw [Nat.add_mul hrm] at hcarry
    omega
  rw [Nat.mod_eq_of_lt (by omega : hrm + ofBool (decide ((lrm + low) % W < lrm)) < W),
    Nat.mod_eq_of_lt (by omega), show hrm + ofBool (decide ((lrm + low) % W < lrm)) + high =
      hrm + high + ofBool (decide ((lrm + low) % W < lrm)) by omega, hcarry, Nat.add_mul]
  omega

lemma or_eq_jam {h l s : ℕ} (hl : l < 2 ^ s) : h ||| ofBool (l != 0) = jam (h * 2 ^ s + l) s := by
  have hpos : 0 < 2 ^ s := Nat.two_pow_pos s
  have hmod : (h * 2 ^ s + l) % 2 ^ s = l := by
    rw [Nat.add_comm, Nat.add_mul_mod_self_right, Nat.mod_eq_of_lt hl]
  have hdiv : (h * 2 ^ s + l) / 2 ^ s = h := by
    rw [Nat.add_comm, Nat.add_mul_div_right _ _ hpos, Nat.div_eq_of_lt hl, Nat.zero_add]
  rw [jam, Nat.shiftRight_eq_div_pow, hmod, hdiv, ofBool]
  by_cases h0 : l = 0 <;> simp

/-- The upper word of the product, with the lower one as sticky bit. -/
lemma mulWords_eq_jam {x y : ℕ} (hx : x < 2 ^ f.wordBits) (hy : y < 2 ^ f.wordBits) :
    mulWords f x y = jam (x * y) f.wordBits := by
  have hword := f.word_eq
  have hW : 2 ^ f.wordBits = 2 ^ f.halfBits * 2 ^ f.halfBits := by
    rw [hword, two_mul, pow_add]
  have hpos : 0 < 2 ^ f.halfBits := Nat.two_pow_pos _
  have hlt : x * y < 2 ^ f.wordBits * 2 ^ f.wordBits := Nat.mul_lt_mul'' hx hy
  have hxd := Nat.div_add_mod x (2 ^ f.halfBits)
  have hyd := Nat.div_add_mod y (2 ^ f.halfBits)
  have hxl := Nat.mod_lt x hpos
  have hyl := Nat.mod_lt y hpos
  simp only [mulWords, Nat.shiftRight_eq_div_pow]
  generalize x / 2 ^ f.halfBits = hx' at *
  generalize x % 2 ^ f.halfBits = lx at *
  generalize y / 2 ^ f.halfBits = hy' at *
  generalize y % 2 ^ f.halfBits = ly at *
  have hprod : x * y = hx' * hy' * 2 ^ f.wordBits + lx * ly + lx * hy' * 2 ^ f.halfBits +
      hx' * ly * 2 ^ f.halfBits := by
    rw [← hxd, ← hyd, hW]
    ring
  have hll : lx * ly < 2 ^ f.wordBits := by
    rw [hW]
    exact Nat.mul_lt_mul'' hxl hyl
  obtain ⟨h₁, hl₁⟩ := addMiddle_spec hll (by omega : hx' * hy' * 2 ^ f.wordBits +
    lx * ly + lx * hy' * 2 ^ f.halfBits < 2 ^ f.wordBits * 2 ^ f.wordBits)
  obtain ⟨h₂, hl₂⟩ := addMiddle_spec hl₁ (by rw [h₁, ← hprod]; exact hlt)
  rw [h₁, ← hprod] at h₂
  rw [← h₂]
  exact or_eq_jam hl₂

/-! ## Multiplication -/

/-- The product in units of the last extra bit, `s` places below the upper word. -/
lemma product_eq {K s : ℕ} {e : ℤ} (f : Format)
    (hs : (2 * K : ℤ) - f.wordBits - s + (e - (f.mbits + 3)) = xe + ye - 2 * f.mbits) :
    ((2 ^ K * xm * (2 ^ K * ym) : ℕ) : ℚ) / 2 ^ f.wordBits / 2 ^ s * ulp (f.mbits + 3) e =
      xm * ulp f.mbits xe * (ym * ulp f.mbits ye) := by
  have hpow : (2 : ℚ) ^ K * 2 ^ K / 2 ^ f.wordBits / 2 ^ s * ulp (f.mbits + 3) e =
      ulp f.mbits xe * ulp f.mbits ye := by
    simp only [ulp, ← zpow_natCast, ← zpow_add₀ (two_ne_zero' ℚ), ← zpow_sub₀ (two_ne_zero' ℚ)]
    congr 1
    push_cast
    linarith
  push_cast
  linear_combination (xm * ym) * hpow

/-- A word with a sticky bit is shifted down to the three extra bits and rounded. -/
lemma format_shifted_computes {rm s t : ℕ} {e : ℤ} {v c : ℚ} (hcsr : csr.Clear)
    (hst : s + t = f.wordBits) (hlow : 2 ^ (f.mbits + 3) * 2 ^ s ≤ rm)
    (hhigh : rm < 2 ^ (f.mbits + 4) * 2 ^ s) (hsticky : Sticky 2 rm v)
    (hc : v / 2 ^ s * ulp (f.mbits + 3) e = c) (hcpos : 0 < c) :
    Computes csr.rm (format csr sn e (rm >>> s ||| ofBool (shl f rm t != 0)) : Fp f × Csr)
      (.rounded (signed sn c)) := by
  obtain rfl : t = f.wordBits - s := by omega
  have heven : ∀ n, 2 ∣ 2 ^ (n + 1) := fun n => dvd_pow_self 2 n.succ_ne_zero
  rw [or_shl_eq_jam (by omega)]
  refine format_computes hcsr ?_ ?_ hcpos (Sticky.mono ?_ (by decide : 2 ∣ 4))
  · rw [← not_lt, jam_lt_iff (heven _), not_lt]
    exact hlow
  · rw [jam_lt_iff (heven _)]
    exact hhigh
  · rw [← hc, mul_div_cancel_right₀ _ (ulp_pos _ _).ne']
    exact hsticky.jam (dvd_pow_self 2 s.succ_ne_zero)

/-- **The product of two numbers.** -/
theorem mulNumbers_computes (hcsr : csr.Clear) (hx : Normal f xm) (hy : Normal f ym)
    (ha : a = xm * ulp f.mbits xe) (hb : b = ym * ulp f.mbits ye) :
    Computes csr.rm (mulNumbers csr sn (xm, xe) (ym, ye) : Fp f × Csr)
      (.rounded (signed sn (a * b))) := by
  have hword := f.word_large
  obtain ⟨hx₁, hx₂⟩ := hx
  obtain ⟨hy₁, hy₂⟩ := hy
  have hcpos : 0 < a * b := by
    rw [ha, hb]
    have h₁ : 0 < xm := (Nat.two_pow_pos _).trans_le hx₁
    have h₂ : 0 < ym := (Nat.two_pow_pos _).trans_le hy₁
    have := ulp_pos f.mbits xe
    have := ulp_pos f.mbits ye
    positivity
  obtain ⟨K, hK⟩ : ∃ K, f.wordBits = f.mbits + 1 + K := Nat.exists_eq_add_of_le (by omega)
  have hshl : ∀ {m}, m < 2 ^ (f.mbits + 1) → shl f m (f.wordBits - (f.mbits + 1)) = 2 ^ K * m := by
    intro m hm
    rw [show f.wordBits - (f.mbits + 1) = K by omega]
    exact shl_of_lt (by omega) (by rwa [show f.wordBits - K = f.mbits + 1 by omega])
  have hbound : ∀ {m}, m < 2 ^ (f.mbits + 1) → 2 ^ K * m < 2 ^ f.wordBits := by
    intro m hm
    rw [hK, pow_add, mul_comm]
    exact Nat.mul_lt_mul_of_pos_right hm (Nat.two_pow_pos K)
  have heven : ∀ n, 0 < n → 2 ∣ 2 ^ n := fun n hn => dvd_pow_self 2 hn.ne'
  simp only [mulNumbers, hshl hx₂, hshl hy₂, mulWords_eq_jam (hbound hx₂) (hbound hy₂)]
  set P := 2 ^ K * xm * (2 ^ K * ym) with hP
  have hsticky : Sticky 2 (jam P f.wordBits) (P / 2 ^ f.wordBits) :=
    (sticky_self 1 P).jam (one_dvd _)
  have hrm : jam P f.wordBits < 2 ^ f.wordBits := by
    rw [jam_lt_iff (heven _ (by omega))]
    exact Nat.mul_lt_mul'' (hbound hx₂) (hbound hy₂)
  have hrm' : 2 ^ (f.wordBits - 2) ≤ jam P f.wordBits := by
    rw [← not_lt, jam_lt_iff (heven _ (by omega)), not_lt]
    calc 2 ^ (f.wordBits - 2) * 2 ^ f.wordBits
        = 2 ^ K * 2 ^ f.mbits * (2 ^ K * 2 ^ f.mbits) := by
          simp only [← pow_add]
          congr 1
          omega
      _ ≤ 2 ^ K * xm * (2 ^ K * ym) :=
          Nat.mul_le_mul (Nat.mul_le_mul_left _ hx₁) (Nat.mul_le_mul_left _ hy₁)
  have hpow : ∀ {i j k : ℕ}, i + j = k → 2 ^ i * 2 ^ j = 2 ^ k := by
    rintro i j k rfl
    exact (pow_add 2 i j).symm
  split_ifs with htop
  · refine format_shifted_computes hcsr (by omega) ?_ ?_ hsticky ?_ hcpos
    · rwa [hpow (by omega : f.mbits + 3 + (f.wordBits - (f.mbits + 1 + 3)) = f.wordBits - 1)]
    · rwa [hpow (by omega : f.mbits + 4 + (f.wordBits - (f.mbits + 1 + 3)) = f.wordBits)]
    · rw [ha, hb]
      exact product_eq f (by omega)
  · refine format_shifted_computes hcsr (by omega) ?_ ?_ hsticky ?_ hcpos
    · rwa [hpow (by omega : f.mbits + 3 + (f.wordBits - (f.mbits + 1 + 3 + 1)) = f.wordBits - 2)]
    · rw [hpow (by omega : f.mbits + 4 + (f.wordBits - (f.mbits + 1 + 3 + 1)) = f.wordBits - 1)]
      exact not_le.1 htop
    · rw [ha, hb]
      exact product_eq f (by omega)

/-! ## Division -/

lemma or_two_pow {r n : ℕ} (hr : 2 ^ (n + 1) ∣ r) : r ||| 2 ^ n = r + 2 ^ n := by
  obtain ⟨k, rfl⟩ := hr
  exact (Nat.two_pow_add_eq_or_of_lt (Nat.pow_lt_pow_right one_lt_two n.lt_succ_self) k).symm

/-- The loop divides: `rm` collects the quotient, `xm` ends as the remainder, one place up. -/
lemma divLoop_spec {y : ℕ} (hy : 2 * y ≤ 2 ^ f.wordBits) {n x r : ℕ} (hx : x < 2 * y)
    (hr : 2 ^ n ∣ r) :
    ∃ q x', divLoop f y n x r = (x', r + q) ∧ q < 2 ^ n ∧ x' < 2 * y ∧
      x' + 2 * q * y = x * 2 ^ n := by
  induction n generalizing x r with
  | zero => exact ⟨0, x, rfl, Nat.one_pos, hx, by ring⟩
  | succ n ih =>
    have hshl : ∀ {z}, z < y → shl f z 1 = 2 * z := by
      intro z hz
      rw [shl, Nat.shiftLeft_eq, Nat.mod_eq_of_lt (by omega), mul_comm]
    have hr' : 2 ^ n ∣ r := (pow_dvd_pow 2 n.le_succ).trans hr
    simp only [divLoop, or_two_pow hr]
    split_ifs with hge hzero
    · -- `if (xm == 0) break`
      obtain rfl : x = y := by omega
      exact ⟨2 ^ n, x - x, rfl, by have := Nat.two_pow_pos n; omega, by omega,
        by rw [Nat.sub_self]; ring⟩
    · obtain ⟨q, x', heq, hq, hx', hinv⟩ := ih (x := 2 * (x - y)) (by omega)
        (Dvd.dvd.add hr' (dvd_refl _))
      rw [hshl (by omega), heq]
      refine ⟨2 ^ n + q, x', by rw [Nat.add_assoc], by omega, hx', ?_⟩
      calc x' + 2 * (2 ^ n + q) * y = x' + 2 * q * y + 2 * y * 2 ^ n := by ring
        _ = (2 * (x - y) + 2 * y) * 2 ^ n := by rw [hinv]; ring
        _ = x * 2 ^ (n + 1) := by
          rw [show 2 * (x - y) + 2 * y = 2 * x by omega]
          ring
    · obtain ⟨q, x', heq, hq, hx', hinv⟩ := ih (x := 2 * x) (by omega) hr'
      rw [hshl (by omega), heq]
      exact ⟨q, x', rfl, by omega, hx', by rw [hinv]; ring⟩

lemma sticky_quotient {q x' y z : ℕ} (hx' : x' < 2 * y) (h : x' + 2 * q * y = z) :
    Sticky 2 (if x' ≠ 0 then 2 * q ||| 1 else 2 * q) (z / y) := by
  have hy : (0 : ℚ) < y := Nat.cast_pos.2 (by omega)
  have hz : (z : ℚ) = x' + 2 * q * y := by exact_mod_cast h.symm
  split_ifs with h0
  · have hodd : 2 * q ||| 1 = 2 * q + 1 := by
      rw [or_one]
      omega
    have hpos : (0 : ℚ) < x' := Nat.cast_pos.2 (Nat.pos_of_ne_zero h0)
    have hlt : (x' : ℚ) < 2 * y := by exact_mod_cast hx'
    rintro t ⟨k, rfl⟩
    rw [div_lt_iff₀ hy, lt_div_iff₀ hy]
    push_cast
    rcases Nat.lt_or_ge q k with hqk | hqk
    · have hcast : (q : ℚ) + 1 ≤ k := by exact_mod_cast hqk
      exact ⟨iff_of_true (by omega) (by nlinarith), iff_of_false (by omega) (by nlinarith)⟩
    · have hcast : (k : ℚ) ≤ q := by exact_mod_cast hqk
      exact ⟨iff_of_false (by omega) (by nlinarith), iff_of_true (by omega) (by nlinarith)⟩
  · have hval : (z : ℚ) / y = (2 * q : ℕ) := by
      rw [hz, not_not.1 h0, Nat.cast_zero, zero_add, mul_div_cancel_right₀ _ hy.ne']
      push_cast
      rfl
    rw [hval]
    exact sticky_self 2 (2 * q)

/-- **The quotient of two numbers.** -/
theorem divNumbers_computes (hcsr : csr.Clear) (hx : Normal f xm) (hy : Normal f ym)
    (ha : a = xm * ulp f.mbits xe) (hb : b = ym * ulp f.mbits ye) :
    Computes csr.rm (divNumbers csr sn (xm, xe) (ym, ye) : Fp f × Csr)
      (.rounded (signed sn (a / b))) := by
  have hword := f.word_large
  have hpow : ∀ k, 2 ^ (f.mbits + k) = 2 ^ f.mbits * 2 ^ k := pow_add 2 _
  have hW : 2 ^ (f.mbits + 5) ≤ 2 ^ f.wordBits := Nat.pow_le_pow_right two_pos hword
  obtain ⟨hx₁, hx₂⟩ := id hx
  obtain ⟨hy₁, hy₂⟩ := id hy
  rw [hpow] at hx₂ hy₂ hW
  obtain ⟨q, x', heq, hq, hx', hinv⟩ := divLoop_spec (f := f) (y := 8 * ym)
    (x := 8 * xm) (by omega) (by omega) (dvd_zero _)
  rw [Nat.zero_add] at heq
  have hq' : q < 2 ^ f.mbits * 2 ^ 3 := by rwa [hpow] at hq
  have hshl : shl f q 1 = 2 * q := by
    rw [shl, Nat.shiftLeft_eq, Nat.mod_eq_of_lt (by omega), mul_comm]
  simp only [divNumbers, shl_three hx, shl_three hy, heq, hshl]
  have hsticky := sticky_quotient hx' hinv
  generalize (if x' ≠ 0 then 2 * q ||| 1 else 2 * q) = rm at *
  have hypos : (0 : ℚ) < (8 * ym : ℕ) := Nat.cast_pos.2 (by omega)
  have hxpos : (0 : ℚ) < (8 * xm * 2 ^ (f.mbits + 3) : ℕ) :=
    Nat.cast_pos.2 (Nat.mul_pos (by omega) (Nat.two_pow_pos _))
  have hlow : 2 ^ (f.mbits + 2) < rm := by
    refine (hsticky _ (dvd_pow_self 2 (by omega))).2.2 ?_
    rw [lt_div_iff₀ hypos]
    have hnat : 2 ^ (f.mbits + 2) * (8 * ym) < 8 * xm * 2 ^ (f.mbits + 3) := by
      calc 2 ^ (f.mbits + 2) * (8 * ym) < 2 ^ (f.mbits + 2) * (16 * xm) :=
            Nat.mul_lt_mul_of_pos_left (by omega) (Nat.two_pow_pos _)
        _ = 8 * xm * 2 ^ (f.mbits + 3) := by ring
    exact_mod_cast hnat
  have hhigh : rm < 2 ^ (f.mbits + 4) := by
    refine (hsticky _ (dvd_pow_self 2 (by omega))).1.2 ?_
    rw [div_lt_iff₀ hypos]
    have hnat : 8 * xm * 2 ^ (f.mbits + 3) < 2 ^ (f.mbits + 4) * (8 * ym) := by
      calc 8 * xm * 2 ^ (f.mbits + 3) < 16 * ym * 2 ^ (f.mbits + 3) :=
            Nat.mul_lt_mul_of_pos_right (by omega) (Nat.two_pow_pos _)
        _ = 2 ^ (f.mbits + 4) * (8 * ym) := by ring
    exact_mod_cast hnat
  have hc : a / b =
      (8 * xm * 2 ^ (f.mbits + 3) : ℕ) / (8 * ym : ℕ) * ulp (f.mbits + 3) (xe - ye) := by
    have hulp : ulp f.mbits xe =
        2 ^ (f.mbits + 3) * ulp (f.mbits + 3) (xe - ye) * ulp f.mbits ye := by
      simp only [ulp, ← zpow_natCast, ← zpow_add₀ (two_ne_zero' ℚ)]
      congr 1
      push_cast
      ring
    have hne := (ulp_pos f.mbits ye).ne'
    rw [ha, hb, hulp]
    push_cast
    field_simp
  refine format_normalize_computes hcsr (mbits_lt_wordBits f) (Nat.zero_lt_of_lt hlow) hhigh
    (.inr ⟨hsticky, hlow.le⟩) hc ?_
  rw [hc]
  exact mul_pos (div_pos hxpos hypos) (ulp_pos _ _)

end PsxLinux.MathEmu
