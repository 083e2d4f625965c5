import Mathlib.Tactic.Linarith
import Mathlib.Tactic.Positivity
import Mathlib.Tactic.Ring
import Mathlib.Tactic.FieldSimp

/-!
# Integers that stand for a fraction

Software arithmetic drops bits and keeps one sticky bit for what it has dropped. `Sticky g m v`
says what such an integer `m` is still good for: it compares with every multiple of `g` as the
exact value `v` does. A shift that keeps a sticky bit (`jam`) leaves an integer that is right at
every even number; a shift to the left by one bit makes that every multiple of 4. This is enough
for any rounding that drops three bits.
-/

namespace PsxLinux.Lib

/-- `v` shifted to the right, with the lowest bit set if a bit was lost. -/
def jam (v s : ℕ) : ℕ := v >>> s ||| (if v % 2 ^ s = 0 then 0 else 1)

/-- With its lowest bit set, a number is the odd one of its pair. -/
lemma or_one (q : ℕ) : q ||| 1 = 2 * (q / 2) + 1 := by
  have hdiv : (q ||| 1) / 2 = q / 2 := by
    rw [Nat.or_div_two]
    exact Nat.or_zero _
  have hmod : (q ||| 1) % 2 = 1 := Nat.or_mod_two_eq_one.2 (.inr rfl)
  omega

lemma jam_of_dvd {v s : ℕ} (h : 2 ^ s ∣ v) : jam v s = v / 2 ^ s := by
  rw [jam, if_pos (Nat.mod_eq_zero_of_dvd h), Nat.or_zero, Nat.shiftRight_eq_div_pow]

lemma jam_of_not_dvd {v s : ℕ} (h : ¬ 2 ^ s ∣ v) : jam v s = 2 * (v / 2 ^ s / 2) + 1 := by
  rw [jam, if_neg fun h0 => h (Nat.dvd_of_mod_eq_zero h0), or_one, Nat.shiftRight_eq_div_pow]

/-- The shifted number compares with an even number as the number itself does. -/
lemma jam_lt_iff {v s t : ℕ} (ht : 2 ∣ t) : jam v s < t ↔ v < t * 2 ^ s := by
  have hpos : 0 < 2 ^ s := Nat.two_pow_pos s
  by_cases h : 2 ^ s ∣ v
  · rw [jam_of_dvd h, Nat.div_lt_iff_lt_mul hpos]
  · rw [jam_of_not_dvd h, ← Nat.div_lt_iff_lt_mul hpos]
    omega

lemma lt_jam_iff {v s t : ℕ} (ht : 2 ∣ t) : t < jam v s ↔ t * 2 ^ s < v := by
  have hpos : 0 < 2 ^ s := Nat.two_pow_pos s
  by_cases h : 2 ^ s ∣ v
  · obtain ⟨n, rfl⟩ := h
    rw [jam_of_dvd (Dvd.intro n rfl), Nat.mul_div_cancel_left n hpos, Nat.mul_comm t,
      Nat.mul_lt_mul_left hpos]
  · have hne : t * 2 ^ s ≠ v := fun heq => h ⟨t, by rw [← heq, Nat.mul_comm]⟩
    have hle : t * 2 ^ s < v ↔ t ≤ v / 2 ^ s := by
      rw [Nat.le_div_iff_mul_le hpos]
      omega
    rw [jam_of_not_dvd h]
    omega

/-- The integer `m` compares with the multiples of `g` as the value `v` does. -/
def Sticky (g m : ℕ) (v : ℚ) : Prop :=
  ∀ t : ℕ, g ∣ t → (m < t ↔ v < t) ∧ (t < m ↔ (t : ℚ) < v)

variable {g m s x : ℕ} {v : ℚ}

lemma sticky_self (g m : ℕ) : Sticky g m m :=
  fun _ _ => ⟨Nat.cast_lt.symm, Nat.cast_lt.symm⟩

namespace Sticky

lemma mono {k : ℕ} (h : Sticky g m v) (hg : g ∣ k) : Sticky k m v :=
  fun t ht => h t (hg.trans ht)

/-- A shift that jams keeps the value's place among the even numbers. -/
lemma jam (h : Sticky g m v) (hg : g ∣ 2 ^ (s + 1)) : Sticky 2 (jam m s) (v / 2 ^ s) := by
  intro t ht
  have hpos : (0 : ℚ) < 2 ^ s := by positivity
  have hdvd : g ∣ t * 2 ^ s := by
    obtain ⟨n, rfl⟩ := ht
    refine hg.trans ⟨n, ?_⟩
    ring
  obtain ⟨h₁, h₂⟩ := h _ hdvd
  push_cast at h₁ h₂
  rw [jam_lt_iff ht, lt_jam_iff ht, h₁, h₂, div_lt_iff₀ hpos, lt_div_iff₀ hpos]
  exact ⟨Iff.rfl, Iff.rfl⟩

lemma shl (h : Sticky g m v) (n : ℕ) : Sticky (2 ^ n * g) (2 ^ n * m) (2 ^ n * v) := by
  rintro t ⟨k, rfl⟩
  have hpos : (0 : ℚ) < 2 ^ n := by positivity
  obtain ⟨h₁, h₂⟩ := h (g * k) (Dvd.intro k rfl)
  rw [Nat.mul_assoc, Nat.mul_lt_mul_left (Nat.two_pow_pos n), Nat.mul_lt_mul_left (Nat.two_pow_pos n),
    h₁, h₂]
  push_cast
  rw [mul_lt_mul_iff_right₀ hpos, mul_lt_mul_iff_right₀ hpos]
  exact ⟨Iff.rfl, Iff.rfl⟩

lemma add (h : Sticky 2 m v) (hv : 0 ≤ v) (hx : 2 ∣ x) : Sticky 2 (x + m) (x + v) := by
  intro t ht
  rcases Nat.lt_or_ge t x with hlt | hge
  · have hlt' : (t : ℚ) < x := Nat.cast_lt.2 hlt
    exact ⟨iff_of_false (by omega) (by linarith), iff_of_true (by omega) (by linarith)⟩
  · obtain ⟨n, rfl⟩ := Nat.exists_eq_add_of_le hge
    obtain ⟨h₁, h₂⟩ := h n ((Nat.dvd_add_right hx).1 ht)
    push_cast
    refine ⟨?_, ?_⟩
    · rw [add_lt_add_iff_left, add_lt_add_iff_left, h₁]
    · rw [add_lt_add_iff_left, add_lt_add_iff_left, h₂]

lemma sub (h : Sticky 2 m v) (hv : 0 ≤ v) (hx : 2 ∣ x) (hm : m ≤ x) : Sticky 2 (x - m) (x - v) := by
  intro t ht
  rcases Nat.lt_or_ge x t with hlt | hge
  · have hlt' : (x : ℚ) < t := Nat.cast_lt.2 hlt
    exact ⟨iff_of_true (by omega) (by linarith), iff_of_false (by omega) (by linarith)⟩
  · obtain ⟨h₁, h₂⟩ := h (x - t) (Nat.dvd_sub hx ht)
    push_cast [hge] at h₁ h₂
    refine ⟨?_, ?_⟩
    · rw [sub_lt_comm, ← h₂]
      omega
    · rw [lt_sub_comm, ← h₁]
      omega

end Sticky
end PsxLinux.Lib
