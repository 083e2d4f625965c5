import Mathlib.Data.Nat.Bitwise

/-!
# Masks of the high bits

Rounding down to a multiple of a power of two is a mask of the high bits of the word, and
flipping one bit of a multiple of that power goes to its neighbour.
-/

namespace PsxLinux.Lib

/-- The mask of the high bits rounds down. -/
lemma and_high_mask {x w k : ℕ} (hx : x < 2 ^ w) (hk : k ≤ w) :
    x &&& (2 ^ w - 2 ^ k) = x / 2 ^ k * 2 ^ k := by
  have hmask : 2 ^ w - 2 ^ k = (2 ^ (w - k) - 1) <<< k := by
    rw [Nat.shiftLeft_eq, Nat.sub_mul, ← Nat.pow_add, Nat.sub_add_cancel hk, Nat.one_mul]
  have hmul : x / 2 ^ k * 2 ^ k = (x >>> k) <<< k := by
    rw [Nat.shiftLeft_eq, Nat.shiftRight_eq_div_pow]
  rw [hmask, hmul]
  apply Nat.eq_of_testBit_eq
  intro i
  by_cases hi : k ≤ i
  · have hadd : k + (i - k) = i := by omega
    by_cases hlt : i - k < w - k
    · simp [hi, hlt]
    · have hbig : x < 2 ^ i := lt_of_lt_of_le hx (Nat.pow_le_pow_right (by omega) (by omega))
      simp [hadd, Nat.testBit_lt_two_pow hbig]
  · simp [hi]

/-- The neighbour of a multiple of `2 ^ k` in its pair. -/
def buddy (p k : ℕ) : ℕ := if p / 2 ^ k % 2 = 0 then p + 2 ^ k else p - 2 ^ k

/-- The other half of a block of twice the size. -/
lemma xor_two_pow {p k : ℕ} (h : 2 ^ k ∣ p) : p ^^^ 2 ^ k = buddy p k := by
  obtain ⟨q, rfl⟩ := h
  have hpos : 0 < 2 ^ k := Nat.two_pow_pos k
  have hshift : ∀ n, 2 ^ k * n = n <<< k := fun n => by rw [Nat.shiftLeft_eq, Nat.mul_comm]
  have hone : (2 : ℕ) ^ k = 1 <<< k := by rw [Nat.shiftLeft_eq, Nat.one_mul]
  have hflip : 2 ^ k * q ^^^ 2 ^ k = 2 ^ k * (q ^^^ 1) := by
    rw [hshift, hshift, Nat.shiftLeft_xor_distrib, ← hone]
  rw [hflip, buddy, Nat.mul_div_cancel_left _ hpos]
  by_cases hq : q % 2 = 0
  · have : q ^^^ 1 = q + 1 := by
      rw [Nat.xor_one_of_even (Nat.even_iff.mpr hq)]
    rw [if_pos hq, this, Nat.mul_add, Nat.mul_one]
  · have : q ^^^ 1 = q - 1 := by
      rw [Nat.xor_one_of_odd (Nat.odd_iff.mpr (by omega))]
    rw [if_neg hq, this, Nat.mul_sub, Nat.mul_one]

end PsxLinux.Lib
