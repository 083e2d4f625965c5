import PsxLinux.Lib.Bitmap

/-!
# Bit searches

The searches of `asm-mipsnommu/bitops.h` and `string.h` that ext2 runs on a bitmap block. The bits
behind the block are whatever memory holds there. `memscan` returns the address behind the byte it
has found.
-/

namespace PsxLinux.Ext2

open Lib

/-- `find_first_zero_bit (addr, size)`. It compares whole words, so its result may be `size` or
more although a bit was found. -/
def findFirstZeroBit (map : Bitmap) (size : Nat) : Nat :=
  map.firstZero 0 (32 * ((size + 31) / 32))

/-- The end of `find_next_zero_bit`: the words from bit `p` on. -/
def findFromWord (map : Bitmap) (size p : Nat) : Nat :=
  p + findFirstZeroBit (fun i => map (p + i)) (size - p)

def findNextZeroBit (map : Bitmap) (size offset : Nat) : Nat :=
  let bit := offset % 32
  if bit ≠ 0 then
    let set := map.firstZero offset (32 - bit) - offset
    if set < 32 - bit then set + offset else findFromWord map size (offset + (32 - bit))
  else findFromWord map size offset

def byteZero (map : Bitmap) (p : Nat) : Bool := (List.range 8).all fun i => !map (8 * p + i)

/-- `memscan (addr, 0, size)` as the number of a byte. -/
def memscan (map : Bitmap) : Nat → Nat → Nat
  | p, 0 => p
  | p, size + 1 => if byteZero map p then p + 1 else memscan map (p + 1) size

/-! ## What they find -/

variable {map : Bitmap} {size offset p : Nat}

lemma findFirstZeroBit_clear (h : findFirstZeroBit map size < size) :
    map (findFirstZeroBit map size) = false := by
  apply Bitmap.firstZero_clear
  have hlt : Bitmap.firstZero map 0 (32 * ((size + 31) / 32)) < size := h
  omega

lemma findFirstZeroBit_set {i : Nat} (h : i < findFirstZeroBit map size) : map i :=
  Bitmap.firstZero_set (Nat.zero_le i) h

/-- A position that is found is clear. -/
lemma findFromWord_clear (h : findFromWord map size p < size) :
    map (findFromWord map size p) = false := by
  unfold findFromWord at h ⊢
  exact @findFirstZeroBit_clear (fun i => map (p + i)) (size - p) (by omega)

lemma findNextZeroBit_clear (h : findNextZeroBit map size offset < size) :
    map (findNextZeroBit map size offset) = false := by
  have hge := @Bitmap.firstZero_ge map (32 - offset % 32) offset
  unfold findNextZeroBit at h ⊢
  dsimp only at h ⊢
  split at h
  case isTrue hbit =>
    rw [if_pos hbit]
    split at h
    case isTrue hword =>
      rw [if_pos hword, Nat.sub_add_cancel hge]
      exact Bitmap.firstZero_clear (by omega)
    case isFalse hword =>
      rw [if_neg hword]
      exact findFromWord_clear h
  case isFalse hbit =>
    rw [if_neg hbit]
    exact findFromWord_clear h

/-- A byte that is zero has eight clear bits. -/
lemma byteZero_clear {i : Nat} (h : byteZero map p) (hi : i < 8) :
    map (8 * p + i) = false := by
  have hbit := List.all_eq_true.1 h i (List.mem_range.2 hi)
  simpa using hbit

/-- `memscan` stops behind a byte of clear bits, or at the end of its range. -/
lemma memscan_cases (map : Bitmap) (p size : Nat) :
    (∃ q, p ≤ q ∧ q < p + size ∧ byteZero map q ∧ memscan map p size = q + 1) ∨
      memscan map p size = p + size := by
  induction size generalizing p with
  | zero => exact .inr rfl
  | succ size ih =>
    rw [memscan]
    split
    case isTrue hzero => exact .inl ⟨p, Nat.le_refl p, by omega, hzero, rfl⟩
    case isFalse =>
      rcases ih (p + 1) with ⟨q, hle, hlt, hzero, heq⟩ | heq
      · exact .inl ⟨q, by omega, by omega, hzero, heq⟩
      · exact .inr (by omega)

end PsxLinux.Ext2
