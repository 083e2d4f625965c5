import Mathlib.Algebra.Order.Ring.Int

/-!
# Words in byte memory

A memory holds one byte at each 32-bit address; a word is four bytes, the lowest first. A region
is a set of addresses. Reading a word that a region covers depends on the region's bytes alone,
and writing it changes no other byte.
-/

namespace PsxLinux.Lib

/-- One byte at each address. -/
abbrev Memory := BitVec 32 → BitVec 8

namespace Memory

/-- The word at an address. -/
def word (m : Memory) (a : BitVec 32) : BitVec 32 :=
  m (a + 3) ++ m (a + 2) ++ m (a + 1) ++ m a

/-- The memory with a word written at an address. -/
def setWord (m : Memory) (a v : BitVec 32) : Memory := fun x =>
  if x = a then v.extractLsb' 0 8
  else if x = a + 1 then v.extractLsb' 8 8
  else if x = a + 2 then v.extractLsb' 16 8
  else if x = a + 3 then v.extractLsb' 24 8
  else m x

variable {m m' : Memory} {R : BitVec 32 → Bool} {a : BitVec 32}

/-- The region holds the four bytes of the word. -/
def Covers (R : BitVec 32 → Bool) (a : BitVec 32) : Prop :=
  R a ∧ R (a + 1) ∧ R (a + 2) ∧ R (a + 3)

instance : Decidable (Covers R a) := inferInstanceAs (Decidable (_ ∧ _))

def AgreeOn (R : BitVec 32 → Bool) (m m' : Memory) : Prop := ∀ x, R x → m x = m' x

/-- A word in the common part is the same. -/
lemma AgreeOn.word (h : AgreeOn R m m') (ha : Covers R a) : m.word a = m'.word a := by
  obtain ⟨h₀, h₁, h₂, h₃⟩ := ha
  rw [Memory.word, Memory.word, h _ h₀, h _ h₁, h _ h₂, h _ h₃]

lemma AgreeOn.setWord (h : AgreeOn R m m') (a v : BitVec 32) :
    AgreeOn R (m.setWord a v) (m'.setWord a v) := by
  intro x hx
  simp only [Memory.setWord, h x hx]

/-- A write changes only bytes of the region that covers it. -/
lemma setWord_of_not_mem (ha : Covers R a) (v : BitVec 32) {x : BitVec 32} (hx : ¬ R x) :
    m.setWord a v x = m x := by
  obtain ⟨h₀, h₁, h₂, h₃⟩ := ha
  rw [Memory.setWord, if_neg, if_neg, if_neg, if_neg]
  all_goals rintro rfl; contradiction

lemma setWord_of_le {v x : BitVec 32} (h : 4 ≤ (x - a).toNat) : m.setWord a v x = m x := by
  rw [Memory.setWord, if_neg, if_neg, if_neg, if_neg]
  all_goals
    rintro rfl
    bv_omega

lemma append_bytes (v : BitVec 32) :
    v.extractLsb' 24 8 ++ v.extractLsb' 16 8 ++ v.extractLsb' 8 8 ++ v.extractLsb' 0 8 = v := by
  apply BitVec.eq_of_getLsbD_eq
  intro i hi
  rw [BitVec.getLsbD_append, BitVec.getLsbD_append, BitVec.getLsbD_append]
  simp only [BitVec.getLsbD_extractLsb']
  split
  case isTrue h => simp [h]
  case isFalse h₁ =>
    split
    case isTrue h =>
      rw [show 8 + (i - 8) = i by omega]
      simp [h]
    case isFalse h₂ =>
      split
      case isTrue h =>
        rw [show 16 + (i - 8 - 8) = i by omega]
        simp [h]
      case isFalse h₃ =>
        rw [show 24 + (i - 8 - 8 - 8) = i by omega]
        have h : i - 8 - 8 - 8 < 8 := by omega
        simp [h]

/-- A word that was stored is read back. -/
lemma word_setWord (v : BitVec 32) : (m.setWord a v).word a = v := by
  have h₁ : a + 1 ≠ a := by bv_omega
  have h₂ : a + 2 ≠ a ∧ a + 2 ≠ a + 1 := by constructor <;> bv_omega
  have h₃ : a + 3 ≠ a ∧ a + 3 ≠ a + 1 ∧ a + 3 ≠ a + 2 := by refine ⟨?_, ?_, ?_⟩ <;> bv_omega
  simp only [Memory.word, Memory.setWord, if_true, if_neg h₁, if_neg h₂.1, if_neg h₂.2,
    if_neg h₃.1, if_neg h₃.2.1, if_neg h₃.2.2]
  exact append_bytes v

/-- A store elsewhere does not change a word. -/
lemma word_setWord_of_le {b v : BitVec 32} (h : 4 ≤ (b - a).toNat)
    (h' : (b - a).toNat ≤ 2 ^ 32 - 4) : (m.setWord a v).word b = m.word b := by
  rw [Memory.word, Memory.word, setWord_of_le h, setWord_of_le, setWord_of_le, setWord_of_le]
  all_goals bv_omega

end Memory
end PsxLinux.Lib
