import Mathlib.Algebra.BigOperators.Group.Finset.Piecewise
import Mathlib.Algebra.Order.BigOperators.Group.Finset
import Mathlib.Data.Nat.Count

/-!
# Bitmaps and their counts

A bitmap marks numbers as used. `zeros` counts the free numbers below a bound; setting or clearing
one bit changes the count by one. `firstZero` is the linear search for a free number. The last
section keeps the sum of a family of counters in step with one counter that changes.
-/

namespace PsxLinux.Lib

open Function

/-- One bit for each number; a set bit is in use. -/
abbrev Bitmap := Nat → Bool

namespace Bitmap

variable {m m' : Bitmap} {i n start : Nat}

def write (m : Bitmap) (i : Nat) (b : Bool) : Bitmap := update m i b

@[simp] lemma write_self (b : Bool) : m.write i b i = b := update_self ..

lemma write_of_ne {j : Nat} (b : Bool) (h : j ≠ i) : m.write i b j = m j :=
  update_of_ne h ..

/-- A bit after a write. -/
lemma write_apply (b : Bool) (j : Nat) : m.write i b j = if j = i then b else m j :=
  update_apply ..

def zeros (m : Bitmap) (n : Nat) : Nat := Nat.count (fun i => m i = false) n

@[simp] lemma zeros_zero (m : Bitmap) : m.zeros 0 = 0 := Nat.count_zero _

lemma zeros_succ (m : Bitmap) (n : Nat) :
    m.zeros (n + 1) = m.zeros n + if m n = false then 1 else 0 := Nat.count_succ ..

lemma zeros_le (m : Bitmap) (n : Nat) : m.zeros n ≤ n := Nat.count_le _

lemma zeros_congr (h : ∀ i, i < n → m i = m' i) : m.zeros n = m'.zeros n := by
  induction n with
  | zero => rfl
  | succ n ih =>
    rw [zeros_succ, zeros_succ, ih fun i hi => h i (by omega), h n (by omega)]

lemma zeros_pos_iff : 0 < m.zeros n ↔ ∃ i, i < n ∧ m i = false := by
  induction n with
  | zero => simp
  | succ n ih =>
    rw [zeros_succ]
    by_cases h : m n = false
    · simp only [h, if_true]
      exact ⟨fun _ => ⟨n, by omega, h⟩, fun _ => by omega⟩
    · rw [if_neg h, Nat.add_zero, ih]
      constructor
      · rintro ⟨i, hi, hm⟩
        exact ⟨i, by omega, hm⟩
      · rintro ⟨i, hi, hm⟩
        have hne : i ≠ n := by
          rintro rfl
          exact h hm
        exact ⟨i, by omega, hm⟩

/-- A bit beyond the bound does not count. -/
lemma zeros_write_of_le (b : Bool) (h : n ≤ i) : (m.write i b).zeros n = m.zeros n := by
  apply zeros_congr
  intro j hj
  exact write_of_ne b (by omega)

/-- Setting a clear bit leaves one zero less. -/
lemma zeros_set (hi : i < n) (h : m i = false) : (m.write i true).zeros n + 1 = m.zeros n := by
  induction n with
  | zero => omega
  | succ n ih =>
    rw [zeros_succ, zeros_succ]
    by_cases hin : i = n
    · subst hin
      rw [zeros_write_of_le true (Nat.le_refl i), h]
      simp
    · rw [write_of_ne true (by omega)]
      omega

/-- Clearing a bit that is set gives one more. -/
lemma zeros_clear (hi : i < n) (h : m i) : (m.write i false).zeros n = m.zeros n + 1 := by
  have hback : (m.write i false).write i true = m := by
    funext j
    simp only [write_apply]
    split
    case isTrue hj => rw [hj, h]
    case isFalse => rfl
  have hset := zeros_set hi (write_self (m := m) false)
  rw [hback] at hset
  exact hset.symm

def setRun (m : Bitmap) (b n : Nat) : Bitmap := fun i => m i || decide (b ≤ i ∧ i < b + n)

lemma setRun_zero (m : Bitmap) (b : Nat) : m.setRun b 0 = m := by
  funext i
  simp [setRun]

lemma setRun_one (m : Bitmap) (b : Nat) : m.setRun b 1 = m.write b true := by
  funext i
  rw [setRun, write_apply]
  split
  case isTrue h => simp [h]
  case isFalse h =>
    have hrun : ¬ (b ≤ i ∧ i < b + 1) := by omega
    rw [decide_eq_false hrun, Bool.or_false]

/-- Two runs in a row are one. -/
lemma setRun_setRun (m : Bitmap) (b n k : Nat) :
    (m.setRun b n).setRun (b + n) k = m.setRun b (n + k) := by
  funext i
  simp only [setRun, Bool.or_assoc, ← Bool.decide_or]
  congr 1
  apply decide_eq_decide.2
  omega

/-- A run of clear bits that is set takes its length off the count. -/
lemma zeros_setRun {b k : Nat} (hk : b + k ≤ n) (hclear : ∀ i, b ≤ i → i < b + k → m i = false) :
    (m.setRun b k).zeros n + k = m.zeros n := by
  induction k with
  | zero => rw [setRun_zero, Nat.add_zero]
  | succ k ih =>
    have ih := ih (by omega) fun i hb hi => hclear i hb (by omega)
    have hlast : m.setRun b k (b + k) = false := by
      have hrun : ¬ (b ≤ b + k ∧ b + k < b + k) := by omega
      rw [setRun, hclear (b + k) (by omega) (by omega), decide_eq_false hrun]
      rfl
    have hset := zeros_set (by omega : b + k < n) hlast
    rw [← setRun_one, setRun_setRun] at hset
    omega

/-- The first clear bit of the `n` bits from `start` on, or the end of them. -/
def firstZero (m : Bitmap) : Nat → Nat → Nat
  | start, 0 => start
  | start, n + 1 => if m start = false then start else firstZero m (start + 1) n

lemma firstZero_ge : start ≤ m.firstZero start n := by
  induction n generalizing start with
  | zero => exact Nat.le_refl _
  | succ n ih =>
    rw [firstZero]
    split
    · exact Nat.le_refl _
    · have h := @ih (start + 1)
      omega

lemma firstZero_clear (h : m.firstZero start n < start + n) : m (m.firstZero start n) = false := by
  induction n generalizing start with
  | zero => exact absurd h (Nat.lt_irrefl _)
  | succ n ih =>
    rw [firstZero] at h ⊢
    split
    case isTrue hm => exact hm
    case isFalse hm =>
      rw [if_neg hm] at h
      exact ih (by omega)

/-- All bits before the first zero are set. -/
lemma firstZero_set {j : Nat} (hj : start ≤ j) (h : j < m.firstZero start n) : m j := by
  induction n generalizing start with
  | zero =>
    simp only [firstZero] at h
    omega
  | succ n ih =>
    rw [firstZero] at h
    split at h
    case isTrue => omega
    case isFalse hm =>
      by_cases hjs : j = start
      · subst hjs
        simpa using hm
      · exact ih (by omega) h

end Bitmap

/-! ## Sums of counters -/

section Sums
variable {f : Nat → Nat} {g n : Nat}

/-- One term of a sum changes. -/
lemma sum_update_add (v : Nat) (hg : g < n) :
    ∑ i ∈ Finset.range n, update f g v i + f g = ∑ i ∈ Finset.range n, f i + v := by
  have hmem : g ∈ Finset.range n := Finset.mem_range.2 hg
  rw [Finset.sum_update_of_mem hmem, ← Finset.add_sum_erase _ f hmem,
    Finset.sdiff_singleton_eq_erase]
  omega

lemma le_sum_range (hg : g < n) : f g ≤ ∑ i ∈ Finset.range n, f i :=
  Finset.single_le_sum (fun _ _ => Nat.zero_le _) (Finset.mem_range.2 hg)

end Sums

end PsxLinux.Lib
