import Mathlib.Data.Nat.ModEq

/-!
# Ring buffers

The contents of a ring of `N` places that start at one place and wrap around: `contents N buf start
len`. An element put into the place behind the contents extends them, an element taken from their
front shortens them, and one put into a full ring drops the oldest. A `slice` is a chunk of a plain
buffer, as `writeAt` stores it.
-/

namespace PsxLinux.Lib.RingBuffer

open Function List

variable {α : Type*}

/-- The elements from a place on, around the ring. -/
def contents (N : Nat) (buf : Nat → α) (start len : Nat) : List α :=
  (range len).map fun i => buf ((start + i) % N)

def slice (buf : Nat → α) (p k : Nat) : List α := (range k).map fun i => buf (p + i)

/-- Store elements from a place on, without wrapping. -/
def writeAt (buf : Nat → α) (p : Nat) (xs : List α) : Nat → α :=
  fun i => if p ≤ i then (xs[i - p]?).getD (buf i) else buf i

variable {N start len p k : Nat} {buf : Nat → α} {xs : List α}

@[simp] lemma length_contents : (contents N buf start len).length = len := by
  simp [contents]

@[simp] lemma length_slice : (slice buf p k).length = k := by
  simp [slice]

lemma contents_add :
    contents N buf start (len + k) = contents N buf start len ++ contents N buf (start + len) k := by
  unfold contents
  rw [range_add, map_append, map_map]
  simp only [comp_def, Nat.add_assoc]

lemma slice_add : slice buf p (len + k) = slice buf p len ++ slice buf (p + len) k := by
  unfold slice
  rw [range_add, map_append, map_map]
  simp only [comp_def, Nat.add_assoc]

lemma slice_append (xs : List α) {ys : List α} (h : slice buf p (xs ++ ys).length = xs ++ ys) :
    slice buf p xs.length = xs ∧ slice buf (p + xs.length) ys.length = ys := by
  rw [length_append, slice_add] at h
  exact append_inj h length_slice

lemma contents_mod : contents N buf (start % N) len = contents N buf start len := by
  unfold contents
  simp only [Nat.mod_add_mod]

variable {i : Nat}

lemma writeAt_of_ge (h : p + xs.length ≤ i) : writeAt buf p xs i = buf i := by
  unfold writeAt
  rw [if_pos (by omega), getElem?_eq_none (by omega), Option.getD_none]

lemma slice_writeAt : slice (writeAt buf p xs) p xs.length = xs := by
  unfold slice writeAt
  apply ext_getElem
  · simp
  · intro i hi hi'
    simp [hi']

/-- Places of the contents and places behind them differ. -/
lemma place_ne {j : Nat} (hi : i < len) (hj : len + j < N) :
    (start + i) % N ≠ (start + len + j) % N := by
  intro heq
  have hmod : start + i ≡ start + (len + j) [MOD N] := by
    rw [← Nat.add_assoc]
    exact heq
  have heq' := (Nat.ModEq.add_left_cancel' start hmod).eq_of_lt_of_lt (by omega) hj
  omega

/-! ### One element at a time -/

lemma take_contents (hk : k ≤ len) : (contents N buf start len).take k = contents N buf start k := by
  obtain ⟨m, rfl⟩ := Nat.exists_eq_add_of_le hk
  rw [contents_add, take_left' length_contents]

lemma getElem?_contents (hi : i < len) :
    (contents N buf start len)[i]? = some (buf ((start + i) % N)) := by
  simp [contents, hi]

lemma contents_succ (hstart : start < N) :
    contents N buf start (len + 1) = buf start :: contents N buf ((start + 1) % N) len := by
  rw [Nat.add_comm, contents_add]
  simp [contents, Nat.mod_eq_of_lt hstart]

/-- **Putting one element** into the place behind the contents. -/
theorem contents_update (h : len < N) (x : α) :
    contents N (update buf ((start + len) % N) x) start (len + 1) =
      contents N buf start len ++ [x] := by
  rw [contents_add]
  congr 1
  · refine map_congr_left fun i hi => ?_
    rw [mem_range] at hi
    apply update_of_ne
    exact @place_ne N start len i 0 hi h
  · simp [contents]

/-- Writing into the place just taken leaves the rest. -/
lemma contents_update_front (hstart : start < N) (h : len < N) (x : α) :
    contents N (update buf start x) ((start + 1) % N) len =
      contents N buf ((start + 1) % N) len := by
  rw [contents_mod, contents_mod]
  refine map_congr_left fun i hi => ?_
  rw [mem_range] at hi
  apply update_of_ne
  have hne := @place_ne N start 1 0 i Nat.one_pos (by omega)
  rw [Nat.add_zero, Nat.mod_eq_of_lt hstart] at hne
  exact hne.symm

/-- **Overwriting.** An element that goes into a full ring takes the place of the first one. -/
theorem contents_overwrite {m : Nat} (h : N = m + 1) (x : α) :
    contents N (update buf ((start + N) % N) x) (start + 1) N =
      (contents N buf start N).drop 1 ++ [x] := by
  have hplace : start + N = start + 1 + m := by omega
  have hold : contents N buf start N = contents N buf start 1 ++ contents N buf (start + 1) m := by
    rw [← contents_add, h, Nat.add_comm]
  have hnew : contents N (update buf ((start + N) % N) x) (start + 1) N =
      contents N (update buf ((start + 1 + m) % N) x) (start + 1) (m + 1) := by
    rw [hplace, ← h]
  rw [hnew, contents_update (by omega), hold, drop_left' length_contents]

end PsxLinux.Lib.RingBuffer
