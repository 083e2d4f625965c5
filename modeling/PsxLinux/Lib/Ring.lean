import Mathlib.Data.List.TakeDrop
import Mathlib.Data.List.TakeWhile
import Mathlib.Data.List.Nodup

/-!
# Rings in grade order

A circular doubly linked list with a list head, as the list of its entries from the head on. A
node is an entry (`some x`) or the head itself (`none`).

`Graded g l cursor` says that the entries stand in the order of a grade and that the cursor is
on the first entry of positive grade, or on the head. The lemmas say how it is kept when the
grade of one entry changes and the entry is moved to its new place.
-/

namespace PsxLinux.Lib.Ring

open List

variable {α : Type*} [DecidableEq α]

/-- The node behind a node. -/
def next (l : List α) : Option α → Option α
  | none => l.head?
  | some x => (l.dropWhile fun y => decide (y ≠ x)).tail.head?

/-- The node in front of a node. -/
def prev (l : List α) : Option α → Option α
  | none => l.getLast?
  | some x => (l.takeWhile fun y => decide (y ≠ x)).getLast?

/-- The entries once `x` is linked in front of a node. -/
def insertBefore (l : List α) (x : α) : Option α → List α
  | none => l ++ [x]
  | some y => (l.takeWhile fun z => decide (z ≠ y)) ++ x :: l.dropWhile fun z => decide (z ≠ y)

variable {l a b : List α} {x : α} {cursor : Option α}

/-! ## Nodes of a split ring -/

private lemma takeWhile_ne_append (hx : x ∉ a) :
    ((a ++ x :: b).takeWhile fun y => decide (y ≠ x)) = a := by
  rw [takeWhile_append_of_pos]
  · simp
  · intro y hy
    simpa using ne_of_mem_of_not_mem hy hx

private lemma dropWhile_ne_append (hx : x ∉ a) :
    ((a ++ x :: b).dropWhile fun y => decide (y ≠ x)) = x :: b := by
  rw [dropWhile_append_of_pos]
  · simp
  · intro y hy
    simpa using ne_of_mem_of_not_mem hy hx

lemma next_append_cons (hx : x ∉ a) : next (a ++ x :: b) (some x) = b.head? := by
  simp only [next, dropWhile_ne_append hx, tail_cons]

lemma next_append (h : (a ++ b).Nodup) : next (a ++ b) a.getLast? = b.head? := by
  rcases a.eq_nil_or_concat' with rfl | ⟨a, x, rfl⟩
  · rfl
  · rw [append_assoc] at h ⊢
    have hx : x ∉ a := fun hmem => (nodup_append.1 h).2.2 x hmem x (by simp) rfl
    simpa using next_append_cons hx

lemma prev_append (h : (a ++ b).Nodup) : prev (a ++ b) b.head? = a.getLast? := by
  cases b with
  | nil => simp [prev]
  | cons x b =>
    have hx : x ∉ a := fun hmem => (nodup_append.1 h).2.2 x hmem x (by simp) rfl
    simp only [head?_cons, prev, takeWhile_ne_append hx]

lemma insertBefore_append (h : (a ++ b).Nodup) : insertBefore (a ++ b) x b.head? = a ++ x :: b := by
  cases b with
  | nil => simp [insertBefore]
  | cons y b =>
    have hy : y ∉ a := fun hmem => (nodup_append.1 h).2.2 y hmem y (by simp) rfl
    simp only [head?_cons, insertBefore, takeWhile_ne_append hy, dropWhile_ne_append hy]

lemma mem_insertBefore (l : List α) (x y : α) (n : Option α) :
    y ∈ insertBefore l x n ↔ y = x ∨ y ∈ l := by
  cases n with
  | none => simp [insertBefore, or_comm]
  | some z =>
    have hsplit := takeWhile_append_dropWhile (p := fun y => decide (y ≠ z)) (l := l)
    rw [insertBefore, mem_append, mem_cons, or_left_comm, ← mem_append, hsplit]

lemma mem_of_next {n : Option α} (h : next l n = some x) : x ∈ l := by
  cases n with
  | none => exact mem_of_mem_head? h
  | some y =>
    have hmem := mem_of_mem_tail (mem_of_mem_head? h)
    exact (dropWhile_sublist _).subset hmem

lemma mem_insertBefore_erase (hx : x ∈ l) (y : α) (n : Option α) :
    y ∈ insertBefore (l.erase x) x n ↔ y ∈ l := by
  rw [mem_insertBefore]
  by_cases hy : y = x
  · simp [hy, hx]
  · simp [hy]

omit [DecidableEq α] in
lemma find?_congr {p q : α → Bool} (h : ∀ x ∈ l, p x = q x) : l.find? p = l.find? q := by
  induction l with
  | nil => rfl
  | cons y l ih =>
    rw [find?_cons, find?_cons, h y (by simp), ih fun x hx => h x (mem_cons_of_mem _ hx)]

/-! ## Grade order -/

/-- The entries stand in the order of their grade, and the cursor is on the first one of
positive grade. -/
structure Graded (g : α → ℕ) (l : List α) (cursor : Option α) : Prop where
  nodup : l.Nodup
  sorted : l.Pairwise fun x y => g x ≤ g y
  cursor : cursor = l.find? fun x => decide (0 < g x)

variable {g g' : α → ℕ}

omit [DecidableEq α] in
/-- A ring in grade order from its entries of grade zero and the others. -/
lemma Graded.of_split (hnodup : (a ++ b).Nodup) (ha : ∀ x ∈ a, g x = 0)
    (hb : ∀ x ∈ b, 0 < g x) (hsorted : b.Pairwise fun x y => g x ≤ g y) :
    Graded g (a ++ b) b.head? where
  nodup := hnodup
  sorted := by
    have hzero : ∀ x ∈ a, ∀ y, g x ≤ g y := fun x hx y => by
      rw [ha x hx]
      exact Nat.zero_le _
    refine pairwise_append.2 ⟨?_, hsorted, fun x hx y _ => hzero x hx y⟩
    exact pairwise_iff_forall_sublist.2 fun hsub => hzero _ (hsub.subset (by simp)) _
  cursor := by
    rw [find?_append, find?_eq_none.2 (by simpa using ha)]
    cases b with
    | nil => rfl
    | cons y b => simp [hb y (by simp)]

omit [DecidableEq α] in
/-- The entries of grade zero stand in front, the cursor on the rest. -/
lemma Graded.split (h : Graded g l cursor) :
    ∃ a b, l = a ++ b ∧ (∀ x ∈ a, g x = 0) ∧ (∀ x ∈ b, 0 < g x) ∧
      (b.Pairwise fun x y => g x ≤ g y) ∧ cursor = b.head? := by
  have hsplit := takeWhile_append_dropWhile (p := fun x => decide (g x = 0)) (l := l)
  have hfront : ∀ x ∈ l.takeWhile fun x => decide (g x = 0), g x = 0 := fun x hx => by
    simpa using mem_takeWhile_imp hx
  have hrest : ∀ x ∈ l.dropWhile fun x => decide (g x = 0), 0 < g x := by
    have hsorted := h.sorted
    rw [← hsplit] at hsorted
    intro x hx
    cases hd : l.dropWhile fun x => decide (g x = 0) with
    | nil => simp [hd] at hx
    | cons y ys =>
      have hy : g y ≠ 0 := by
        have := head_dropWhile_not (fun x => decide (g x = 0)) (l := l) (by simp [hd])
        simpa [hd] using this
      rw [hd] at hsorted hx
      have hle : g y ≤ g x := by
        rcases mem_cons.1 hx with rfl | hx
        · exact Nat.le_refl _
        · exact rel_of_pairwise_cons (pairwise_append.1 hsorted).2.1 hx
      omega
  have hsorted := (pairwise_append.1 (hsplit.symm ▸ h.sorted)).2.1
  refine ⟨_, _, hsplit.symm, hfront, hrest, hsorted, ?_⟩
  have hcursor := Graded.cursor (of_split (hsplit.symm ▸ h.nodup) hfront hrest hsorted)
  rw [h.cursor, hcursor, hsplit]

omit [DecidableEq α] in
lemma Graded.congr (h : Graded g l cursor) (hg : ∀ x ∈ l, g' x = g x) : Graded g' l cursor where
  nodup := h.nodup
  sorted := h.sorted.imp_of_mem fun hx hy hle => by rwa [hg _ hx, hg _ hy]
  cursor := by
    rw [h.cursor]
    exact find?_congr fun x hx => by rw [hg x hx]

/-! ## Changing the grade of one entry -/

/-- The entry under the cursor gets a lower grade: it stays, and the cursor leaves it when the
grade is zero. -/
lemma Graded.lower (h : Graded g l (some x)) (g' : α → ℕ) (hle : g' x ≤ g x)
    (hg : ∀ y, y ≠ x → g' y = g y) :
    Graded g' l (if g' x = 0 then next l (some x) else some x) := by
  obtain ⟨a, b, rfl, ha, hb, hsorted, hcursor⟩ := h.split
  obtain ⟨c, rfl⟩ : ∃ c, b = x :: c := head?_eq_some_iff.1 hcursor.symm
  have hnodup := h.nodup
  obtain ⟨-, hnodup', hdisj⟩ := nodup_append.1 hnodup
  have hxa : x ∉ a := fun hmem => hdisj x hmem x (by simp) rfl
  have hxc : x ∉ c := (nodup_cons.1 hnodup').1
  have hga : ∀ y ∈ a, g' y = 0 := fun y hy => by
    rw [hg y (ne_of_mem_of_not_mem hy hxa), ha y hy]
  have hgc : ∀ y ∈ c, g' y = g y := fun y hy => hg y (ne_of_mem_of_not_mem hy hxc)
  have hsorted' : c.Pairwise fun y z => g' y ≤ g' z :=
    (pairwise_cons.1 hsorted).2.imp_of_mem fun hy hz hle => by
      rwa [hgc _ hy, hgc _ hz]
  have hxle : ∀ y ∈ c, g x ≤ g y := (pairwise_cons.1 hsorted).1
  split_ifs with hzero
  · rw [next_append_cons hxa]
    rw [← singleton_append, ← append_assoc] at hnodup ⊢
    refine Graded.of_split hnodup ?_ ?_ hsorted'
    · simpa [hzero, or_imp, forall_and] using hga
    · intro y hy
      rw [hgc y hy]
      exact hb y (mem_cons_of_mem _ hy)
  · refine Graded.of_split hnodup hga ?_ (pairwise_cons.2 ⟨?_, hsorted'⟩)
    · intro y hy
      rcases mem_cons.1 hy with rfl | hy
      · exact Nat.pos_of_ne_zero hzero
      · rw [hgc y hy]
        exact hb y (mem_cons_of_mem _ hy)
    · intro y hy
      rw [hgc y hy]
      exact hle.trans (hxle y hy)

/-- An entry of grade zero gets a positive grade, the lowest in the ring: it is moved in front
of the cursor, unless it stands there, and the cursor on it. -/
lemma Graded.raise (h : Graded g l cursor) (g' : α → ℕ) (hx : x ∈ l) (hzero : g x = 0)
    (hpos : 0 < g' x) (hleast : ∀ y ∈ l, 0 < g y → g' x ≤ g y) (hg : ∀ y, y ≠ x → g' y = g y) :
    Graded g' (if next l (some x) = cursor then l else insertBefore (l.erase x) x cursor)
      (some x) := by
  obtain ⟨a, b, rfl, ha, hb, hsorted, rfl⟩ := h.split
  have hxb : x ∉ b := fun hmem => by
    have := hb x hmem
    omega
  have hxa : x ∈ a := (mem_append.1 hx).resolve_right hxb
  obtain ⟨a₁, a₂, rfl⟩ := append_of_mem hxa
  have hnodup := h.nodup
  have hx₁ : x ∉ a₁ := fun hmem =>
    (nodup_append.1 (nodup_append.1 hnodup).1).2.2 x hmem x (by simp) rfl
  -- both ways lead to the same ring
  have hring : (if next (a₁ ++ x :: a₂ ++ b) (some x) = b.head? then a₁ ++ x :: a₂ ++ b
      else insertBefore ((a₁ ++ x :: a₂ ++ b).erase x) x b.head?) = a₁ ++ a₂ ++ x :: b := by
    rw [append_assoc, cons_append, next_append_cons hx₁]
    have herase : (a₁ ++ x :: (a₂ ++ b)).erase x = a₁ ++ a₂ ++ b := by
      rw [erase_append_right _ hx₁, erase_cons_head, append_assoc]
    split_ifs with hnext
    · cases a₂ with
      | nil => simp
      | cons y a₂ =>
        have hy : y ∈ b := mem_of_mem_head? (by simpa using hnext.symm)
        have := ha y (by simp)
        have := hb y hy
        omega
    · rw [herase, insertBefore_append]
      rw [← herase]
      exact (by simpa using hnodup : (a₁ ++ x :: (a₂ ++ b)).Nodup).erase _
  have hperm : (a₁ ++ a₂ ++ x :: b).Perm (a₁ ++ x :: a₂ ++ b) := by
    simpa using perm_middle.trans (perm_middle.symm.append_right b)
  rw [hring]
  have hxa₂ : x ∉ a₁ ++ a₂ := fun hmem => by
    have := hperm.nodup_iff.2 hnodup
    exact (nodup_append.1 this).2.2 x hmem x (by simp) rfl
  refine Graded.of_split (hperm.nodup_iff.2 hnodup) ?_ ?_ (pairwise_cons.2 ⟨?_, ?_⟩)
  · intro y hy
    rw [hg y (ne_of_mem_of_not_mem hy hxa₂)]
    exact ha y (by simp at hy ⊢; tauto)
  · intro y hy
    rcases mem_cons.1 hy with rfl | hy
    · exact hpos
    · rw [hg y (ne_of_mem_of_not_mem hy hxb)]
      exact hb y hy
  · intro y hy
    rw [hg y (ne_of_mem_of_not_mem hy hxb)]
    exact hleast y (by simp [hy]) (hb y hy)
  · refine hsorted.imp_of_mem fun hy hz hle => ?_
    rwa [hg _ (ne_of_mem_of_not_mem hy hxb), hg _ (ne_of_mem_of_not_mem hz hxb)]

/-- An entry of positive grade gets the highest grade: it is moved to the end, and a cursor that
was on it goes to the node now standing where it stood. -/
lemma Graded.retire (h : Graded g l cursor) (g' : α → ℕ) (hx : x ∈ l) (hpos : 0 < g x)
    (hmost : ∀ y ∈ l, g y ≤ g' x) (hg : ∀ y, y ≠ x → g' y = g y) :
    Graded g' (l.erase x ++ [x])
      (if cursor = some x then next (l.erase x ++ [x]) (prev l cursor) else cursor) := by
  obtain ⟨a, b, rfl, ha, hb, hsorted, rfl⟩ := h.split
  have hnodup := h.nodup
  have hxa : x ∉ a := fun hmem => by
    have := ha x hmem
    omega
  have hxb : x ∈ b := (mem_append.1 hx).resolve_left hxa
  have hxb' : x ∉ b.erase x := (nodup_append.1 hnodup).2.1.not_mem_erase
  have hring : (a ++ b).erase x ++ [x] = a ++ (b.erase x ++ [x]) := by
    rw [erase_append_right _ hxa, append_assoc]
  have hnodup' : (a ++ (b.erase x ++ [x])).Nodup := by
    rw [← append_assoc, ← erase_append_right _ hxa]
    have hperm : ((a ++ b).erase x ++ [x]).Perm (a ++ b) :=
      (perm_append_singleton x _).trans (perm_cons_erase hx).symm
    exact hperm.nodup_iff.2 hnodup
  have hcursor : (if b.head? = some x then next ((a ++ b).erase x ++ [x]) (prev (a ++ b) b.head?)
      else b.head?) = (b.erase x ++ [x]).head? := by
    rw [hring, prev_append hnodup, next_append hnodup']
    cases b with
    | nil => simp at hxb
    | cons y b =>
      by_cases hyx : y = x
      · simp [hyx]
      · simp [hyx]
  have hgb : ∀ y ∈ b.erase x, g' y = g y := fun y hy => hg y (ne_of_mem_of_not_mem hy hxb')
  rw [hcursor, hring]
  refine Graded.of_split hnodup' ?_ ?_ (pairwise_append.2 ⟨?_, by simp, ?_⟩)
  · intro y hy
    rw [hg y (ne_of_mem_of_not_mem hy hxa)]
    exact ha y hy
  · intro y hy
    rcases mem_append.1 hy with hy | hy
    · rw [hgb y hy]
      exact hb y (mem_of_mem_erase hy)
    · rw [mem_singleton.1 hy]
      exact hpos.trans_le (hmost x hx)
  · refine (hsorted.sublist erase_sublist).imp_of_mem fun hy hz hle => ?_
    rwa [hgb _ hy, hgb _ hz]
  · intro y hy z hz
    rw [hgb y hy, mem_singleton.1 hz]
    exact hmost y (mem_append_right _ (mem_of_mem_erase hy))

omit [DecidableEq α] in
lemma Graded.push (h : Graded g l cursor) (hx : x ∉ l) (hpos : 0 < g x)
    (hmost : ∀ y ∈ l, g y ≤ g x) :
    Graded g (l ++ [x]) (if cursor = none then some x else cursor) := by
  obtain ⟨a, b, rfl, ha, hb, hsorted, rfl⟩ := h.split
  have hcursor : (if b.head? = none then some x else b.head?) = (b ++ [x]).head? := by
    cases b <;> simp
  rw [hcursor, append_assoc]
  refine Graded.of_split ?_ ha ?_ (pairwise_append.2 ⟨hsorted, by simp, ?_⟩)
  · rw [← append_assoc]
    exact nodup_append.2 ⟨h.nodup, by simp, fun y hy z hz => by
      rw [mem_singleton.1 hz]
      exact ne_of_mem_of_not_mem hy hx⟩
  · intro y hy
    rcases mem_append.1 hy with hy | hy
    · exact hb y hy
    · rwa [mem_singleton.1 hy]
  · intro y hy z hz
    rw [mem_singleton.1 hz]
    exact hmost y (mem_append_right _ hy)

lemma Graded.pop (h : Graded g l cursor) (hlast : l.getLast? = some x) :
    Graded g (l.erase x) (if cursor = some x then none else cursor) := by
  obtain ⟨l, rfl⟩ : ∃ l', l = l' ++ [x] := getLast?_eq_some_iff.1 hlast
  have hx : x ∉ l := fun hmem => (nodup_append.1 h.nodup).2.2 x hmem x (by simp) rfl
  have herase : (l ++ [x]).erase x = l := by
    rw [erase_append_right _ hx]
    simp
  rw [herase]
  refine ⟨(nodup_append.1 h.nodup).1, (pairwise_append.1 h.sorted).1, ?_⟩
  have hcursor := h.cursor
  rw [find?_append] at hcursor
  cases hfind : l.find? fun y => decide (0 < g y) with
  | none =>
    rw [hfind] at hcursor
    simp [hcursor]
  | some y =>
    have hy : y ≠ x := ne_of_mem_of_not_mem (mem_of_find?_eq_some hfind) hx
    rw [hfind] at hcursor
    simp [hcursor, hy]

end PsxLinux.Lib.Ring
