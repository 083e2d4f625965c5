import PsxLinux.Lib.TailQueue

/-!
# Doubly linked lists with a head pointer

Cells have a pointer to the next and to the previous cell, and the links of many lists are in the
same memory. A list is entered through a head pointer. `IsList next prev head l` says that the list
behind the head is `l` and that the pointers back agree.

`pushFront` puts a cell in front and `unlink` takes one out, wherever it is.
-/

namespace PsxLinux.Lib.HeadList

open Function List

variable {A : Type*}

section Operations
variable [DecidableEq A]

/-- The links once a cell stands in front of the list. -/
def pushFront (next prev : A → Option A) (head : Option A) (p : A) :
    (A → Option A) × (A → Option A) :=
  (update next p head,
    match head with
    | some h => update (update prev p none) h (some p)
    | none => update prev p none)

/-- The links and the head once a cell is taken out. -/
def unlink (next prev : A → Option A) (head : Option A) (p : A) :
    (A → Option A) × (A → Option A) × Option A :=
  let prev' := match next p with
    | some o => update prev o (prev p)
    | none => prev
  match prev p with
  | some y => (update next y (next p), prev', head)
  | none => (next, prev', next p)

end Operations

/-- The cell at the end of a list, or the one given if the list is empty. -/
def last : Option A → List A → Option A
  | o, [] => o
  | _, a :: l => last (some a) l

/-- Every cell points back to the one in front of it, and the first to the cell given. -/
def Back (prev : A → Option A) : Option A → List A → Prop
  | _, [] => True
  | o, a :: l => prev a = o ∧ Back prev (some a) l

/-- The list behind a head pointer. -/
structure IsList (next prev : A → Option A) (head : Option A) (l : List A) : Prop where
  chain : TailQueue.Chain next head l
  back : Back prev none l
  nodup : l.Nodup

variable {next prev next' prev' : A → Option A} {head o : Option A} {l l₁ l₂ : List A} {p : A}

lemma last_cases : l = [] ∧ last o l = o ∨ ∃ l₀ a, l = l₀ ++ [a] ∧ last o l = some a := by
  induction l generalizing o with
  | nil => exact .inl ⟨rfl, rfl⟩
  | cons a l ih =>
    rcases @ih (some a) with ⟨rfl, h⟩ | ⟨l₀, b, rfl, h⟩
    · exact .inr ⟨[], a, rfl, h⟩
    · exact .inr ⟨a :: l₀, b, rfl, h⟩

lemma Back.congr (h : Back prev o l) (hsame : ∀ a ∈ l, prev' a = prev a) : Back prev' o l := by
  induction l generalizing o with
  | nil => trivial
  | cons a l ih =>
    refine ⟨?_, ih h.2 fun b hb => hsame b (by simp [hb])⟩
    rw [hsame a (by simp)]
    exact h.1

lemma back_append : Back prev o (l₁ ++ l₂) ↔ Back prev o l₁ ∧ Back prev (last o l₁) l₂ := by
  induction l₁ generalizing o with
  | nil => simp [Back, last]
  | cons a l₁ ih => simp [Back, last, ih, and_assoc]

lemma IsList.congr (h : IsList next prev head l) (hnext : ∀ a ∈ l, next' a = next a)
    (hprev : ∀ a ∈ l, prev' a = prev a) : IsList next' prev' head l :=
  ⟨h.chain.congr hnext, h.back.congr hprev, h.nodup⟩

lemma isList_nil : IsList next prev none [] := ⟨rfl, trivial, nodup_nil⟩

lemma IsList.eq_nil (h : IsList next prev none l) : l = [] := by
  cases l with
  | nil => rfl
  | cons a l => cases h.chain.1

variable [DecidableEq A]

/-- **Putting in front.** -/
theorem IsList.pushFront (h : IsList next prev head l) (hp : p ∉ l) :
    IsList (pushFront next prev head p).1 (pushFront next prev head p).2 (some p) (p :: l) := by
  have hne : ∀ a ∈ l, a ≠ p := fun a ha => ne_of_mem_of_not_mem ha hp
  refine ⟨⟨rfl, ?_⟩, ?_, nodup_cons.2 ⟨hp, h.nodup⟩⟩
  · unfold HeadList.pushFront
    dsimp only
    rw [update_self]
    exact h.chain.congr fun a ha => update_of_ne (hne a ha) _ _
  · -- the old head, if there is one, points back to the new cell
    cases l with
    | nil =>
      obtain rfl : head = none := h.chain
      exact ⟨update_self .., trivial⟩
    | cons b l =>
      obtain rfl : head = some b := h.chain.1
      have hb : p ≠ b := Ne.symm (hne b (by simp))
      refine ⟨?_, ?_, ?_⟩
      · simp [HeadList.pushFront, hb]
      · simp [HeadList.pushFront]
      · refine h.back.2.congr fun a ha => ?_
        have hab : a ≠ b := ne_of_mem_of_not_mem ha (nodup_cons.1 h.nodup).1
        have hap : a ≠ p := hne a (by simp [ha])
        simp [HeadList.pushFront, hab, hap]

lemma pushFront_next_of_ne {a : A} (ha : a ≠ p) : (pushFront next prev head p).1 a = next a :=
  update_of_ne ha _ _

lemma pushFront_prev_of_not_mem {a : A} (h : TailQueue.Chain next head l) (ha : a ∉ l) (hap : a ≠ p) :
    (pushFront next prev head p).2 a = prev a := by
  cases l with
  | nil =>
    obtain rfl : head = none := h
    exact update_of_ne hap _ _
  | cons b l =>
    obtain rfl : head = some b := h.1
    have hab : a ≠ b := fun h => ha (by simp [h])
    simp [pushFront, hab, hap]

/-- **Taking out.** -/
theorem IsList.unlink (h : IsList next prev head (l₁ ++ p :: l₂)) :
    IsList (unlink next prev head p).1 (unlink next prev head p).2.1 (unlink next prev head p).2.2
      (l₁ ++ l₂) := by
  have hnodup := nodup_append.1 h.nodup
  have hsub : (l₁ ++ l₂).Sublist (l₁ ++ p :: l₂) := (sublist_cons_self p l₂).append_left l₁
  have hdrop := h.chain.drop
  obtain ⟨hback₁, hprev, hback₂⟩ := back_append.1 h.back
  have hsome : next p = l₂.head? := by
    cases l₂ with
    | nil => exact hdrop
    | cons b l₂ => exact hdrop.1
  -- the pointers back: only that of the cell behind changes
  have hback : Back (match next p with
      | some o => update prev o (prev p)
      | none => prev) none (l₁ ++ l₂) := by
    rw [hsome, hprev, back_append]
    cases l₂ with
    | nil => exact ⟨hback₁, trivial⟩
    | cons b l₂ =>
      have hb₁ : ∀ a ∈ l₁, a ≠ b := fun a ha => by
        rintro rfl
        exact hnodup.2.2 a ha a (by simp) rfl
      have hb₂ : ∀ a ∈ l₂, a ≠ b := fun a ha =>
        ne_of_mem_of_not_mem ha (nodup_cons.1 (nodup_cons.1 hnodup.2.1).2).1
      refine ⟨hback₁.congr fun a ha => update_of_ne (hb₁ a ha) _ _, update_self .., ?_⟩
      exact hback₂.2.congr fun a ha => update_of_ne (hb₂ a ha) _ _
  unfold HeadList.unlink
  dsimp only
  obtain ⟨rfl, hlast⟩ | ⟨l₀, y, rfl, hlast⟩ := @last_cases A none l₁
  · rw [hlast] at hprev
    rw [hprev] at hback ⊢
    exact ⟨hdrop, hback, h.nodup.sublist hsub⟩
  · rw [hlast] at hprev
    rw [hprev] at hback ⊢
    refine ⟨?_, hback, h.nodup.sublist hsub⟩
    have hy : y ∉ l₀ := fun hmem => (nodup_append.1 hnodup.1).2.2 y hmem y (by simp) rfl
    have hy₂ : y ∉ l₂ := fun hmem => hnodup.2.2 y (by simp) y (by simp [hmem]) rfl
    have hchain := h.chain
    rw [append_assoc] at hchain ⊢
    exact hchain.update hy hdrop hy₂

/-- Unlinking changes no link outside the list. -/
lemma unlink_of_not_mem {a : A} (h : IsList next prev head l) (hp : p ∈ l) (ha : a ∉ l) :
    (unlink next prev head p).1 a = next a ∧ (unlink next prev head p).2.1 a = prev a := by
  obtain ⟨l₁, l₂, rfl⟩ := append_of_mem hp
  have hdrop := h.chain.drop
  obtain ⟨-, hprev, -⟩ := back_append.1 h.back
  constructor
  · unfold unlink
    obtain ⟨-, hlast⟩ | ⟨l₀, y, rfl, hlast⟩ := @last_cases A none l₁
    · rw [hprev, hlast]
    · rw [hprev, hlast]
      have hay : a ≠ y := fun h => ha (by simp [h])
      exact update_of_ne hay _ _
  · have hback : (match next p with
        | some o => update prev o (prev p)
        | none => prev) a = prev a := by
      cases l₂ with
      | nil =>
        have hnone : next p = none := hdrop
        rw [hnone]
      | cons b l₂ =>
        have hab : a ≠ b := fun h => ha (by simp [h])
        rw [hdrop.1]
        exact update_of_ne hab _ _
    unfold unlink
    dsimp only
    split
    · exact hback
    · exact hback

end PsxLinux.Lib.HeadList
