import Mathlib.Data.List.Induction
import Mathlib.Data.List.Nodup

/-!
# Singly linked queues with a pointer to the last link

Cells are chained through their `next` fields, which many queues share. A queue has a head and a
pointer to its last link: the head itself while the queue is empty, else the `next` field of the
last cell. `IsQueue next q l` says that the queue `q` is the list of cells `l`.

`append` stores through the tail pointer. `find` walks the links to the first cell that passes a
test and returns the link that leads to it; `unlink` takes a cell out at that link and repairs the
tail; `removeAll` takes out every cell that passes; `walk` lists the cells. A walk has fuel: `none`
means that the chain did not end.
-/

namespace PsxLinux.Lib

open Function List

/-- A place that holds a pointer to a cell. -/
inductive Link (A : Type*)
  | head
  | next (a : A)
deriving DecidableEq, Repr

/-- The head of a queue and the pointer to its last link. -/
structure TailQueue (A : Type*) where
  head : Option A
  tail : Link A
deriving DecidableEq, Repr

namespace TailQueue

variable {A : Type*}

/-! ## Operations -/

def empty : TailQueue A := ⟨none, .head⟩

section Operations
variable [DecidableEq A]

/-- Store a pointer into a link. -/
def store (next : A → Option A) (q : TailQueue A) : Link A → Option A → (A → Option A) × TailQueue A
  | .head, v => (next, { q with head := v })
  | .next a, v => (update next a v, q)

/-- Put a cell behind the last one. -/
def append (next : A → Option A) (q : TailQueue A) (a : A) : (A → Option A) × TailQueue A :=
  let (next, q) := store (update next a none) q q.tail (some a)
  (next, { q with tail := .next a })

/-- Take a cell out at the link that leads to it. -/
def unlink (next : A → Option A) (q : TailQueue A) (pp : Link A) (a : A) :
    (A → Option A) × TailQueue A :=
  let (next', q) := store next q pp (next a)
  (next', if next a = none then { q with tail := pp } else q)

/-- Take out every cell that passes the test, from a link on whose content is given; the cells
taken out are returned. -/
def removeAll (p : A → Bool) : Nat → (A → Option A) → TailQueue A → Link A → Option A →
    Option ((A → Option A) × TailQueue A × List A)
  | 0, _, _, _, _ => none
  | _ + 1, next, q, _, none => some (next, q, [])
  | fuel + 1, next, q, pp, some a =>
    if p a then
      let (next', q') := unlink next q pp a
      (removeAll p fuel next' q' pp (next a)).map fun r => (r.1, r.2.1, a :: r.2.2)
    else removeAll p fuel next q (.next a) (next a)

end Operations

/-- The pointer in a link. -/
def load (next : A → Option A) (q : TailQueue A) : Link A → Option A
  | .head => q.head
  | .next a => next a

/-- The first cell that passes the test and the link to it, from a link on whose content is
given. -/
def find (p : A → Bool) (next : A → Option A) : Nat → Link A → Option A →
    Option (Option (Link A × A))
  | 0, _, _ => none
  | _ + 1, _, none => some none
  | fuel + 1, pp, some a => if p a then some (some (pp, a)) else find p next fuel (.next a) (next a)

/-- The cells of a chain. -/
def walk (next : A → Option A) : Nat → Option A → Option (List A)
  | 0, _ => none
  | _ + 1, none => some []
  | fuel + 1, some a => (walk next fuel (next a)).map (a :: ·)

/-! ## Queues as lists -/

/-- The chain from a pointer is this list and ends in the null pointer. -/
def Chain (next : A → Option A) : Option A → List A → Prop
  | o, [] => o = none
  | o, a :: l => o = some a ∧ Chain next (next a) l

/-- The link behind the cells of a list that starts at a link. -/
def lastLink : Link A → List A → Link A
  | pp, [] => pp
  | _, a :: l => lastLink (.next a) l

/-- The queue is this list of cells. -/
structure IsQueue (next : A → Option A) (q : TailQueue A) (l : List A) : Prop where
  chain : Chain next q.head l
  nodup : l.Nodup
  tail : q.tail = lastLink .head l

variable {next next' : A → Option A} {q : TailQueue A} {l l₁ l₂ : List A} {a c : A}
  {o b : Option A} {pp : Link A} {p : A → Bool}

lemma isQueue_empty : IsQueue next empty [] := ⟨rfl, nodup_nil, rfl⟩

@[simp] lemma lastLink_append : lastLink pp (l₁ ++ l₂) = lastLink (lastLink pp l₁) l₂ := by
  induction l₁ generalizing pp with
  | nil => rfl
  | cons a l₁ ih => exact ih

/-- The last link of a list is its first link or belongs to one of its cells. -/
lemma lastLink_cases : l = [] ∧ lastLink pp l = pp ∨
    ∃ l' a, l = l' ++ [a] ∧ lastLink pp l = .next a := by
  induction l using reverseRecOn with
  | nil => exact .inl ⟨rfl, rfl⟩
  | append_singleton l a => exact .inr ⟨l, a, rfl, by simp [lastLink]⟩

lemma Chain.congr (h : Chain next o l) (hsame : ∀ a ∈ l, next' a = next a) : Chain next' o l := by
  induction l generalizing o with
  | nil => exact h
  | cons a l ih =>
    refine ⟨h.1, ?_⟩
    rw [hsame a (by simp)]
    exact ih h.2 fun b hb => hsame b (by simp [hb])

lemma Chain.unique (h₁ : Chain next o l₁) (h₂ : Chain next o l₂) : l₁ = l₂ := by
  induction l₁ generalizing o l₂ with
  | nil =>
    obtain rfl : o = none := h₁
    cases l₂ with
    | nil => rfl
    | cons b l₂ => cases h₂.1
  | cons a l₁ ih =>
    obtain ⟨rfl, h₁⟩ := h₁
    cases l₂ with
    | nil => cases h₂
    | cons b l₂ =>
      obtain ⟨hab, h₂⟩ := h₂
      cases hab
      rw [ih h₁ h₂]

lemma IsQueue.congr (h : IsQueue next q l) (hsame : ∀ a ∈ l, next' a = next a) :
    IsQueue next' q l :=
  ⟨h.chain.congr hsame, h.nodup, h.tail⟩

/-- The null pointer that ends a chain is found in its last link. -/
lemma Chain.end_none (h : Chain next o (l ++ [a])) : next a = none := by
  induction l generalizing o with
  | nil => exact h.2
  | cons b l ih => exact ih h.2

lemma IsQueue.load_tail (h : IsQueue next q l) : q.load next q.tail = none := by
  rw [h.tail]
  obtain ⟨rfl, hlast⟩ | ⟨l', a, rfl, hlast⟩ := @lastLink_cases A l .head
  · exact h.chain
  · rw [hlast]
    exact h.chain.end_none

lemma Chain.drop (h : Chain next o (l₁ ++ a :: l₂)) : Chain next (next a) l₂ := by
  induction l₁ generalizing o with
  | nil => exact h.2
  | cons b l₁ ih => exact ih h.2

lemma walk_eq (h : Chain next o l) {fuel : Nat} (hfuel : l.length < fuel) :
    walk next fuel o = some l := by
  induction l generalizing o fuel with
  | nil =>
    obtain _ | fuel := fuel
    · omega
    obtain rfl : o = none := h
    rfl
  | cons a l ih =>
    obtain _ | fuel := fuel
    · omega
    obtain ⟨rfl, hchain⟩ := h
    rw [walk, ih hchain (Nat.lt_of_succ_lt_succ hfuel), Option.map_some]

/-- The first cell that passes is found, together with the link to it. -/
lemma find_eq (h : Chain next o l) {fuel : Nat} (hfuel : l.length < fuel) :
    find p next fuel pp o = some none ∧ (∀ a ∈ l, p a = false) ∨
    ∃ l₁ a l₂, l = l₁ ++ a :: l₂ ∧ (∀ b ∈ l₁, p b = false) ∧ p a ∧
      find p next fuel pp o = some (some (lastLink pp l₁, a)) := by
  induction l generalizing o fuel pp with
  | nil =>
    obtain _ | fuel := fuel
    · omega
    obtain rfl : o = none := h
    exact .inl ⟨rfl, by simp⟩
  | cons b l ih =>
    obtain _ | fuel := fuel
    · omega
    obtain ⟨rfl, hchain⟩ := h
    by_cases hb : p b
    · exact .inr ⟨[], b, l, rfl, by simp, hb, by rw [find, if_pos hb]; rfl⟩
    · rw [find, if_neg hb]
      rcases @ih _ (.next b) hchain fuel (Nat.lt_of_succ_lt_succ hfuel) with
        ⟨hfind, hall⟩ | ⟨l₁, a, l₂, rfl, hbefore, ha, hfind⟩
      · exact .inl ⟨hfind, by simpa [hb] using hall⟩
      · exact .inr ⟨b :: l₁, a, l₂, rfl, by simpa [hb] using hbefore, ha, hfind⟩

section Store
variable [DecidableEq A]

/-- A new pointer in the link of a cell replaces what follows the cell. -/
lemma Chain.update (h : Chain next o (l₁ ++ a :: l₂)) (ha₁ : a ∉ l₁)
    (hl : Chain next b l) (ha : a ∉ l) : Chain (update next a b) o (l₁ ++ a :: l) := by
  induction l₁ generalizing o with
  | nil =>
    refine ⟨h.1, ?_⟩
    rw [update_self]
    exact hl.congr fun c hc => update_of_ne (ne_of_mem_of_not_mem hc ha) _ _
  | cons c l₁ ih =>
    rw [mem_cons, not_or] at ha₁
    refine ⟨h.1, ?_⟩
    rw [update_of_ne (Ne.symm ha₁.1)]
    exact ih h.2 ha₁.2

/-- A pointer stored into the link behind a part of the list replaces what follows that part. -/
lemma Chain.store (h : Chain next q.head (l₁ ++ l₂)) (hnodup : l₁.Nodup)
    (hl : Chain next b l) (hfree : ∀ c ∈ l, c ∉ l₁) :
    Chain (store next q (lastLink .head l₁) b).1 (store next q (lastLink .head l₁) b).2.head
      (l₁ ++ l) := by
  obtain ⟨rfl, hlast⟩ | ⟨l₀, a, rfl, hlast⟩ := @lastLink_cases A l₁ .head
  · rw [hlast]
    exact hl
  · rw [hlast]
    rw [append_assoc] at h ⊢
    have ha : a ∉ l₀ := fun hmem =>
      (nodup_append.1 hnodup).2.2 a hmem a (by simp) rfl
    exact h.update ha hl fun hmem => hfree a hmem (by simp)

@[simp] lemma store_tail : (store next q pp b).2.tail = q.tail := by
  cases pp <;> rfl

/-- A store changes no link but the one it goes through. -/
lemma store_next_of_not_mem (hc : c ∉ l₁) : (store next q (lastLink .head l₁) b).1 c = next c := by
  obtain ⟨rfl, hlast⟩ | ⟨l₀, a, rfl, hlast⟩ := @lastLink_cases A l₁ .head
  · rfl
  · rw [hlast]
    have hca : c ≠ a := fun h => hc (by simp [h])
    exact update_of_ne hca _ _

/-! ## The operations on lists -/

lemma IsQueue.append (h : IsQueue next q l) (ha : a ∉ l) :
    IsQueue (q.append next a).1 (q.append next a).2 (l ++ [a]) := by
  have hfresh : Chain (update next a none) q.head (l ++ []) := by
    rw [append_nil]
    exact h.chain.congr fun b hb => update_of_ne (ne_of_mem_of_not_mem hb ha) _ _
  have hcell : Chain (update next a none) (some a) [a] :=
    ⟨rfl, by rw [update_self]; rfl⟩
  refine ⟨?_, ?_, ?_⟩
  · have hstore := hfresh.store h.nodup hcell (by simpa using ha)
    rw [← h.tail] at hstore
    exact hstore
  · rw [nodup_append]
    exact ⟨h.nodup, nodup_singleton a, by simpa using fun b hb => ne_of_mem_of_not_mem hb ha⟩
  · simp [TailQueue.append, lastLink]

lemma append_next_of_not_mem (h : IsQueue next q l) (hc : c ∉ l) (hca : c ≠ a) :
    (q.append next a).1 c = next c := by
  have hstore : (q.append next a).1 c = update next a none c := by
    unfold TailQueue.append
    rw [h.tail]
    exact store_next_of_not_mem hc
  rw [hstore, update_of_ne hca]

lemma IsQueue.unlink (h : IsQueue next q (l₁ ++ a :: l₂)) :
    IsQueue (q.unlink next (lastLink .head l₁) a).1 (q.unlink next (lastLink .head l₁) a).2
      (l₁ ++ l₂) := by
  have hnodup := nodup_append.1 h.nodup
  have hdrop := h.chain.drop
  have hchain := h.chain.store hnodup.1 hdrop fun c hc hmem =>
    hnodup.2.2 c hmem c (by simp [hc]) rfl
  have hsublist : (l₁ ++ l₂).Sublist (l₁ ++ a :: l₂) :=
    (sublist_cons_self a l₂).append_left l₁
  refine ⟨?_, h.nodup.sublist hsublist, ?_⟩
  · unfold TailQueue.unlink
    dsimp only
    split
    · exact hchain
    · exact hchain
  · unfold TailQueue.unlink
    dsimp only
    cases l₂ with
    | nil =>
      have hnone : next a = none := hdrop
      rw [if_pos hnone, append_nil]
    | cons b l₂ =>
      have hsome : next a = some b := hdrop.1
      rw [if_neg (by simp [hsome]), store_tail, h.tail]
      simp [lastLink]

lemma unlink_next_of_not_mem (hc : c ∉ l₁) : (q.unlink next (lastLink .head l₁) a).1 c = next c :=
  store_next_of_not_mem hc

/-- Every cell that passes is taken out, in order. -/
lemma IsQueue.removeAll (h : IsQueue next q (l₁ ++ l₂)) {fuel : Nat}
    (hfuel : l₂.length < fuel) (ho : Chain next o l₂) :
    ∃ next' q', removeAll p fuel next q (lastLink .head l₁) o = some (next', q', l₂.filter p) ∧
      IsQueue next' q' (l₁ ++ l₂.filter fun b => !p b) ∧
      ∀ c, c ∉ l₁ ++ l₂ → next' c = next c := by
  induction l₂ generalizing next q l₁ o fuel with
  | nil =>
    obtain _ | fuel := fuel
    · omega
    obtain rfl : o = none := ho
    exact ⟨next, q, rfl, h, fun _ _ => rfl⟩
  | cons a l₂ ih =>
    obtain _ | fuel := fuel
    · omega
    obtain ⟨rfl, hchain⟩ := ho
    have hfuel' : l₂.length < fuel := Nat.lt_of_succ_lt_succ hfuel
    by_cases ha : p a
    · -- the cell goes, and the walk stays at the same link
      have hout := h.unlink
      have hnodup := nodup_append.1 h.nodup
      have hrest : Chain (q.unlink next (lastLink .head l₁) a).1 (next a) l₂ := by
        refine hchain.congr fun c hc => unlink_next_of_not_mem fun hmem => ?_
        exact hnodup.2.2 c hmem c (by simp [hc]) rfl
      obtain ⟨next', q', hrun, hq', hframe⟩ := ih hout hfuel' hrest
      refine ⟨next', q', ?_, ?_, ?_⟩
      · rw [TailQueue.removeAll, if_pos ha]
        simp only [hrun, Option.map_some, filter_cons, ha, if_true]
      · simpa [ha] using hq'
      · intro c hc
        simp only [mem_append, mem_cons, not_or] at hc
        rw [hframe c (by simp [hc]), unlink_next_of_not_mem hc.1]
    · rw [TailQueue.removeAll, if_neg ha]
      rw [Bool.not_eq_true] at ha
      have hlink : Link.next a = lastLink .head (l₁ ++ [a]) := by simp [lastLink]
      have hmove : IsQueue next q ((l₁ ++ [a]) ++ l₂) := by simpa using h
      obtain ⟨next', q', hrun, hq', hframe⟩ := ih hmove hfuel' hchain
      refine ⟨next', q', ?_, ?_, ?_⟩
      · rw [hlink, hrun]
        simp [ha]
      · simpa [ha] using hq'
      · intro c hc
        exact hframe c (by simpa using hc)

end Store

end TailQueue
end PsxLinux.Lib
