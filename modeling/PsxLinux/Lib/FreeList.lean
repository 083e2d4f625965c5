import Mathlib.Data.Finset.Card

/-!
# Free lists in an array of links

The free cells of an array are chained through an array of links, `link i` being the cell behind
cell `i` and `stop` the end. `FreeList link stop n first l` says that the chain from `first`
visits the cells `l`, all of them below `n` and none twice.
-/

namespace PsxLinux.Lib

open Function

/-- The chain of links from a cell visits these cells and ends at `stop`. -/
def Chain (link : ℕ → ℕ) (stop : ℕ) : ℕ → List ℕ → Prop
  | i, [] => i = stop
  | i, j :: l => i = j ∧ i ≠ stop ∧ Chain link stop (link i) l

/-- The free cells of an array of `n`. -/
structure FreeList (link : ℕ → ℕ) (stop n first : ℕ) (l : List ℕ) : Prop where
  chain : Chain link stop first l
  nodup : l.Nodup
  lt : ∀ i ∈ l, i < n

variable {link link' : ℕ → ℕ} {stop n first i j : ℕ} {l : List ℕ}

lemma Chain.congr (h : Chain link stop i l) (hlink : ∀ j ∈ l, link' j = link j) :
    Chain link' stop i l := by
  induction l generalizing i with
  | nil => exact h
  | cons j l ih =>
    obtain ⟨rfl, hne, h⟩ := h
    refine ⟨rfl, hne, ?_⟩
    rw [hlink i (by simp)]
    exact ih h fun k hk => hlink k (List.mem_cons_of_mem _ hk)

namespace FreeList

/-- The chain is at its end when no cell is free. -/
lemma eq_stop_iff (h : FreeList link stop n first l) : first = stop ↔ l = [] := by
  cases l with
  | nil => exact iff_of_true h.chain rfl
  | cons i l => simpa using h.chain.2.1

lemma pop (h : FreeList link stop n first (i :: l)) :
    first = i ∧ FreeList link stop n (link first) l := by
  obtain ⟨rfl, -, hchain⟩ := h.chain
  exact ⟨rfl, hchain, (List.nodup_cons.1 h.nodup).2, fun j hj => h.lt j (by simp [hj])⟩

lemma push (h : FreeList link stop n first l) (hi : i < n) (hstop : n ≤ stop) (hnot : i ∉ l) :
    FreeList (update link i first) stop n i (i :: l) := by
  refine ⟨⟨rfl, by omega, ?_⟩, List.nodup_cons.2 ⟨hnot, h.nodup⟩, ?_⟩
  · rw [update_self]
    exact h.chain.congr fun j hj => update_of_ne (ne_of_mem_of_not_mem hj hnot) _ _
  · simpa [hi] using h.lt

/-- With links to the next cell, and to the end from the last, all cells are free. -/
lemma init (hn : 0 < n) (hstop : n ≤ stop) (hlink : ∀ j, j + 1 < n → link j = j + 1)
    (hlast : link (n - 1) = stop) : FreeList link stop n 0 (List.range n) := by
  have hchain : ∀ k i, i + k = n → 0 < k → Chain link stop i (List.range' i k) := by
    intro k
    induction k with
    | zero => intro i _ hk; omega
    | succ k ih =>
      intro i hi _
      refine ⟨rfl, by omega, ?_⟩
      rcases Nat.eq_zero_or_pos k with rfl | hk
      · obtain rfl : i = n - 1 := by omega
        exact hlast
      · rw [hlink i (by omega)]
        exact ih (i + 1) (by omega) hk
  refine ⟨?_, List.nodup_range, fun i hi => List.mem_range.1 hi⟩
  rw [List.range_eq_range']
  exact hchain n 0 (by omega) hn

lemma length_lt (h : FreeList link stop n first l) (hi : i < n) (hnot : i ∉ l) : l.length < n := by
  have hsub : l.toFinset ⊂ Finset.range n := by
    rw [Finset.ssubset_iff_of_subset fun j hj => by simpa using h.lt j (by simpa using hj)]
    exact ⟨i, by simpa using hi, by simpa using hnot⟩
  have := Finset.card_lt_card hsub
  rwa [List.toFinset_card_of_nodup h.nodup, Finset.card_range] at this

end FreeList
end PsxLinux.Lib
