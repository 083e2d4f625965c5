import Mathlib.Algebra.Order.BigOperators.Group.Finset
import Mathlib.Tactic.Abel

/-!
# Tallies

A tally adds up a weight over the members of a finite family. Changing one member changes the tally
by the difference of its weights; the statements are additive, so that they hold in `ℕ`.
-/

namespace PsxLinux.Lib

open Function Finset

variable {ι α M : Type*} [Fintype ι]

/-- The weight `w` added up over the family `f`. -/
def tally [AddCommMonoid M] (w : α → M) (f : ι → α) : M := ∑ i, w (f i)

section Update
variable [DecidableEq ι] [AddCommMonoid M] {w : α → M} {f : ι → α} {i : ι} {v : α}

/-- One value changes. -/
lemma tally_update : tally w (update f i v) + w (f i) = tally w f + w v := by
  have hrest : ∑ j ∈ Finset.univ.erase i, w (update f i v j) =
      ∑ j ∈ Finset.univ.erase i, w (f j) := by
    apply sum_congr rfl
    intro j hj
    rw [update_of_ne (ne_of_mem_erase hj)]
  unfold tally
  rw [← add_sum_erase _ _ (mem_univ i), ← add_sum_erase _ _ (mem_univ i), hrest, update_self]
  abel

end Update

lemma tally_congr [AddCommMonoid M] {w : α → M} {f g : ι → α} (h : ∀ i, w (f i) = w (g i)) :
    tally w f = tally w g :=
  sum_congr rfl fun i _ => h i

lemma tally_eq_zero [AddCommMonoid M] {w : α → M} {f : ι → α} (h : ∀ i, w (f i) = 0) :
    tally w f = 0 :=
  sum_eq_zero fun i _ => h i

lemma le_tally {w : α → ℕ} {f : ι → α} (i : ι) : w (f i) ≤ tally w f :=
  single_le_sum (f := fun j => w (f j)) (fun _ _ => Nat.zero_le _) (mem_univ i)

lemma one_le_tally {p : α → Bool} {f : ι → α} {i : ι} (h : p (f i)) :
    1 ≤ tally (fun a => (p a).toNat) f := by
  simpa [h] using le_tally (w := fun a => (p a).toNat) (f := f) i

/-- Two places count twice. -/
lemma add_le_tally [DecidableEq ι] {w : α → ℕ} {f : ι → α} {i j : ι} (h : i ≠ j) :
    w (f i) + w (f j) ≤ tally w f :=
  calc w (f i) + w (f j) = ∑ l ∈ {i, j}, w (f l) := (sum_pair (f := fun l => w (f l)) h).symm
    _ ≤ tally w f := sum_le_sum_of_subset (subset_univ _)

lemma tally_mono {w w' : α → ℕ} {f g : ι → α} (h : ∀ i, w (f i) ≤ w' (g i)) :
    tally w f ≤ tally w' g :=
  sum_le_sum fun i _ => h i

/-- At most one for each place. -/
lemma tally_le_card {w : α → ℕ} {f : ι → α} (h : ∀ i, w (f i) ≤ 1) :
    tally w f ≤ Fintype.card ι := by
  calc tally w f ≤ ∑ _i : ι, 1 := sum_le_sum fun i _ => h i
    _ = Fintype.card ι := by simp

/-- A count that is not zero has a reason. -/
lemma exists_of_tally_pos {w : α → ℕ} {f : ι → α} (h : 0 < tally w f) : ∃ i, 0 < w (f i) := by
  by_contra hno
  rw [tally_eq_zero fun i => Nat.eq_zero_of_not_pos fun hpos => hno ⟨i, hpos⟩] at h
  exact lt_irrefl 0 h

end PsxLinux.Lib
