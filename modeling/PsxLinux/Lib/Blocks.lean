import PsxLinux.Lib.Bits
import Mathlib.Algebra.BigOperators.Ring.Finset
import Mathlib.Order.Interval.Finset.Nat

/-!
# Tilings by aligned blocks of power-of-two size

A block of order `k` is `2 ^ k` numbers that start at a multiple of `2 ^ k`. `Tiles n bs` says
that every number below `n`, and no other, lies in exactly one block of the list; the list is
used up to permutation. A block may be split into its halves and two halves joined
(`Tiles.split`, `Tiles.join`).

`blocksOf free K` are the blocks of a family of lists, one for each order, and `pairBit` is
the parity of the two halves of a pair on such a list, the one bit that a buddy system keeps
for them.
-/

namespace PsxLinux.Lib

open Function List

structure Block where
  start : ℕ
  order : ℕ
deriving DecidableEq

namespace Block

def has (b : Block) (x : ℕ) : Bool := decide (b.start ≤ x ∧ x < b.start + 2 ^ b.order)

def Aligned (b : Block) : Prop := 2 ^ b.order ∣ b.start

def Apart (b c : Block) : Prop := ∀ x, ¬ (b.has x ∧ c.has x)

lemma has_start (b : Block) : b.has b.start := by
  have : 0 < 2 ^ b.order := Nat.two_pow_pos _
  simp [has, this]

end Block

/-- The blocks cover every number below `n` once, and no other. -/
structure Tiles (n : ℕ) (bs : List Block) : Prop where
  aligned : ∀ b ∈ bs, b.Aligned
  once : ∀ x, bs.countP (fun b => b.has x) = if x < n then 1 else 0

variable {x : ℕ}

namespace Tiles

variable {n : ℕ} {bs cs : List Block} {b c : Block}

lemma perm (h : Tiles n bs) (hp : bs.Perm cs) : Tiles n cs where
  aligned := fun b hb => h.aligned b (hp.mem_iff.mpr hb)
  once := fun x => by rw [← hp.countP_eq]; exact h.once x

lemma lt_of_has (h : Tiles n bs) (hb : b ∈ bs) (hx : b.has x) : x < n := by
  by_contra hge
  have hzero := h.once x
  rw [if_neg hge, countP_eq_zero] at hzero
  exact hzero b hb hx

lemma inside (h : Tiles n bs) (hb : b ∈ bs) : b.start + 2 ^ b.order ≤ n := by
  have hpos : 0 < 2 ^ b.order := Nat.two_pow_pos _
  have hlast : b.has (b.start + 2 ^ b.order - 1) := by
    simp only [Block.has, decide_eq_true_eq]
    omega
  have := h.lt_of_has hb hlast
  omega

lemma covered (h : Tiles n bs) (hx : x < n) : ∃ b ∈ bs, b.has x := by
  have hone := h.once x
  rw [if_pos hx] at hone
  exact countP_pos_iff.mp (by omega)

/-- The first block has nothing in common with the others. -/
lemma apart (h : Tiles n (b :: bs)) (hc : c ∈ bs) : b.Apart c := by
  rintro x ⟨hb, hcx⟩
  have hone := h.once x
  rw [countP_cons, if_pos hb] at hone
  have hpos : 0 < bs.countP (fun b => b.has x) := countP_pos_iff.mpr ⟨c, hc, hcx⟩
  have hle : (if x < n then 1 else 0) ≤ 1 := by split_ifs <;> omega
  omega

lemma pairwise (h : Tiles n bs) : bs.Pairwise Block.Apart := by
  have hle : ∀ x, bs.countP (fun b => b.has x) ≤ 1 := by
    intro x
    rw [h.once]
    split_ifs <;> omega
  clear h
  induction bs with
  | nil => exact Pairwise.nil
  | cons b bs ih =>
    refine Pairwise.cons ?_ (ih fun x => ?_)
    · rintro c hc x ⟨hb, hcx⟩
      have hone := hle x
      rw [countP_cons, if_pos hb] at hone
      have hpos : 0 < bs.countP (fun b => b.has x) := countP_pos_iff.mpr ⟨c, hc, hcx⟩
      omega
    · have hone := hle x
      rw [countP_cons] at hone
      omega

lemma eq_of_has (h : Tiles n bs) (hb : b ∈ bs) (hc : c ∈ bs) (hbx : b.has x)
    (hcx : c.has x) : b = c := by
  by_contra hne
  have hsymm : Std.Symm Block.Apart := ⟨fun _ _ hapart x hx => hapart x hx.symm⟩
  exact h.pairwise.forall hb hc hne x ⟨hbx, hcx⟩

/-- A number is in a block exactly when it is in one of its halves. -/
lemma countP_halves (s k x : ℕ) :
    [(⟨s, k + 1⟩ : Block)].countP (fun b => b.has x) =
      [(⟨s, k⟩ : Block), ⟨s + 2 ^ k, k⟩].countP (fun b => b.has x) := by
  simp only [countP_cons, Block.has, decide_eq_true_eq]
  by_cases h₁ : s ≤ x ∧ x < s + 2 ^ k
  · rw [if_pos h₁, if_pos (by omega), if_neg (by omega)]
  · by_cases h₂ : s + 2 ^ k ≤ x ∧ x < s + 2 ^ k + 2 ^ k
    · rw [if_neg h₁, if_pos (by omega), if_pos h₂]
    · rw [if_neg h₁, if_neg (by omega), if_neg h₂]

lemma split {s k : ℕ} (h : Tiles n (⟨s, k + 1⟩ :: bs)) :
    Tiles n (⟨s, k⟩ :: ⟨s + 2 ^ k, k⟩ :: bs) := by
  have hs : 2 ^ (k + 1) ∣ s := h.aligned _ mem_cons_self
  have hk : 2 ^ k ∣ s := (Nat.pow_dvd_pow 2 (Nat.le_succ k)).trans hs
  refine ⟨?_, fun x => ?_⟩
  · intro c hc
    rcases mem_cons.mp hc with rfl | hc
    · exact hk
    · rcases mem_cons.mp hc with rfl | hc
      · exact (Nat.dvd_add_right hk).mpr (dvd_refl _)
      · exact h.aligned c (mem_cons_of_mem _ hc)
  · rw [← h.once x]
    have := countP_halves s k x
    simp only [countP_cons] at this ⊢
    omega

lemma join {s k : ℕ} (hs : 2 ^ (k + 1) ∣ s) (h : Tiles n (⟨s, k⟩ :: ⟨s + 2 ^ k, k⟩ :: bs)) :
    Tiles n (⟨s, k + 1⟩ :: bs) := by
  refine ⟨?_, fun x => ?_⟩
  · intro c hc
    rcases mem_cons.mp hc with rfl | hc
    · exact hs
    · exact h.aligned c (mem_cons_of_mem _ (mem_cons_of_mem _ hc))
  · rw [← h.once x]
    have := countP_halves s k x
    simp only [countP_cons] at this ⊢
    omega

end Tiles

/-! ## A list for each order -/

/-- The blocks of the lists of order below `K`. -/
def blocksOf (free : ℕ → List ℕ) (K : ℕ) : List Block :=
  (range K).flatMap fun k => (free k).map fun p => ⟨p, k⟩

lemma mem_blocksOf {free : ℕ → List ℕ} {K : ℕ} {b : Block} :
    b ∈ blocksOf free K ↔ b.order < K ∧ b.start ∈ free b.order := by
  simp only [blocksOf, mem_flatMap, mem_range, mem_map]
  constructor
  · rintro ⟨k, hk, p, hp, rfl⟩
    exact ⟨hk, hp⟩
  · rintro ⟨hk, hp⟩
    exact ⟨b.order, hk, b.start, hp, rfl⟩

lemma blocksOf_succ (free : ℕ → List ℕ) (K : ℕ) :
    blocksOf free (K + 1) = blocksOf free K ++ (free K).map fun p => ⟨p, K⟩ := by
  simp [blocksOf, range_succ]

lemma blocksOf_congr {free free' : ℕ → List ℕ} {K : ℕ} (h : ∀ k < K, (free k).Perm (free' k)) :
    (blocksOf free K).Perm (blocksOf free' K) := by
  induction K with
  | zero => exact Perm.refl _
  | succ K ih =>
    rw [blocksOf_succ, blocksOf_succ]
    exact (ih fun k hk => h k (by omega)).append ((h K (by omega)).map _)

lemma blocksOf_push (free : ℕ → List ℕ) {K k : ℕ} (hk : k < K) (p : ℕ) :
    (blocksOf (update free k (p :: free k)) K).Perm (⟨p, k⟩ :: blocksOf free K) := by
  induction K with
  | zero => omega
  | succ K ih =>
    rw [blocksOf_succ, blocksOf_succ]
    by_cases hkK : k = K
    · subst hkK
      rw [update_self]
      have hsame : (blocksOf (update free k (p :: free k)) k).Perm (blocksOf free k) :=
        blocksOf_congr fun j hj => by rw [update_of_ne (by omega)]
      exact (hsame.append_right _).trans perm_middle
    · rw [update_of_ne (Ne.symm hkK)]
      exact (ih (by omega)).append_right _

lemma blocksOf_erase (free : ℕ → List ℕ) {K k p : ℕ} (hk : k < K) (hp : p ∈ free k) :
    (blocksOf free K).Perm (⟨p, k⟩ :: blocksOf (update free k ((free k).erase p)) K) := by
  have hpush := blocksOf_push (update free k ((free k).erase p)) hk p
  rw [update_idem, update_self] at hpush
  refine Perm.trans (blocksOf_congr fun j _ => ?_) hpush
  by_cases hj : j = k
  · subst hj
    rw [update_self]
    exact perm_cons_erase hp
  · rw [update_of_ne hj]

def weight (bs : List Block) : ℕ := (bs.map fun b => 2 ^ b.order).sum

lemma weight_cons (b : Block) (bs : List Block) : weight (b :: bs) = 2 ^ b.order + weight bs := by
  simp [weight]

lemma weight_append (bs cs : List Block) : weight (bs ++ cs) = weight bs + weight cs := by
  simp [weight]

lemma weight_perm {bs cs : List Block} (h : bs.Perm cs) : weight bs = weight cs :=
  (h.map _).sum_eq

lemma weight_blocksOf (free : ℕ → List ℕ) (K : ℕ) :
    weight (blocksOf free K) = ∑ k ∈ Finset.range K, 2 ^ k * (free k).length := by
  induction K with
  | zero => rfl
  | succ K ih =>
    rw [blocksOf_succ, weight_append, ih, Finset.sum_range_succ]
    simp [weight, comp_def, Nat.mul_comm]

lemma Block.sum_has {b : Block} {n : ℕ} (h : b.start + 2 ^ b.order ≤ n) :
    (∑ x ∈ Finset.range n, if b.has x then 1 else 0) = 2 ^ b.order := by
  have hset : ((Finset.range n).filter fun x => b.has x) =
      Finset.Ico b.start (b.start + 2 ^ b.order) := by
    ext x
    simp only [Finset.mem_filter, Finset.mem_range, Finset.mem_Ico, Block.has, decide_eq_true_eq]
    omega
  rw [← Finset.card_filter, hset, Nat.card_Ico, Nat.add_sub_cancel_left]

/-- Counting block by block or number by number comes to the same. -/
lemma sum_countP_has {bs : List Block} {n : ℕ} (h : ∀ b ∈ bs, b.start + 2 ^ b.order ≤ n) :
    (∑ x ∈ Finset.range n, bs.countP fun b => b.has x) = weight bs := by
  induction bs with
  | nil => simp [weight]
  | cons b bs ih =>
    have hb := Block.sum_has (h b mem_cons_self)
    have hbs := ih fun c hc => h c (mem_cons_of_mem _ hc)
    simp only [countP_cons, Finset.sum_add_distrib, weight_cons]
    omega

lemma Tiles.weight_eq {n : ℕ} {bs : List Block} (h : Tiles n bs) : weight bs = n := by
  rw [← sum_countP_has fun b hb => h.inside hb]
  have hone : ∀ x ∈ Finset.range n, (bs.countP fun b => b.has x) = 1 := by
    intro x hx
    rw [h.once, if_pos (Finset.mem_range.mp hx)]
  rw [Finset.sum_congr rfl hone]
  simp

/-! ## One bit for each pair -/

/-- Exactly one of the two halves of pair `i` is on the list of order `k`. -/
def pairBit (free : ℕ → List ℕ) (k i : ℕ) : Bool :=
  xor (decide (2 * i * 2 ^ k ∈ free k)) (decide ((2 * i + 1) * 2 ^ k ∈ free k))

/-- A multiple of `2 ^ k` is one of the halves of its pair, its buddy the other. -/
lemma halves {p k : ℕ} (h : 2 ^ k ∣ p) :
    (p = 2 * (p / 2 ^ (k + 1)) * 2 ^ k ∧ buddy p k = (2 * (p / 2 ^ (k + 1)) + 1) * 2 ^ k) ∨
    (p = (2 * (p / 2 ^ (k + 1)) + 1) * 2 ^ k ∧ buddy p k = 2 * (p / 2 ^ (k + 1)) * 2 ^ k) := by
  obtain ⟨q, rfl⟩ := h
  have hpos : 0 < 2 ^ k := Nat.two_pow_pos k
  have hdiv : 2 ^ k * q / 2 ^ (k + 1) = q / 2 := by
    rw [Nat.pow_succ, ← Nat.div_div_eq_div_mul, Nat.mul_div_cancel_left _ hpos]
  rw [hdiv, buddy, Nat.mul_div_cancel_left _ hpos]
  by_cases hev : q % 2 = 0
  · left
    have hq' : q = 2 * (q / 2) := by omega
    rw [if_pos hev]
    constructor
    · rw [← hq', Nat.mul_comm]
    · rw [← hq', Nat.add_mul, Nat.one_mul, Nat.mul_comm]
  · right
    have hq' : q = 2 * (q / 2) + 1 := by omega
    rw [if_neg hev]
    constructor
    · rw [← hq', Nat.mul_comm]
    · have hsub : 2 ^ k * q - 2 ^ k = 2 ^ k * (2 * (q / 2)) := by
        rw [hq', Nat.mul_add, Nat.mul_one, Nat.add_sub_cancel, ← hq']
      rw [hsub, Nat.mul_comm]

lemma buddy_of_dvd {p k : ℕ} (h : 2 ^ (k + 1) ∣ p) : buddy p k = p + 2 ^ k := by
  obtain ⟨i, rfl⟩ := h
  have hdiv : 2 ^ (k + 1) * i / 2 ^ k = 2 * i := by
    rw [Nat.pow_succ, Nat.mul_assoc, Nat.mul_div_cancel_left _ (Nat.two_pow_pos k)]
  rw [buddy, hdiv, if_pos (Nat.mul_mod_right 2 i)]

lemma half_div {c : ℕ} (hc : c < 2) (i k : ℕ) : (2 * i + c) * 2 ^ k / 2 ^ (k + 1) = i := by
  rw [Nat.pow_succ, ← Nat.div_div_eq_div_mul, Nat.mul_div_cancel _ (Nat.two_pow_pos k)]
  omega

lemma buddy_div {p k : ℕ} (h : 2 ^ k ∣ p) : buddy p k / 2 ^ (k + 1) = p / 2 ^ (k + 1) := by
  rcases halves h with ⟨-, h₂⟩ | ⟨-, h₂⟩
  · rw [h₂]
    exact half_div (by omega) _ _
  · rw [h₂]
    exact half_div (by omega : 0 < 2) _ _

/-- With the one half off the list, the bit says whether its buddy is on it. -/
lemma pairBit_of_not_mem {free : ℕ → List ℕ} {p k : ℕ} (h : 2 ^ k ∣ p) (hp : p ∉ free k) :
    pairBit free k (p / 2 ^ (k + 1)) = decide (buddy p k ∈ free k) := by
  unfold pairBit
  rcases halves h with ⟨h₁, h₂⟩ | ⟨h₁, h₂⟩
  · rw [← h₁, ← h₂, decide_eq_false hp, Bool.false_xor]
  · rw [← h₁, ← h₂, decide_eq_false hp, Bool.xor_false]

/-- Putting a block on its list, or taking it off, flips the bit of its pair and no other. -/
lemma pairBit_flip {free free' : ℕ → List ℕ} {p k : ℕ} (h : 2 ^ k ∣ p)
    (hp : p ∈ free' k ↔ p ∉ free k) (hother : ∀ r, r ≠ p → (r ∈ free' k ↔ r ∈ free k)) (i : ℕ) :
    pairBit free' k i =
      if i = p / 2 ^ (k + 1) then !pairBit free k i else pairBit free k i := by
  unfold pairBit
  split_ifs with hi
  · rw [hi]
    rcases halves h with ⟨h₁, -⟩ | ⟨h₁, -⟩
    · have hne : (2 * (p / 2 ^ (k + 1)) + 1) * 2 ^ k ≠ p := by
        rw [Nat.add_mul]; omega
      rw [← h₁]
      simp only [hother _ hne, hp]
      by_cases hm : p ∈ free k <;> simp
    · have hne : 2 * (p / 2 ^ (k + 1)) * 2 ^ k ≠ p := by
        intro he
        rw [Nat.add_mul] at h₁
        omega
      rw [← h₁]
      simp only [hother _ hne, hp]
      by_cases hm : p ∈ free k <;> simp
  · have hne : ∀ c < 2, (2 * i + c) * 2 ^ k ≠ p := by
      rintro c hc rfl
      exact hi (half_div hc i k).symm
    have h0 := hne 0 (by omega)
    rw [Nat.add_zero] at h0
    rw [decide_eq_decide.mpr (hother _ h0), decide_eq_decide.mpr (hother _ (hne 1 (by omega)))]

/-! ## Maximal blocks -/

/-- A block that starts in a block of no smaller order lies in it. -/
lemma Block.has_of_has_start {b c : Block} (hb : b.Aligned) (hc : c.Aligned)
    (hle : b.order ≤ c.order) (hstart : c.has b.start) (hx : b.has x) :
    c.has x := by
  have hdvd : 2 ^ b.order ∣ c.start + 2 ^ c.order :=
    dvd_add ((Nat.pow_dvd_pow 2 hle).trans hc) (Nat.pow_dvd_pow 2 hle)
  simp only [has, decide_eq_true_eq] at hstart hx ⊢
  -- the end of `c` is a multiple too, so it is not inside `b`
  obtain ⟨i, hi⟩ := hb
  obtain ⟨j, hj⟩ := hdvd
  rw [hj, hi] at hstart
  have hij : i + 1 ≤ j := Nat.lt_of_mul_lt_mul_left hstart.2
  have hend : 2 ^ b.order * (i + 1) ≤ 2 ^ b.order * j := Nat.mul_le_mul_left _ hij
  rw [Nat.mul_add] at hend
  omega

/-- Two blocks of one order that meet are the same. -/
lemma Block.eq_of_has_start {b c : Block} (hb : b.Aligned) (hc : c.Aligned)
    (hord : c.order = b.order) (hstart : c.has b.start) : c = b := by
  have hpos : 0 < 2 ^ b.order := Nat.two_pow_pos _
  have hlast : b.has (b.start + 2 ^ b.order - 1) := by
    simp only [has, decide_eq_true_eq]
    omega
  have hin := has_of_has_start hb hc hord.ge hstart hlast
  obtain ⟨s, k⟩ := b
  obtain ⟨s', k'⟩ := c
  subst hord
  simp only [has, decide_eq_true_eq] at hstart hin
  have : s' = s := by omega
  rw [this]

/-- Both halves of a pair are on the list of no order below `K`. -/
def Merged (free : ℕ → List ℕ) (K : ℕ) : Prop :=
  ∀ k < K, ∀ i, ¬ (2 * i * 2 ^ k ∈ free k ∧ (2 * i + 1) * 2 ^ k ∈ free k)

namespace Merged

variable {free : ℕ → List ℕ} {K k p : ℕ}

lemma erase (h : Merged free K) : Merged (update free k ((free k).erase p)) K := by
  intro j hj i hboth
  by_cases hjk : j = k
  · subst hjk
    rw [update_self] at hboth
    exact h j hj i (hboth.imp mem_of_mem_erase mem_of_mem_erase)
  · rw [update_of_ne hjk] at hboth
    exact h j hj i hboth

lemma push (h : Merged free K) (hal : 2 ^ k ∣ p) (hbuddy : k < K → buddy p k ∉ free k) :
    Merged (update free k (p :: free k)) K := by
  intro j hj i hboth
  by_cases hjk : j = k
  · subst hjk
    have hsucc : (2 * i + 1) * 2 ^ j = 2 * i * 2 ^ j + 2 ^ j := by rw [Nat.add_mul, Nat.one_mul]
    rw [update_self, mem_cons, mem_cons] at hboth
    rcases hboth with ⟨hlow | hlow, hhigh | hhigh⟩
    · omega
    · -- `p` is the lower half, its buddy the upper one
      have hi : p / 2 ^ (j + 1) = i := by rw [← hlow]; exact half_div (by omega : 0 < 2) i j
      rcases halves hal with ⟨-, h₂⟩ | ⟨h₁, -⟩
      · rw [hi] at h₂; exact hbuddy hj (h₂ ▸ hhigh)
      · rw [hi] at h₁; omega
    · have hi : p / 2 ^ (j + 1) = i := by rw [← hhigh]; exact half_div (by omega) i j
      rcases halves hal with ⟨h₁, -⟩ | ⟨-, h₂⟩
      · rw [hi] at h₁; omega
      · rw [hi] at h₂; exact hbuddy hj (h₂ ▸ hlow)
    · exact h j hj i ⟨hlow, hhigh⟩
  · rw [update_of_ne hjk] at hboth
    exact h j hj i hboth

/-- A block whose numbers all lie in listed blocks lies in one of them. -/
lemma exists_le (h : Merged free K) (hal : ∀ c ∈ blocksOf free (K + 1), c.Aligned) :
    ∀ {k p : ℕ}, k ≤ K → 2 ^ k ∣ p →
      (∀ x, Block.has ⟨p, k⟩ x → ∃ c ∈ blocksOf free (K + 1), c.has x) →
      ∃ c ∈ blocksOf free (K + 1), k ≤ c.order ∧ c.has p := by
  intro k
  induction k with
  | zero =>
    intro p _ _ hin
    obtain ⟨c, hc, hx⟩ := hin p (Block.has_start ⟨p, 0⟩)
    exact ⟨c, hc, Nat.zero_le _, hx⟩
  | succ k ih =>
    intro p hk hp hin
    have hp' : 2 ^ k ∣ p := (Nat.pow_dvd_pow 2 (Nat.le_succ k)).trans hp
    simp only [Block.has, decide_eq_true_eq] at ih hin
    -- the blocks that hold the two halves
    obtain ⟨c, hc, hle, hhas⟩ := ih (by omega) hp' fun x hx => hin x (by omega)
    obtain ⟨d, hd, hle', hhas'⟩ := ih (by omega) (dvd_add hp' (dvd_refl _))
      fun x hx => hin x (by omega)
    simp only [Block.has, decide_eq_true_eq]
    by_cases hlow : k + 1 ≤ c.order
    · exact ⟨c, hc, hlow, hhas⟩
    by_cases hhigh : k + 1 ≤ d.order
    · -- `d` starts at a multiple of `2 ^ (k + 1)`, so not between the halves
      obtain ⟨i, hi⟩ := (Nat.pow_dvd_pow 2 hhigh).trans (hal d hd)
      obtain ⟨j, hj⟩ := hp
      have hij : i ≤ j := by
        have : 2 ^ (k + 1) * i < 2 ^ (k + 1) * (j + 1) := by
          rw [Nat.mul_add]; omega
        exact Nat.lt_succ_iff.mp (Nat.lt_of_mul_lt_mul_left this)
      have hstart : d.start ≤ p := by rw [hi, hj]; exact Nat.mul_le_mul_left _ hij
      exact ⟨d, hd, hhigh, by omega⟩
    -- both halves are listed
    have hceq : c = ⟨p, k⟩ := Block.eq_of_has_start hp' (hal c hc) (show c.order = k by omega)
      (by simpa [Block.has] using hhas)
    have hdeq : d = ⟨p + 2 ^ k, k⟩ := Block.eq_of_has_start (dvd_add hp' (dvd_refl _)) (hal d hd)
      (show d.order = k by omega) (by simpa [Block.has] using hhas')
    rw [hceq] at hc
    rw [hdeq] at hd
    obtain ⟨j, rfl⟩ := hp
    have h₁ : 2 ^ (k + 1) * j = 2 * j * 2 ^ k := by
      rw [Nat.pow_succ', Nat.mul_assoc, Nat.mul_comm (2 ^ k) j, ← Nat.mul_assoc]
    have h₂ : 2 ^ (k + 1) * j + 2 ^ k = (2 * j + 1) * 2 ^ k := by
      rw [h₁, Nat.add_mul, Nat.one_mul]
    rw [h₁] at hc
    rw [h₂] at hd
    exact absurd ⟨(mem_blocksOf.mp hc).2, (mem_blocksOf.mp hd).2⟩ (h k (by omega) j)

end Merged

/-- A greatest aligned block, of order at most `K`, of the numbers that satisfy `P`. -/
structure Block.Maximal (P : ℕ → Prop) (K : ℕ) (b : Block) : Prop where
  aligned : b.Aligned
  order : b.order ≤ K
  all : ∀ x, b.has x → P x
  greatest : ∀ c : Block, c.Aligned → c.order ≤ K → (∀ x, c.has x → P x) →
    b.order ≤ c.order → c.has b.start → c = b

/-- **Canonical form.** Merged blocks that have nothing in common are the maximal blocks of the
numbers they hold. -/
theorem Merged.mem_blocksOf_iff {free : ℕ → List ℕ} {K : ℕ} (h : Merged free K)
    (hal : ∀ c ∈ blocksOf free (K + 1), c.Aligned)
    (hone : ∀ b ∈ blocksOf free (K + 1), ∀ c ∈ blocksOf free (K + 1), ∀ x,
      b.has x → c.has x → b = c) (b : Block) :
    b ∈ blocksOf free (K + 1) ↔
      b.Maximal (fun x => ∃ c ∈ blocksOf free (K + 1), c.has x) K := by
  constructor
  · intro hb
    refine ⟨hal b hb, Nat.lt_succ_iff.mp (mem_blocksOf.mp hb).1, fun x hx => ⟨b, hb, hx⟩, ?_⟩
    intro c hc hcK hall hle hstart
    obtain ⟨d, hd, hle', hhas⟩ := h.exists_le hal hcK hc hall
    have hbd := hone d hd b hb b.start (Block.has_of_has_start hc (hal d hd) hle' hhas hstart)
      b.has_start
    exact Block.eq_of_has_start (hal b hb) hc (by rw [hbd] at hle'; omega) hstart
  · intro hmax
    obtain ⟨c, hc, hle, hhas⟩ := h.exists_le hal hmax.order hmax.aligned hmax.all
    have hcb := hmax.greatest c (hal c hc) (Nat.lt_succ_iff.mp (mem_blocksOf.mp hc).1)
      (fun x hx => ⟨c, hc, hx⟩) hle hhas
    rwa [← hcb]

end PsxLinux.Lib
