import PsxLinux.Ext2.Ialloc
import PsxLinux.Ext2.BallocTheorems
import PsxLinux.Lib.Exec
import Mathlib.Data.Nat.Prime.Basic

/-!
# Inode allocation finds a free inode

The directory search looks at every group, and an above-average group exists whenever an inode is
free. The search for other inodes looks at the parent's group, at the groups of the quadratic hash
and at the groups of the linear search. Together these are all groups, with one exception: from a
parent in the last group, the last group but one is only found by the quadratic hash, and that is
when the number of groups is a power of two.

Along every sequence of calls, the bits set are those of the reserved inodes and of the inodes that
are handed out.
-/

namespace PsxLinux.Ext2

open Lib Function

/-- Every counter is the number of clear bits of its group, and the total is their sum. Both fit
in their fields. -/
structure Fs.CountsInodes (s : Super) (fs : Fs) : Prop where
  group : ∀ g, g < s.groupsCount →
    fs.bgFreeInodesCount g = (fs.inodeBitmap g).zeros s.inodesPerGroup
  total : fs.sFreeInodesCount = ∑ g ∈ Finset.range s.groupsCount, fs.bgFreeInodesCount g
  word : ∀ g, g < s.groupsCount → fs.bgFreeInodesCount g < 2 ^ 16
  long : fs.sFreeInodesCount < 2 ^ 32

/-! ## Directories -/

section Directory
variable {fs : Fs} {ave g j n : Nat} {found : Option Nat}

lemma directoryGroup_some {c : Nat} (hn : j + n ≤ c)
    (hfound : ∀ i, found = some i → i < c ∧ fs.bgFreeInodesCount i ≠ 0)
    (h : directoryGroup fs ave n j found = some g) : g < c ∧ fs.bgFreeInodesCount g ≠ 0 := by
  induction n generalizing j found with
  | zero => exact hfound g h
  | succ n ih =>
    refine ih (by omega) ?_ h
    intro i hi
    split at hi
    case isTrue hbetter =>
      cases hi
      exact ⟨by omega, hbetter.1⟩
    case isFalse => exact hfound i hi

lemma directoryGroup_isSome (hfound : found.isSome) :
    (directoryGroup fs ave n j found).isSome := by
  induction n generalizing j found with
  | zero => exact hfound
  | succ n ih =>
    apply ih
    split
    · rfl
    · exact hfound

/-- The search fails only if every group is empty or below the average. -/
lemma directoryGroup_none (h : directoryGroup fs ave n j none = none) (hj : j ≤ g)
    (hg : g < j + n) : fs.bgFreeInodesCount g = 0 ∨ fs.bgFreeInodesCount g < ave := by
  induction n generalizing j with
  | zero => omega
  | succ n ih =>
    rw [directoryGroup] at h
    split at h
    case isTrue hbetter =>
      have hsome := @directoryGroup_isSome fs ave (j + 1) n (some j) rfl
      rw [h] at hsome
      cases hsome
    case isFalse hbelow =>
      by_cases hgj : g = j
      · subst hgj
        by_contra hcon
        rw [not_or] at hcon
        exact hbelow ⟨hcon.1, Nat.le_of_not_lt hcon.2, rfl⟩
      · exact ih h (by omega) (by omega)

/-- Some counter is at least the average. -/
lemma sum_eq_zero_of_below {f : Nat → Nat} {c : Nat} (hc : 0 < c)
    (h : ∀ g, g < c → f g = 0 ∨ f g < (∑ i ∈ Finset.range c, f i) / c) :
    ∑ i ∈ Finset.range c, f i = 0 := by
  generalize hS : ∑ i ∈ Finset.range c, f i = S at h ⊢
  by_contra hpos
  have hle : ∀ g ∈ Finset.range c, f g ≤ S / c - 1 := by
    intro g hg
    rcases h g (Finset.mem_range.1 hg) with h | h <;> omega
  have hsum := Finset.sum_le_card_nsmul _ _ _ hle
  rw [hS, Finset.card_range, Nat.nsmul_eq_mul] at hsum
  by_cases have0 : S / c = 0
  · rw [have0] at hsum
    omega
  · have hmul : c * (S / c - 1) < c * (S / c) := Nat.mul_lt_mul_of_pos_left
      (Nat.sub_lt (Nat.pos_of_ne_zero have0) Nat.one_pos) hc
    have hdiv := Nat.mul_div_le S c
    omega

end Directory

/-! ## Other inodes -/

section File
variable {c fuel g i j k m parent : Nat} {free : Nat → Nat}

lemma hash_eq_mod (hi : i < c) (hj : j < c) :
    (if i + j ≥ c then i + j - c else i + j) = (i + j) % c := by
  split
  case isTrue h => rw [Nat.mod_eq_sub_mod h, Nat.mod_eq_of_lt (by omega)]
  case isFalse h => exact (Nat.mod_eq_of_lt (by omega)).symm

lemma quadraticHash_some (hi : i < c) (h : quadraticHash c free fuel i j = some g) :
    g < c ∧ free g ≠ 0 := by
  induction fuel generalizing i j with
  | zero => cases h
  | succ fuel ih =>
    rw [quadraticHash] at h
    split at h
    case isFalse => cases h
    case isTrue hj =>
      dsimp only at h
      rw [hash_eq_mod hi hj] at h
      have hlt := Nat.mod_lt (i + j) (by omega : 0 < c)
      split at h
      case isTrue hfree =>
        cases h
        exact ⟨hlt, hfree⟩
      case isFalse => exact ih hlt h

/-- The hash fails exactly if the groups at distance `1`, `3`, `7` and so on from the parent have
no free inode. Here `2 ^ k` is the first step and `i` lies `2 ^ k - 1` behind the parent. -/
lemma quadraticHash_none_iff (hi : i < c) (hfuel : c ≤ 2 ^ (k + fuel)) :
    quadraticHash c free fuel i (2 ^ k) = none ↔
      ∀ m, k ≤ m → 2 ^ m < c → free ((i + 2 ^ (m + 1) - 2 ^ k) % c) = 0 := by
  induction fuel generalizing i k with
  | zero =>
    refine ⟨fun _ m hm hlt => ?_, fun _ => rfl⟩
    have := Nat.pow_le_pow_right (by decide : 0 < 2) hm
    rw [Nat.add_zero] at hfuel
    omega
  | succ fuel ih =>
    rw [quadraticHash]
    split
    case isFalse hdone =>
      refine ⟨fun _ m hm hlt => ?_, fun _ => rfl⟩
      have := Nat.pow_le_pow_right (by decide : 0 < 2) hm
      omega
    case isTrue hj =>
      dsimp only
      rw [hash_eq_mod hi hj]
      have hlt := Nat.mod_lt (i + 2 ^ k) (by omega : 0 < c)
      have hdouble : 2 * 2 ^ k = 2 ^ (k + 1) := by rw [Nat.pow_succ, Nat.mul_comm]
      -- the distance after the next steps, seen from here and from the next group
      have hshift : ∀ m, k + 1 ≤ m → ((i + 2 ^ k) % c + 2 ^ (m + 1) - 2 ^ (k + 1)) % c =
          (i + 2 ^ (m + 1) - 2 ^ k) % c := by
        intro m hm
        have hle : 2 ^ (k + 1) ≤ 2 ^ (m + 1) := Nat.pow_le_pow_right (by decide) (by omega)
        rw [Nat.add_sub_assoc hle, Nat.mod_add_mod]
        congr 1
        omega
      split
      case isTrue hfree =>
        refine ⟨nofun, fun h => absurd ?_ hfree⟩
        have hk := h k (Nat.le_refl k) hj
        rwa [show i + 2 ^ (k + 1) - 2 ^ k = i + 2 ^ k by omega] at hk
      case isFalse hfree =>
        have hzero : free ((i + 2 ^ k) % c) = 0 := not_not.1 hfree
        rw [hdouble, ih hlt (by rw [show k + 1 + fuel = k + (fuel + 1) by omega]; exact hfuel)]
        constructor
        · intro h m hm hlt'
          by_cases hmk : m = k
          · subst hmk
            rw [show i + 2 ^ (m + 1) - 2 ^ m = i + 2 ^ m by omega]
            exact hzero
          · rw [← hshift m (by omega)]
            exact h m (by omega) hlt'
        · intro h m hm hlt'
          rw [hshift m hm]
          exact h m (by omega) hlt'

lemma fileGroup_eq_none_iff : fileGroup c free parent = none ↔ free parent = 0 ∧
    quadraticHash c free c parent (2 ^ 0) = none ∧ nextGroup c free (c - 2) (parent + 1) = none := by
  unfold fileGroup
  split
  case isTrue hfree => simp [hfree]
  case isFalse hparent =>
    rw [and_iff_right (not_not.1 hparent)]
    split
    case h_1 hhash => simp [hhash]
    case h_2 hhash => simp [hhash]

lemma fileGroup_some (hp : parent < c) (h : fileGroup c free parent = some g) :
    g < c ∧ free g ≠ 0 := by
  unfold fileGroup at h
  split at h
  case isTrue hfree =>
    cases h
    exact ⟨hp, hfree⟩
  case isFalse =>
    split at h
    case h_1 i hhash =>
      cases h
      exact quadraticHash_some hp hhash
    case h_2 =>
      obtain ⟨hg, hpos⟩ := nextGroup_some (Nat.zero_lt_of_lt hp) h
      exact ⟨hg, by omega⟩

lemma nextGroup_le (hk : i + k < c) (h : nextGroup c free k i = some g) : g ≤ i + k := by
  induction k generalizing i with
  | zero => cases h
  | succ k ih =>
    simp only [nextGroup, if_neg (by omega : ¬ i + 1 ≥ c)] at h
    split at h
    case isTrue =>
      cases h
      omega
    case isFalse =>
      have := ih (by omega) h
      omega

/-- From the last group the linear search starts at group 0, not at group 1. -/
lemma nextGroup_last (k : Nat) :
    nextGroup c free (k + 1) c = if free 0 > 0 then some 0 else nextGroup c free k 0 := by
  simp only [nextGroup, if_pos (by omega : c + 1 ≥ c)]

lemma hash_fuel (c : Nat) : c ≤ 2 ^ (0 + c) := by
  rw [Nat.zero_add]
  exact Nat.lt_two_pow_self.le

/-- From another group, the three searches together pass every group. -/
lemma fileGroup_none_of_not_last (hp : parent + 1 < c) (h : fileGroup c free parent = none)
    (hg : g < c) : free g = 0 := by
  obtain ⟨hparent, hhash, h⟩ := fileGroup_eq_none_iff.1 h
  by_cases hgp : g = parent
  · rw [hgp]
    exact hparent
  by_cases hg1 : g = parent + 1
  · -- the first step of the hash
    have hfirst := (quadraticHash_none_iff (by omega) (hash_fuel c)).1 hhash 0 (Nat.le_refl 0)
      (by omega)
    rwa [show parent + 2 ^ (0 + 1) - 2 ^ 0 = g by omega, Nat.mod_eq_of_lt hg] at hfirst
  by_cases hlt : g < parent
  · have hlinear := nextGroup_none hp h (by omega : 0 < g + c - (parent + 1)) (by omega)
    rwa [show parent + 1 + (g + c - (parent + 1)) = g + c by omega, Nat.add_mod_right,
      Nat.mod_eq_of_lt hg] at hlinear
  · have hlinear := nextGroup_none hp h (by omega : 0 < g - (parent + 1)) (by omega)
    rwa [show parent + 1 + (g - (parent + 1)) = g by omega, Nat.mod_eq_of_lt hg] at hlinear

/-- The groups of the hash from the last group. -/
lemma hash_last (hc : 2 ≤ c) (m : Nat) :
    (c - 1 + 2 ^ (m + 1) - 2 ^ 0) % c = c - 2 ↔ c ∣ 2 ^ (m + 1) := by
  have hpow : 2 ≤ 2 ^ (m + 1) := by
    have := Nat.one_le_two_pow (n := m)
    omega
  obtain ⟨d, hd⟩ := Nat.exists_eq_add_of_le hpow
  rw [hd, show c - 1 + (2 + d) - 2 ^ 0 = d + c by omega, Nat.add_mod_right]
  constructor
  · intro h
    have hdiv := Nat.div_add_mod d c
    refine ⟨d / c + 1, ?_⟩
    rw [Nat.mul_add]
    omega
  · rintro ⟨q, hq⟩
    have hq0 : q ≠ 0 := by
      rintro rfl
      omega
    obtain ⟨q, rfl⟩ := Nat.exists_eq_succ_of_ne_zero hq0
    rw [Nat.mul_succ] at hq
    rw [show d = (c - 2) + c * q by omega, Nat.add_mul_mod_self_left, Nat.mod_eq_of_lt (by omega)]

/-- From the last group, all groups but the last but one are passed; that one too if the number of
groups is a power of two. -/
lemma fileGroup_none_of_last (hp : parent + 1 = c) (h : fileGroup c free parent = none)
    (hg : g < c) (hor : g ≠ c - 2 ∨ ∃ a, c = 2 ^ a) : free g = 0 := by
  obtain ⟨hparent, hhash, h⟩ := fileGroup_eq_none_iff.1 h
  by_cases hgp : g = parent
  · rw [hgp]
    exact hparent
  by_cases hlast : g = c - 2
  · obtain ⟨a, ha⟩ := hor.resolve_left (not_not_intro hlast)
    -- the turn of the hash that reaches the last group but one
    obtain ⟨m, rfl⟩ := Nat.exists_eq_succ_of_ne_zero (show a ≠ 0 by rintro rfl; omega)
    have hlt : 2 ^ m < c := by
      rw [ha]
      exact Nat.pow_lt_pow_right (by decide) (Nat.lt_succ_self m)
    have hturn := (quadraticHash_none_iff (by omega) (hash_fuel c)).1 hhash m (Nat.zero_le m) hlt
    rwa [show parent = c - 1 by omega, (hash_last (by omega) m).2 (ha ▸ Nat.dvd_refl c),
      ← hlast] at hturn
  · obtain ⟨k, hk⟩ : ∃ k, c = k + 3 := ⟨c - 3, by omega⟩
    rw [show c - 2 = k + 1 by omega, hp, nextGroup_last] at h
    split at h
    case isTrue => cases h
    case isFalse hzero =>
      by_cases hg0 : g = 0
      · subst hg0
        omega
      · have hlinear := nextGroup_none (by omega) h (by omega : 0 < g) (by omega)
        rwa [Nat.zero_add, Nat.mod_eq_of_lt hg] at hlinear

/-- Inodes that are free in the last group but one only are not found from the last group, unless
the number of groups is a power of two. -/
lemma fileGroup_last_misses (hp : parent + 1 = c) (hc : ¬ ∃ a, c = 2 ^ a)
    (hfree : ∀ g, g < c → g ≠ c - 2 → free g = 0) : fileGroup c free parent = none := by
  have hc3 : 3 ≤ c := by
    by_contra hlt
    apply hc
    obtain rfl | rfl : c = 1 ∨ c = 2 := by omega
    · exact ⟨0, rfl⟩
    · exact ⟨1, rfl⟩
  refine fileGroup_eq_none_iff.2 ⟨hfree parent (by omega) (by omega), ?_, ?_⟩
  · rw [quadraticHash_none_iff (by omega) (hash_fuel c)]
    intro m _ _
    apply hfree _ (Nat.mod_lt _ (by omega))
    rw [show parent = c - 1 by omega]
    intro hlast
    obtain ⟨a, -, ha⟩ := (Nat.dvd_prime_pow Nat.prime_two).1 ((hash_last (by omega) m).1 hlast)
    exact hc ⟨a, ha⟩
  · obtain ⟨k, rfl⟩ : ∃ k, c = k + 3 := ⟨c - 3, by omega⟩
    rw [show k + 3 - 2 = k + 1 by omega, hp, nextGroup_last,
      if_neg (by rw [hfree 0 (by omega) (by omega)]; decide)]
    refine Option.eq_none_iff_forall_ne_some.2 fun g hlinear => ?_
    obtain ⟨hg, hpos⟩ := nextGroup_some (by omega) hlinear
    have hle := nextGroup_le (by omega) hlinear
    have hzero := hfree g hg (by omega)
    omega

/-- Which groups the search for a file passes over without finding an inode: all of them, or all
but the last but one. -/
lemma fileGroup_none_iff (hp : parent < c) :
    fileGroup c free parent = none ↔
      (∀ g, g < c → free g = 0) ∨
        parent + 1 = c ∧ (¬ ∃ a, c = 2 ^ a) ∧ ∀ g, g < c → g ≠ c - 2 → free g = 0 := by
  constructor
  · intro h
    by_cases hlast : parent + 1 = c
    · by_cases hpow : ∃ a, c = 2 ^ a
      · exact .inl fun g hg => fileGroup_none_of_last hlast h hg (.inr hpow)
      · exact .inr ⟨hlast, hpow, fun g hg hne => fileGroup_none_of_last hlast h hg (.inl hne)⟩
    · exact .inl fun g hg => fileGroup_none_of_not_last (by omega) h hg
  · rintro (hall | ⟨hlast, hpow, hfree⟩)
    · refine Option.eq_none_iff_forall_ne_some.2 fun g h => ?_
      obtain ⟨hg, hne⟩ := fileGroup_some hp h
      exact hne (hall g hg)
    · exact fileGroup_last_misses hlast hpow hfree

end File

/-! ## `ext2_new_inode` -/

section NewInode
variable {s : Super} {fs : Fs} {g j parent : Nat} {directory rdonly : Bool}

lemma chooseGroup_some (hp : parent < s.groupsCount)
    (h : chooseGroup s fs directory parent = some g) :
    g < s.groupsCount ∧ fs.bgFreeInodesCount g ≠ 0 := by
  unfold chooseGroup at h
  split at h
  case isTrue => exact directoryGroup_some (Nat.zero_add _).le (fun i hi => by cases hi) h
  case isFalse => exact fileGroup_some hp h

section
variable (hc : fs.CountsInodes s)
include hc

lemma chooseGroup_none_iff (hp : parent < s.groupsCount) :
    chooseGroup s fs directory parent = none ↔
      (∀ g, g < s.groupsCount → fs.bgFreeInodesCount g = 0) ∨
        directory = false ∧ parent + 1 = s.groupsCount ∧ (¬ ∃ a, s.groupsCount = 2 ^ a) ∧
          ∀ g, g < s.groupsCount → g ≠ s.groupsCount - 2 → fs.bgFreeInodesCount g = 0 := by
  cases directory with
  | false =>
    simp only [true_and]
    exact fileGroup_none_iff hp
  | true =>
    simp only [Bool.true_eq_false, false_and, or_false]
    constructor
    · intro h g hg
      have hbelow : ∀ g, g < s.groupsCount → fs.bgFreeInodesCount g = 0 ∨
          fs.bgFreeInodesCount g <
            (∑ i ∈ Finset.range s.groupsCount, fs.bgFreeInodesCount i) / s.groupsCount := by
        intro g hg
        rw [← hc.total]
        exact directoryGroup_none h (Nat.zero_le g) (by omega)
      have hsum := sum_eq_zero_of_below (by omega) hbelow
      have hle := le_sum_range (f := fs.bgFreeInodesCount) hg
      omega
    · intro hall
      refine Option.eq_none_iff_forall_ne_some.2 fun g h => ?_
      obtain ⟨hg, hne⟩ := directoryGroup_some (Nat.zero_add _).le (fun i hi => by cases hi) h
      exact hne (hall g hg)

/-- One group's bitmap changes, and the counters by the same number. -/
lemma Fs.CountsInodes.change {fs' : Fs} {map : Bitmap} {v : Nat}
    (hg : g < s.groupsCount) (hmap : fs'.inodeBitmap = update fs.inodeBitmap g map)
    (hfree : fs'.bgFreeInodesCount = update fs.bgFreeInodesCount g v)
    (hv : v = map.zeros s.inodesPerGroup) (hword : v < 2 ^ 16)
    (htotal : fs'.sFreeInodesCount + fs.bgFreeInodesCount g = fs.sFreeInodesCount + v)
    (hlong : fs'.sFreeInodesCount < 2 ^ 32) : fs'.CountsInodes s where
  group := by
    intro g' hg'
    rw [hmap, hfree]
    by_cases heq : g' = g
    · subst heq
      rw [update_self, update_self]
      exact hv
    · rw [update_of_ne heq, update_of_ne heq]
      exact hc.group g' hg'
  total := by
    have hsum := @sum_update_add fs.bgFreeInodesCount g s.groupsCount v hg
    have hold := hc.total
    rw [hfree]
    omega
  word := by
    intro g' hg'
    have hword' := hc.word g' hg'
    rw [hfree, update_apply]
    split <;> omega
  long := hlong

lemma Fs.CountsInodes.group_le_total (hg : g < s.groupsCount) :
    fs.bgFreeInodesCount g ≤ fs.sFreeInodesCount := by
  rw [hc.total]
  exact le_sum_range hg

lemma Fs.CountsInodes.takeInode (hg : g < s.groupsCount)
    (hj : j < s.inodesPerGroup) (hclear : fs.inodeBitmap g j = false) (directory : Bool) :
    (fs.takeInode g j directory).CountsInodes s := by
  have hzeros := Bitmap.zeros_set hj hclear
  have hgroup := hc.group g hg
  have hword := hc.word g hg
  have hlong := hc.long
  have hle := hc.group_le_total hg
  have hcount : subWrap 16 (fs.bgFreeInodesCount g) 1 = fs.bgFreeInodesCount g - 1 :=
    subWrap_of_le hword (by omega)
  have htotal : (fs.takeInode g j directory).sFreeInodesCount = fs.sFreeInodesCount - 1 :=
    subWrap_of_le hlong (by omega)
  exact hc.change hg rfl rfl (by omega) (by omega) (by omega) (by omega)

end

/-- What the caller may rely on: `ENOSPC` only if no inode is free; an inode that is returned was
free, is in the group it is recorded in, and leaves the counters consistent. -/
def NewInodeCorrect (s : Super) (rdonly directory : Bool) (parent : Nat) (fs : Fs) : Prop :=
  ∃ r fs', ext2NewInode s rdonly directory parent fs = some (r, fs') ∧
    match r with
    | .error .enospc => ∀ g, g < s.groupsCount → fs.bgFreeInodesCount g = 0
    | .error .eio => True
    | .inode ino blockGroup =>
      0 < ino ∧ (ino - 1) / s.inodesPerGroup = blockGroup ∧ blockGroup < s.groupsCount ∧
        fs.inodeBitmap blockGroup ((ino - 1) % s.inodesPerGroup) = false ∧
        fs'.inodeBitmap blockGroup ((ino - 1) % s.inodesPerGroup) ∧ fs'.CountsInodes s

lemma ext2NewInode_of_none (h : chooseGroup s fs directory parent = none) :
    ext2NewInode s rdonly directory parent fs = some (.error .enospc, fs) := by
  simp only [ext2NewInode, newInodeLoop, h]

lemma newInodeCorrect_of_some (hc : fs.CountsInodes s) (hp : parent < s.groupsCount)
    (h : chooseGroup s fs directory parent = some g) :
    NewInodeCorrect s rdonly directory parent fs := by
  obtain ⟨hg, hfree⟩ := chooseGroup_some hp h
  rw [hc.group g hg] at hfree
  obtain ⟨i, hi, hclear⟩ := Bitmap.zeros_pos_iff.1 (Nat.pos_of_ne_zero hfree)
  -- the bit search finds the free inode that the counter promises
  have hlt : findFirstZeroBit (fs.inodeBitmap g) s.inodesPerGroup < s.inodesPerGroup := by
    by_contra hge
    have hset := @findFirstZeroBit_set (fs.inodeBitmap g) s.inodesPerGroup i (by omega)
    rw [hclear] at hset
    cases hset
  have hbit := findFirstZeroBit_clear hlt
  unfold NewInodeCorrect
  simp only [ext2NewInode, newInodeLoop, h, if_pos hlt]
  split
  case isTrue => exact ⟨_, _, rfl, trivial⟩
  case isFalse =>
    refine ⟨_, _, rfl, ?_⟩
    generalize findFirstZeroBit (fs.inodeBitmap g) s.inodesPerGroup = j at hlt hbit ⊢
    have hpos : 0 < s.inodesPerGroup := by omega
    have hsub : s.ino g j - 1 = j + s.inodesPerGroup * g := by
      rw [Super.ino, Nat.mul_comm]
      omega
    have hdiv : (s.ino g j - 1) / s.inodesPerGroup = g := by
      rw [hsub, Nat.add_mul_div_left _ _ hpos, Nat.div_eq_of_lt hlt, Nat.zero_add]
    have hmod : (s.ino g j - 1) % s.inodesPerGroup = j := by
      rw [hsub, Nat.add_mul_mod_self_left, Nat.mod_eq_of_lt hlt]
    dsimp only
    rw [hdiv, hmod]
    refine ⟨Nat.succ_pos _, rfl, hg, hbit, ?_, hc.takeInode hg hlt hbit directory⟩
    simp [Fs.takeInode]

/-- **Inode allocation is complete**, for every number of groups, every consistent assignment of
counters, every parent's group and both kinds of inode, exactly if the inodes that are free are not
all in the last group but one, asked for from the last group and not for a directory, with a number
of groups that is no power of two. -/
theorem new_inode_correct_iff (hc : fs.CountsInodes s) (hp : parent < s.groupsCount) :
    NewInodeCorrect s rdonly directory parent fs ↔
      directory ∨ parent + 1 ≠ s.groupsCount ∨ (∃ a, s.groupsCount = 2 ^ a) ∨
        (∃ g, g < s.groupsCount ∧ g ≠ s.groupsCount - 2 ∧ fs.bgFreeInodesCount g ≠ 0) ∨
        fs.bgFreeInodesCount (s.groupsCount - 2) = 0 := by
  constructor
  · rintro ⟨r, fs', hcall, hr⟩
    by_contra hcon
    simp only [not_or, not_exists, not_and, not_not] at hcon
    obtain ⟨hkind, hlast, hpow, hothers, hfree⟩ := hcon
    -- the search fails although the last group but one has a free inode
    have hnone : chooseGroup s fs directory parent = none :=
      (chooseGroup_none_iff hc hp).2 (.inr ⟨Bool.not_eq_true _ ▸ hkind, hlast,
        fun ⟨a, ha⟩ => hpow a ha, hothers⟩)
    rw [ext2NewInode_of_none hnone] at hcall
    obtain ⟨rfl, rfl⟩ := Prod.mk.inj (Option.some.inj hcall)
    exact hfree (hr _ (by omega))
  · intro h
    cases hchoose : chooseGroup s fs directory parent with
    | some g => exact newInodeCorrect_of_some hc hp hchoose
    | none =>
      refine ⟨_, _, ext2NewInode_of_none hchoose, ?_⟩
      rcases (chooseGroup_none_iff hc hp).1 hchoose with hall | ⟨hkind, hlast, hpow, hothers⟩
      · exact hall
      · intro g hg
        by_cases hne : g = s.groupsCount - 2
        · rcases h with h | h | h | ⟨g', hg', hne', hfree⟩ | h
          · rw [hkind] at h
            cases h
          · exact absurd hlast h
          · exact absurd h hpow
          · exact absurd (hothers g' hg' hne') hfree
          · rw [hne]
            exact h
        · exact hothers g hg hne

end NewInode

/-! ## Every sequence of calls -/

/-- Every inode has a bit, and the counters can hold the number of all inodes. -/
structure Super.InodeLayout (s : Super) : Prop where
  count : s.inodesCount = s.groupsCount * s.inodesPerGroup
  word : s.inodesPerGroup < 2 ^ 16
  long : s.inodesCount < 2 ^ 32
  first : 0 < s.firstIno

/-- The bit of an inode. -/
def Fs.inUse (s : Super) (fs : Fs) (ino : Nat) : Bool :=
  fs.inodeBitmap ((ino - 1) / s.inodesPerGroup) ((ino - 1) % s.inodesPerGroup)

/-- The file system and the inodes that were handed out and not freed since. -/
structure Inodes where
  fs : Fs
  live : Nat → Bool

/-- The calls. Any number may be freed. -/
inductive InodeCall (s : Super) where
  | new (rdonly directory : Bool) (parent : Fin s.groupsCount)
  | free (directory : Bool) (ino : Nat)

/-- One call, with the inode that it returns. -/
def Inodes.step (s : Super) (x : Inodes) : InodeCall s → Option (Inodes × List Nat)
  | .new rdonly directory parent =>
    match ext2NewInode s rdonly directory parent x.fs with
    | none => none
    | some (.inode ino _, fs) => some (⟨fs, update x.live ino true⟩, [ino])
    | some (.error _, fs) => some ({ x with fs }, [])
  | .free directory ino => some (⟨ext2FreeInode s directory ino x.fs, update x.live ino false⟩, [])

/-- The bits are those of the reserved inodes and of the inodes that are handed out. -/
structure Inodes.Ok (s : Super) (x : Inodes) : Prop where
  counts : x.fs.CountsInodes s
  bits : ∀ ino, 0 < ino → ino ≤ s.inodesCount →
    x.fs.inUse s ino = (decide (ino < s.firstIno) || x.live ino)

section Runs
variable {s : Super} {x y : Inodes} {g i j : Nat}

lemma eq_ino_iff (hj : j < s.inodesPerGroup) (hi : 0 < i) :
    i = s.ino g j ↔ (i - 1) / s.inodesPerGroup = g ∧ (i - 1) % s.inodesPerGroup = j := by
  rw [Nat.div_mod_unique (by omega), Super.ino, Nat.mul_comm g]
  omega

/-- The bit of an inode that is not reserved is written. -/
lemma Inodes.Ok.write {fs : Fs} {v : Bool} (h : x.Ok s) (hj : j < s.inodesPerGroup)
    (hfirst : s.firstIno ≤ s.ino g j) (hc : fs.CountsInodes s)
    (hmap : fs.inodeBitmap = update x.fs.inodeBitmap g ((x.fs.inodeBitmap g).write j v)) :
    Inodes.Ok s ⟨fs, update x.live (s.ino g j) v⟩ := by
  refine ⟨hc, fun i hi hcount => ?_⟩
  have hold := h.bits i hi hcount
  have hiff := eq_ino_iff (g := g) hj hi
  dsimp only [Fs.inUse] at hold ⊢
  rw [hmap, update_apply, update_apply]
  grind [Bitmap.write_apply]

lemma Inodes.Ok.new (hl : s.InodeLayout) (h : x.Ok s) (rdonly directory : Bool)
    (parent : Fin s.groupsCount) :
    ∃ y ret, x.step s (.new rdonly directory parent) = some (y, ret) ∧ y.Ok s ∧
      ∀ ino ∈ ret, s.firstIno ≤ ino ∧ ino ≤ s.inodesCount ∧ x.live ino = false := by
  unfold Inodes.step
  cases hchoose : chooseGroup s x.fs directory parent with
  | none =>
    simp only [ext2NewInode_of_none hchoose]
    exact ⟨_, _, rfl, h, nofun⟩
  | some g =>
    obtain ⟨hg, hfree⟩ := chooseGroup_some parent.2 hchoose
    rw [h.counts.group g hg] at hfree
    obtain ⟨i, hi, hclear⟩ := Bitmap.zeros_pos_iff.1 (Nat.pos_of_ne_zero hfree)
    have hlt : findFirstZeroBit (x.fs.inodeBitmap g) s.inodesPerGroup < s.inodesPerGroup := by
      by_contra hge
      rw [findFirstZeroBit_set (Nat.lt_of_lt_of_le hi (Nat.le_of_not_lt hge))] at hclear
      cases hclear
    have hbit := findFirstZeroBit_clear hlt
    simp only [ext2NewInode, newInodeLoop, hchoose, if_pos hlt]
    generalize findFirstZeroBit (x.fs.inodeBitmap g) s.inodesPerGroup = j at hlt hbit ⊢
    have hpos : 0 < s.ino g j := Nat.succ_pos _
    have hle : s.ino g j ≤ s.inodesCount := by
      have hmul := Nat.mul_le_mul_right s.inodesPerGroup (Nat.succ_le_of_lt hg)
      rw [Nat.succ_mul, ← hl.count] at hmul
      unfold Super.ino
      omega
    -- the bits of the reserved inodes are set, and this one is not
    have hbits := h.bits _ hpos hle
    obtain ⟨hdiv, hmod⟩ := (eq_ino_iff hlt hpos).1 rfl
    rw [Fs.inUse, hdiv, hmod, hbit, eq_comm, Bool.or_eq_false_iff, decide_eq_false_iff_not] at hbits
    rw [if_neg (by omega)]
    refine ⟨_, _, rfl, ?_, ?_⟩
    · exact h.write hlt (Nat.le_of_not_lt hbits.1) (h.counts.takeInode hg hlt hbit directory) rfl
    · simp only [List.mem_singleton, forall_eq]
      exact ⟨Nat.le_of_not_lt hbits.1, hle, hbits.2⟩

lemma Inodes.Ok.free (hl : s.InodeLayout) (h : x.Ok s) (directory : Bool) (ino : Nat) :
    Inodes.Ok s ⟨ext2FreeInode s directory ino x.fs, update x.live ino false⟩ := by
  obtain ⟨hcount, hword, hlong, hfirst⟩ := hl
  -- a call that changes nothing: the inode is reserved, or it does not exist, or it is free
  have hsame (hno : ino < s.firstIno ∨ ino > s.inodesCount ∨ x.fs.inUse s ino = false) :
      Inodes.Ok s ⟨x.fs, update x.live ino false⟩ := by
    refine ⟨h.counts, fun i hi hle => ?_⟩
    have hold := h.bits i hi hle
    dsimp only
    grind
  unfold ext2FreeInode
  split
  case isTrue hout => exact hsame (by omega)
  case isFalse hin =>
    have hlt : ino - 1 < s.groupsCount * s.inodesPerGroup := by omega
    have hpos : 0 < s.inodesPerGroup := Nat.pos_of_mul_pos_left (Nat.zero_lt_of_lt hlt)
    have hg := (Nat.div_lt_iff_lt_mul hpos).2 hlt
    have hbit := Nat.mod_lt (ino - 1) hpos
    have hino := (eq_ino_iff (i := ino) hbit (by omega)).2 ⟨rfl, rfl⟩
    dsimp only
    split
    case isTrue hclear => exact hsame (.inr (.inr hclear))
    case isFalse hset =>
      generalize (ino - 1) / s.inodesPerGroup = g at *
      generalize (ino - 1) % s.inodesPerGroup = bit at *
      have hzeros := Bitmap.zeros_clear hbit (Bool.eq_true_of_not_eq_false hset)
      have hbound := Bitmap.zeros_le ((x.fs.inodeBitmap g).write bit false) s.inodesPerGroup
      have hgroup := h.counts.group g hg
      have htotal : x.fs.sFreeInodesCount < s.inodesCount :=
        calc x.fs.sFreeInodesCount
          _ = ∑ g ∈ Finset.range s.groupsCount, x.fs.bgFreeInodesCount g := h.counts.total
          _ < ∑ _g ∈ Finset.range s.groupsCount, s.inodesPerGroup := by
            refine Finset.sum_lt_sum (fun i hi => ?_) ⟨g, Finset.mem_range.2 hg, by omega⟩
            rw [h.counts.group i (Finset.mem_range.1 hi)]
            exact Bitmap.zeros_le _ _
          _ = s.inodesCount := by simp [hcount]
      rw [hino, addWrap_of_lt (by omega), addWrap_of_lt (by omega)]
      refine h.write hbit (by omega) (h.counts.change hg rfl rfl (by omega) (by omega) ?_ ?_) rfl
      all_goals
        dsimp only
        omega

/-- **No inode is handed out twice.** If the bitmaps hold the reserved inodes and those in use, and
the counters agree with them, then so they do after every sequence of allocations and releases.
Every further allocation returns, and an inode that it returns is neither reserved nor in use. -/
theorem inodes_apart (hl : s.InodeLayout) (h : x.Ok s) (cs : List (InodeCall s)) {es : List Nat}
    (hrun : Exec (Inodes.step s) anyStep x cs es y) :
    y.Ok s ∧ ∀ rdonly directory parent, ∃ z ret,
      y.step s (.new rdonly directory parent) = some (z, ret) ∧ z.Ok s ∧
        ∀ ino ∈ ret, s.firstIno ≤ ino ∧ ino ≤ s.inodesCount ∧ y.live ino = false := by
  have hy : y.Ok s := by
    refine hrun.invariant_state h fun t c u fs ht _ hstep => ?_
    cases c with
    | new rdonly directory parent =>
      obtain ⟨z, ret, hcall, hz, -⟩ := ht.new hl rdonly directory parent
      rw [hcall] at hstep
      cases hstep
      exact hz
    | free directory ino =>
      cases hstep
      exact ht.free hl directory ino
  exact ⟨hy, hy.new hl⟩

end Runs

/-- Three groups of 8 inodes. -/
def threeGroups : Super where
  firstDataBlock := 1
  blocksCount := 25
  rBlocksCount := 0
  blocksPerGroup := 8
  groupsCount := 3
  preallocBlocks := 0
  blocksize := 1024
  inodesPerGroup := 8
  inodesCount := 24
  firstIno := 3

/-- One inode is free, in the given group. -/
def oneFreeInode (group : Nat) : Fs where
  blockBitmap := fun _ _ => false
  inodeBitmap := fun g j => !decide (g = group ∧ j = 5)
  bgFreeBlocksCount := fun _ => 8
  bgFreeInodesCount := fun g => if g = group then 1 else 0
  bgUsedDirsCount := fun _ => 0
  sFreeBlocksCount := 24
  sFreeInodesCount := 1

/-- From a parent in the first group, which is full, the free inode of the middle one is found. -/
theorem new_inode_correct_middle : NewInodeCorrect threeGroups false false 0 (oneFreeInode 1) :=
  (new_inode_correct_iff ⟨by decide, by decide, by decide, by decide⟩ (by decide)).2
    (.inr (.inl (by decide)))

/-- From a parent in the last of three groups it is not. -/
theorem last_group_enospc :
    (ext2NewInode threeGroups false false 2 (oneFreeInode 1)).map (fun r => r.1) =
      some (.error .enospc) ∧ (oneFreeInode 1).bgFreeInodesCount 1 = 1 ∧
      (oneFreeInode 1).CountsInodes threeGroups :=
  ⟨by decide +kernel, rfl, ⟨by decide, by decide, by decide, by decide⟩⟩

/-- An inode is freed while all but one are in use. -/
theorem inodes_apart_freed : ∃ y : Inodes,
    Exec (Inodes.step threeGroups) anyStep ⟨oneFreeInode 1, (· ≠ 14)⟩ [.free false 20] [] y ∧
      y.Ok threeGroups := by
  have hbits : ∀ ino < 25, (oneFreeInode 1).inUse threeGroups ino =
      (decide (ino < 3) || decide (ino ≠ 14)) := by decide
  refine ⟨_, .single trivial rfl, ?_⟩
  exact (inodes_apart (x := ⟨oneFreeInode 1, (· ≠ 14)⟩) ⟨rfl, by decide, by decide, by decide⟩
    ⟨⟨by decide, by decide, by decide, by decide⟩, fun ino _ h => hbits ino (Nat.lt_succ_of_le h)⟩
    [.free false 20] (.single trivial rfl)).1

end PsxLinux.Ext2
