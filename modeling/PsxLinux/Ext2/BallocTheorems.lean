import PsxLinux.Ext2.Balloc

/-!
# Block allocation: one call

What one call of the block allocator does to a file system whose counters agree with its bitmaps.
The searches end at a clear bit, whatever way they take; the bits behind a group are set, so the
bit stands for a block. A range is freed by clearing exactly its bits.
-/

namespace PsxLinux.Ext2

open Lib Function Bitmap

/-! ## Block numbers -/

section Numbers
variable {s : Super} {g g' i j n b : Nat}

lemma blockNr_mem_iff (hi : i < s.blocksPerGroup) (hn : j + n ≤ s.blocksPerGroup) :
    s.blockNr g' j ≤ s.blockNr g i ∧ s.blockNr g i < s.blockNr g' j + n ↔
      g = g' ∧ j ≤ i ∧ i < j + n := by
  unfold Super.blockNr
  constructor
  · intro h
    have heq : g = g' := by
      rcases Nat.lt_trichotomy g g' with hlt | heq | hlt
      · have hmul : (g + 1) * s.blocksPerGroup ≤ g' * s.blocksPerGroup :=
          Nat.mul_le_mul_right _ hlt
        rw [Nat.succ_mul] at hmul
        omega
      · exact heq
      · have hmul : (g' + 1) * s.blocksPerGroup ≤ g * s.blocksPerGroup :=
          Nat.mul_le_mul_right _ hlt
        rw [Nat.succ_mul] at hmul
        omega
    subst heq
    omega
  · rintro ⟨rfl, h⟩
    omega

lemma blockNr_div_mod (hb : s.firstDataBlock ≤ b) :
    s.blockNr ((b - s.firstDataBlock) / s.blocksPerGroup)
      ((b - s.firstDataBlock) % s.blocksPerGroup) = b := by
  have h := Nat.mod_add_div (b - s.firstDataBlock) s.blocksPerGroup
  rw [Nat.mul_comm] at h
  unfold Super.blockNr
  omega

lemma groupBlocks_le : s.groupBlocks g ≤ s.blocksPerGroup := Nat.min_le_left _ _

/-- The bits of a group below its number of blocks are the blocks of the file system. -/
lemma inZone_blockNr_iff (hi : i < s.blocksPerGroup) :
    s.InZone (s.blockNr g i) ↔ i < s.groupBlocks g := by
  unfold Super.InZone Super.blockNr Super.groupBlocks
  omega

lemma used_blockNr (fs : Fs) (hi : i < s.blocksPerGroup) :
    fs.used s (s.blockNr g i) = fs.blockBitmap g i := by
  have hsub : s.blockNr g i - s.firstDataBlock = i + s.blocksPerGroup * g := by
    rw [Super.blockNr, Nat.mul_comm]
    omega
  have hpos : 0 < s.blocksPerGroup := by omega
  rw [Fs.used, hsub, Nat.add_mul_div_left _ _ hpos, Nat.div_eq_of_lt hi, Nat.zero_add,
    Nat.add_mul_mod_self_left, Nat.mod_eq_of_lt hi]

lemma group_lt (hl : s.Layout) (hb : s.InZone b) :
    (b - s.firstDataBlock) / s.blocksPerGroup < s.groupsCount := by
  have hpos := hl.perGroup.1
  have hround := @Nat.lt_div_mul_add (s.blocksCount - s.firstDataBlock + s.blocksPerGroup - 1)
    s.blocksPerGroup hpos
  obtain ⟨hfirst, hlast⟩ := hb
  rw [hl.groups, Nat.div_lt_iff_lt_mul hpos]
  omega

lemma exists_blockNr (hl : s.Layout) (hb : s.InZone b) :
    ∃ g i, g < s.groupsCount ∧ i < s.groupBlocks g ∧ b = s.blockNr g i := by
  have hbit := Nat.mod_lt (b - s.firstDataBlock) hl.perGroup.1
  have heq := blockNr_div_mod hb.1
  refine ⟨_, _, group_lt hl hb, ?_, heq.symm⟩
  exact (inZone_blockNr_iff hbit).1 (heq.symm ▸ hb)

/-- The groups share the blocks of the zone. -/
lemma sum_groupBlocks_le (s : Super) (c : Nat) :
    ∑ g ∈ Finset.range c, s.groupBlocks g ≤ min (c * s.blocksPerGroup)
      (s.blocksCount - s.firstDataBlock) := by
  induction c with
  | zero => simp
  | succ c ih =>
    rw [Finset.sum_range_succ, Nat.succ_mul, Super.groupBlocks]
    omega

end Numbers

/-! ## Searching -/

section Searching
variable {s : Super} {map : Bitmap} {i j k n r : Nat}

lemma searchBack_clear (hj : map j = false) :
    map (searchBack map k j) = false ∧ searchBack map k j ≤ j := by
  induction k generalizing j with
  | zero => exact ⟨hj, Nat.le_refl j⟩
  | succ k ih =>
    rw [searchBack]
    split
    case isTrue h =>
      obtain ⟨hclear, hle⟩ := ih h.2
      exact ⟨hclear, by omega⟩
    case isFalse => exact ⟨hj, Nat.le_refl j⟩

/-- From a byte that `memscan` has found, back to the start of its clear bits. -/
lemma searchBack_memscan {p size : Nat} (h : memscan map p size < p + size) :
    map (searchBack map 7 (memscan map p size * 8)) = false ∧
      searchBack map 7 (memscan map p size * 8) < memscan map p size * 8 := by
  rcases memscan_cases map p size with ⟨q, -, -, hzero, heq⟩ | heq
  · have hlast : map ((q + 1) * 8 - 1) = false := by
      have h := byteZero_clear hzero (by omega : 7 < 8)
      rwa [show 8 * q + 7 = (q + 1) * 8 - 1 by omega] at h
    rw [heq, searchBack, if_pos ⟨by omega, hlast⟩]
    obtain ⟨hclear, hle⟩ := @searchBack_clear map _ 6 hlast
    exact ⟨hclear, by omega⟩
  · omega

/-- The bits of a bitmap block beyond `n` are set. -/
def PaddedFrom (s : Super) (map : Bitmap) (n : Nat) : Prop :=
  ∀ i, n ≤ i → i < 8 * s.blocksize → map i

lemma PaddedFrom.lt (hpad : PaddedFrom s map n) (hclear : map i = false)
    (hi : i < 8 * s.blocksize) : i < n := by
  by_contra h
  rw [hpad i (Nat.le_of_not_lt h) hi] at hclear
  cases hclear

/-- The search near the goal finds a clear bit of the group. -/
lemma searchGoal_clear (hl : s.Layout) (hpad : PaddedFrom s map n) (hj : j < s.blocksPerGroup)
    (h : searchGoal s map j = some r) : map r = false ∧ r < n := by
  have hfits := hl.fits
  have hsize := hl.blocksize
  have hmod := hl.perGroup.2
  suffices hfound : map r = false ∧ r < 8 * s.blocksize by
    exact ⟨hfound.1, hpad.lt hfound.1 hfound.2⟩
  unfold searchGoal at h
  split at h
  case isTrue hclear =>
    cases h
    exact ⟨hclear, by omega⟩
  case isFalse =>
    dsimp only at h
    generalize hj' : (if j ≠ 0 then findNextZeroBit map ((j + 63) / 64 * 64) j else j) = j' at h
    split at h
    case isTrue hwindow =>
      cases h
      rw [if_pos hwindow.1] at hj'
      have hlt : findNextZeroBit map ((j + 63) / 64 * 64) j < (j + 63) / 64 * 64 := by
        rw [hj']
        exact hwindow.2
      have hclear := findNextZeroBit_clear hlt
      rw [hj'] at hclear hlt
      exact ⟨hclear, by omega⟩
    case isFalse hwindow =>
      -- the search goes on at the end of the window
      split at h
      case isTrue hbyte =>
        cases h
        obtain ⟨hclear, hlt⟩ := @searchBack_memscan map (j' / 8)
          ((s.blocksPerGroup + 2 ^ 32 - j' + 7) % 2 ^ 32 / 8) (by omega)
        exact ⟨hclear, by omega⟩
      case isFalse =>
        split at h
        case isTrue hrest =>
          cases h
          exact ⟨findNextZeroBit_clear hrest, by omega⟩
        case isFalse => cases h

lemma searchGroup_clear (hl : s.Layout) (h : searchGroup s map = some r) :
    map r = false ∧ r < s.blocksPerGroup := by
  have hmod := hl.perGroup.2
  unfold searchGroup at h
  dsimp only at h
  split at h
  case isTrue hbyte =>
    cases h
    obtain ⟨hclear, hlt⟩ := @searchBack_memscan map 0 (s.blocksPerGroup / 8) (by omega)
    exact ⟨hclear, by omega⟩
  case isFalse =>
    split at h
    case isTrue hrest =>
      cases h
      exact ⟨findFirstZeroBit_clear hrest, hrest⟩
    case isFalse => cases h

lemma searchGroup_ne_none (hclear : map i = false) (hi : i < s.blocksPerGroup) :
    searchGroup s map ≠ none := by
  unfold searchGroup
  dsimp only
  split
  · exact nofun
  · have hlt : findFirstZeroBit map s.blocksPerGroup < s.blocksPerGroup := by
      by_contra h
      have hset := @findFirstZeroBit_set map s.blocksPerGroup i (by omega)
      rw [hclear] at hset
      cases hset
    rw [if_pos hlt]
    exact nofun

variable {c : Nat}

lemma next_eq_mod (hi : i < c) : (if i + 1 ≥ c then 0 else i + 1) = (i + 1) % c := by
  split
  case isTrue h => rw [show i + 1 = c by omega, Nat.mod_self]
  case isFalse h => exact (Nat.mod_eq_of_lt (by omega)).symm

variable {free : Nat → Nat}

lemma nextGroup_some {g : Nat} (hc : 0 < c)
    (h : nextGroup c free k i = some g) : g < c ∧ 0 < free g := by
  induction k generalizing i with
  | zero => cases h
  | succ k ih =>
    rw [nextGroup] at h
    generalize hnext : (if i + 1 ≥ c then 0 else i + 1) = i' at h
    have hlt : i' < c := by
      rw [← hnext]
      split <;> omega
    split at h
    case isTrue hfree =>
      cases h
      exact ⟨hlt, hfree⟩
    case isFalse => exact ih h

lemma nextGroup_none {m : Nat} (hi : i < c) (h : nextGroup c free k i = none) (hm : 0 < m)
    (hk : m ≤ k) : free ((i + m) % c) = 0 := by
  induction k generalizing i m with
  | zero => omega
  | succ k ih =>
    simp only [nextGroup, next_eq_mod hi] at h
    have hlt := Nat.mod_lt (i + 1) (by omega : 0 < c)
    split at h
    case isTrue => cases h
    case isFalse hfree =>
      by_cases hone : m = 1
      · subst hone
        omega
      · have hrest := ih hlt h (by omega : 0 < m - 1) (by omega)
        rwa [Nat.mod_add_mod, show i + 1 + (m - 1) = i + m by omega] at hrest

lemma nextGroup_none_all {g : Nat} (hi : i < c) (h : nextGroup c free c i = none)
    (hg : g < c) : free g = 0 := by
  by_cases hle : g ≤ i
  · have hfree := nextGroup_none hi h (by omega : 0 < g + c - i) (by omega)
    rwa [show i + (g + c - i) = g + c by omega, Nat.add_mod_right, Nat.mod_eq_of_lt hg] at hfree
  · have hfree := nextGroup_none hi h (by omega : 0 < g - i) (by omega)
    rwa [show i + (g - i) = g by omega, Nat.mod_eq_of_lt hg] at hfree

end Searching

/-! ## Counters -/

variable {v : Bool}

section Counters
variable {s : Super} {fs fs' : Fs} {map : Bitmap} {b g i j k n : Nat}

section
variable (hc : fs.CountsBlocks s)
include hc

lemma Fs.CountsBlocks.group_lt (hl : s.Layout) (hg : g < s.groupsCount) :
    fs.bgFreeBlocksCount g < 2 ^ 16 := by
  have hle := zeros_le (fs.blockBitmap g) (s.groupBlocks g)
  have hgroup := @groupBlocks_le s g
  have hfits := hl.fits
  have hsize := hl.blocksize.2
  rw [hc.group g hg]
  omega

lemma Fs.CountsBlocks.total_lt (hl : s.Layout) : fs.sFreeBlocksCount < 2 ^ 32 := by
  have hgroups : ∑ g ∈ Finset.range s.groupsCount, fs.bgFreeBlocksCount g ≤
      ∑ g ∈ Finset.range s.groupsCount, s.groupBlocks g := by
    apply Finset.sum_le_sum
    intro g hg
    rw [hc.group g (Finset.mem_range.1 hg)]
    exact zeros_le _ _
  have hsum := sum_groupBlocks_le s s.groupsCount
  have hzone := hl.zone
  rw [hc.total]
  omega

lemma Fs.CountsBlocks.group_le_total (hg : g < s.groupsCount) :
    fs.bgFreeBlocksCount g ≤ fs.sFreeBlocksCount := by
  rw [hc.total]
  exact le_sum_range hg

/-- One group's bitmap changes, and the counters by the same number. -/
lemma Fs.CountsBlocks.change (hg : g < s.groupsCount) (map : Bitmap)
    {v w : Nat}
    (hv : v = map.zeros (s.groupBlocks g))
    (hw : w + fs.bgFreeBlocksCount g = fs.sFreeBlocksCount + v) :
    Fs.CountsBlocks s { fs with
      blockBitmap := update fs.blockBitmap g map
      bgFreeBlocksCount := update fs.bgFreeBlocksCount g v
      sFreeBlocksCount := w } where
  group := by
    intro g' hg'
    dsimp only
    by_cases heq : g' = g
    · subst heq
      rw [update_self, update_self, hv]
    · rw [update_of_ne heq, update_of_ne heq, hc.group g' hg']
  total := by
    have hsum := @sum_update_add fs.bgFreeBlocksCount g s.groupsCount v hg
    have htotal := hc.total
    dsimp only
    omega

lemma Fs.CountsBlocks.takeBlocks (hl : s.Layout) (hg : g < s.groupsCount)
    (hn : j + n ≤ s.groupBlocks g) (hclear : ∀ i, j ≤ i → i < j + n → fs.blockBitmap g i = false) :
    (fs.takeBlocks g ((fs.blockBitmap g).setRun j n) n).CountsBlocks s := by
  have hzeros := zeros_setRun hn hclear
  have hgroup := hc.group g hg
  have hle := hc.group_le_total hg
  have hlt := hc.group_lt hl hg
  have htotal := hc.total_lt hl
  apply hc.change hg
  · rw [subWrap_of_le hlt (by omega)]
    omega
  · rw [subWrap_of_le hlt (by omega), subWrap_of_le htotal (by omega)]
    omega

end

lemma takeBlocks_takeBlocks {map' : Bitmap} {n' : Nat}
    (hgroup : n + n' ≤ fs.bgFreeBlocksCount g ∧ fs.bgFreeBlocksCount g < 2 ^ 16)
    (htotal : n + n' ≤ fs.sFreeBlocksCount ∧ fs.sFreeBlocksCount < 2 ^ 32) :
    (fs.takeBlocks g map n).takeBlocks g map' n' = fs.takeBlocks g map' (n + n') := by
  unfold Fs.takeBlocks
  dsimp only
  rw [update_self, update_idem, update_idem,
    subWrap_of_le hgroup.2 (by omega), subWrap_of_le htotal.2 (by omega),
    subWrap_of_le (by omega) (by omega),
    subWrap_of_le (by omega) (by omega), subWrap_of_le hgroup.2 hgroup.1,
    subWrap_of_le htotal.2 htotal.1, Nat.sub_sub, Nat.sub_sub]

/-! ## Marked ranges -/

/-- The bits of the blocks `[b, b + n)` are written, and no others. -/
def Fs.Marks (s : Super) (fs fs' : Fs) (b n : Nat) (v : Bool) : Prop :=
  ∀ g i, fs'.blockBitmap g i =
    if i < s.blocksPerGroup ∧ b ≤ s.blockNr g i ∧ s.blockNr g i < b + n then v
    else fs.blockBitmap g i

lemma Fs.Marks.used (h : fs.Marks s fs' b n v) (hl : s.Layout) {x : Nat}
    (hx : s.firstDataBlock ≤ x) :
    fs'.used s x = if b ≤ x ∧ x < b + n then v else fs.used s x := by
  have hbit := Nat.mod_lt (x - s.firstDataBlock) hl.perGroup.1
  unfold Fs.used
  rw [h, blockNr_div_mod hx]
  simp only [hbit, true_and]

lemma Fs.Marks.padded (h : fs.Marks s fs' b n v) (hpad : fs.Padded s)
    (hzone : ∀ x, b ≤ x → x < b + n → s.InZone x) : fs'.Padded s := by
  intro g i hg hle hlt
  rw [h]
  split
  case isTrue hmem =>
    have hin := (inZone_blockNr_iff hmem.1).1 (hzone _ hmem.2.1 hmem.2.2)
    omega
  case isFalse => exact hpad g i hg hle hlt

lemma Fs.Marks.trans {b₁ n₁ n₂ : Nat} {fs₁ fs₂ : Fs} (h₁ : fs.Marks s fs₁ b₁ n₁ v)
    (h₂ : fs₁.Marks s fs₂ (b₁ + n₁) n₂ v) : fs.Marks s fs₂ b₁ (n₁ + n₂) v := by
  intro g i
  rw [h₂, h₁]
  split
  case isTrue h => rw [if_pos (by omega)]
  case isFalse h =>
    split
    case isTrue h' => rw [if_pos (by omega)]
    case isFalse h' => rw [if_neg (by omega)]

lemma Fs.Marks.refl : fs.Marks s fs b 0 v := by
  intro g i
  rw [if_neg (by omega)]

lemma marks_update {map' : Bitmap} (hn : j + n ≤ s.blocksPerGroup)
    (h : fs'.blockBitmap = update fs.blockBitmap g map')
    (hmap : ∀ i, map' i = if j ≤ i ∧ i < j + n then v else fs.blockBitmap g i) :
    fs.Marks s fs' (s.blockNr g j) n v := by
  intro g' i
  have hmem : i < s.blocksPerGroup ∧ s.blockNr g j ≤ s.blockNr g' i ∧
      s.blockNr g' i < s.blockNr g j + n ↔ g' = g ∧ j ≤ i ∧ i < j + n := by
    by_cases hi : i < s.blocksPerGroup
    · rw [and_iff_right hi]
      exact blockNr_mem_iff hi hn
    · omega
  simp only [hmem, h, update_apply]
  by_cases hg : g' = g
  · subst hg
    simp only [if_true, true_and, hmap]
  · simp [hg]

lemma marks_takeBlocks (hn : j + n ≤ s.blocksPerGroup) (c : Nat) :
    fs.Marks s (fs.takeBlocks g ((fs.blockBitmap g).setRun j n) c) (s.blockNr g j) n true := by
  apply marks_update hn rfl
  intro i
  by_cases h : j ≤ i ∧ i < j + n
  · simp [setRun, h]
  · simp [setRun, h]

end Counters

/-! ## `ext2_new_block` -/

section NewBlock
variable {s : Super} {fs : Fs} {map : Bitmap} {b g i j k n goal : Nat}

lemma searchBlock_ok (hl : s.Layout) (hpad : fs.Padded s) (h : searchBlock s goal fs = .ok (i, j)) :
    i < s.groupsCount ∧ fs.blockBitmap i j = false ∧ j < s.groupBlocks i := by
  have hfits := hl.fits
  unfold searchBlock at h
  dsimp only at h
  generalize (if goal < s.firstDataBlock ∨ goal ≥ s.blocksCount then s.firstDataBlock
    else goal) = b at h
  split at h
  case isTrue => cases h
  case isFalse hi =>
    have hi := Nat.lt_of_not_le hi
    split at h
    case h_1 j' hnear =>
      obtain ⟨rfl, rfl⟩ := Prod.mk.inj (Except.ok.inj h)
      split at hnear
      case isTrue =>
        have hbit := Nat.mod_lt (b - s.firstDataBlock) hl.perGroup.1
        exact ⟨hi, searchGoal_clear hl (fun x => hpad _ x hi) hbit hnear⟩
      case isFalse => cases hnear
    case h_2 =>
      split at h
      case h_1 => cases h
      case h_2 g hnext =>
        split at h
        case h_1 => cases h
        case h_2 j' hgroup =>
          obtain ⟨rfl, rfl⟩ := Prod.mk.inj (Except.ok.inj h)
          have hg := (nextGroup_some (Nat.zero_lt_of_lt hi) hnext).1
          obtain ⟨hclear, hlt⟩ := searchGroup_clear hl hgroup
          exact ⟨hg, hclear, PaddedFrom.lt (fun x => hpad _ x hg) hclear (by omega)⟩

/-- The search fails only where every block is in use. -/
lemma searchBlock_error (hl : s.Layout) (hc : fs.CountsBlocks s) {e : Errno}
    (h : searchBlock s goal fs = .error e) :
    e = .enospc ∧ ∀ b, s.InZone b → fs.used s b := by
  unfold searchBlock at h
  generalize hb : (if goal < s.firstDataBlock ∨ goal ≥ s.blocksCount then s.firstDataBlock
    else goal) = b at h
  have hzone : s.InZone b := by
    have hfirst := hl.zone.1
    rw [← hb]
    split <;> constructor <;> omega
  have hi := group_lt hl hzone
  rw [if_neg (Nat.not_le_of_lt hi)] at h
  split at h
  case h_1 => cases h
  case h_2 =>
    split at h
    case h_1 hnext =>
      refine ⟨(Except.error.inj h).symm, fun x hx => ?_⟩
      obtain ⟨g, bit, hg, hbit, rfl⟩ := exists_blockNr hl hx
      rw [used_blockNr fs (Nat.lt_of_lt_of_le hbit groupBlocks_le)]
      by_contra hclear
      have hpos := zeros_pos_iff.2 ⟨bit, hbit, Bool.not_eq_true _ ▸ hclear⟩
      rw [← hc.group g hg, nextGroup_none_all hi hnext hg] at hpos
      exact absurd hpos (Nat.lt_irrefl 0)
    case h_2 g hnext =>
      obtain ⟨hg, hfree⟩ := nextGroup_some (Nat.zero_lt_of_lt hi) hnext
      rw [hc.group g hg] at hfree
      obtain ⟨bit, hbit, hclear⟩ := zeros_pos_iff.1 hfree
      split at h
      case h_1 hnone =>
        exact absurd hnone (searchGroup_ne_none hclear (Nat.lt_of_lt_of_le hbit groupBlocks_le))
      case h_2 => cases h

lemma preallocLoop_spec {pb count next : Nat} (hnext : pb + count = next) :
    ∃ k, preallocLoop n pb i b next count map = (count + k, map.setRun b k) ∧ k ≤ i ∧
      ∀ x, b ≤ x → x < b + k → map x = false ∧ x < n := by
  induction i generalizing b next count map with
  | zero =>
    refine ⟨0, ?_, Nat.le_refl 0, fun x hb hx => by omega⟩
    rw [setRun_zero]
    rfl
  | succ i ih =>
    -- the loop ends here, or takes the bit `b` and goes on
    have hstop : ∃ k, (count, map) = (count + k, map.setRun b k) ∧ k ≤ i + 1 ∧
        ∀ x, b ≤ x → x < b + k → map x = false ∧ x < n := by
      refine ⟨0, ?_, Nat.zero_le _, fun x hb hx => by omega⟩
      rw [setRun_zero, Nat.add_zero]
    rw [preallocLoop]
    split
    case isFalse => exact hstop
    case isTrue hb =>
      split
      case isTrue => exact hstop
      case isFalse hfree =>
        have hclear : map b = false := by simpa using (not_or.1 hfree).2
        obtain ⟨k, heq, hk, hrun⟩ := @ih (map.write b true) (b + 1) (count + 1) (next + 1)
          (by omega)
        refine ⟨k + 1, ?_, by omega, ?_⟩
        · rw [heq, ← setRun_one, setRun_setRun, Nat.add_comm 1 k]
          congr 1
          omega
        · intro x hx hlt
          by_cases hxb : x = b
          · rw [hxb]
            exact ⟨hclear, hb⟩
          · obtain ⟨hfree', hn⟩ := hrun x (by omega) (by omega)
            rw [write_of_ne true hxb] at hfree'
            exact ⟨hfree', hn⟩

/-- The window after a block has been taken with `k` blocks behind it. -/
def windowAfter (window : Option Window) (b k : Nat) : Option Window :=
  match window with
  | some ⟨0, _⟩ => some ⟨k, b + 1⟩
  | w => w

section

variable (hl : s.Layout) (hpad : fs.Padded s) (hg : g < s.groupsCount)
  (hclear : fs.blockBitmap g j = false) (hj : j < s.groupBlocks g) (window : Option Window)
include hl hpad hg hclear hj

/-- Blocks are preallocated only into an empty window, and they are free blocks of the group. -/
lemma preallocate_spec :
    ∃ k, preallocate s window g j b fs =
        (fs.takeBlocks g ((fs.blockBitmap g).setRun j (k + 1)) k, windowAfter window b k) ∧
      k < 2 ^ 8 ∧ (k = 0 ∨ ∃ x, window = some ⟨0, x⟩) ∧
      ∀ x, j ≤ x → x < j + (k + 1) → fs.blockBitmap g x = false ∧ x < s.groupBlocks g := by
  have hone : ∀ x, j ≤ x → x < j + (0 + 1) → fs.blockBitmap g x = false ∧ x < s.groupBlocks g := by
    intro x hx hlt
    rw [show x = j by omega]
    exact ⟨hclear, hj⟩
  match window with
  | none =>
    refine ⟨0, ?_, by decide, .inl rfl, hone⟩
    rw [setRun_one]
    rfl
  | some ⟨c + 1, x⟩ =>
    refine ⟨0, ?_, by decide, .inl rfl, hone⟩
    rw [setRun_one]
    rfl
  | some ⟨0, x⟩ =>
    obtain ⟨k, heq, hk, hrun⟩ := @preallocLoop_spec ((fs.blockBitmap g).write j true) (j + 1)
      ((if s.preallocBlocks ≠ 0 then s.preallocBlocks else defaultPreallocBlocks) - 1)
      s.blocksPerGroup (b + 1) 0 (b + 1) rfl
    refine ⟨k, ?_, ?_, .inr ⟨x, rfl⟩, ?_⟩
    · simp only [preallocate, heq, windowAfter, Nat.zero_add]
      rw [← setRun_one, setRun_setRun, Nat.add_comm 1 k]
    · have hbyte := hl.prealloc
      simp only [defaultPreallocBlocks] at hk
      split at hk <;> omega
    · intro y hy hlt
      by_cases hyj : y = j
      · rw [hyj]
        exact ⟨hclear, hj⟩
      · obtain ⟨hfree, hn⟩ := hrun y (by omega) (by omega)
        rw [write_of_ne true hyj] at hfree
        have hfits := hl.fits
        exact ⟨hfree, PaddedFrom.lt (fun z => hpad g z hg) hfree (by omega)⟩

/-- The block and its preallocation are one run of free blocks of the group. -/
lemma takeBlock_spec (hc : fs.CountsBlocks s) :
    ∃ k, takeBlock s window g j fs =
        ⟨s.blockNr g j, none, fs.takeBlocks g ((fs.blockBitmap g).setRun j (k + 1)) (k + 1),
          windowAfter window (s.blockNr g j) k⟩ ∧
      k < 2 ^ 8 ∧ (k = 0 ∨ ∃ x, window = some ⟨0, x⟩) ∧
      ∀ x, j ≤ x → x < j + (k + 1) → fs.blockBitmap g x = false ∧ x < s.groupBlocks g := by
  obtain ⟨k, heq, hk, hwindow, hrun⟩ :=
    preallocate_spec (b := s.blockNr g j) hl hpad hg hclear hj window
  refine ⟨k, ?_, hk, hwindow, hrun⟩
  have hzone := (inZone_blockNr_iff (Nat.lt_of_lt_of_le hj groupBlocks_le)).2 hj
  have hlast := (hrun (j + k) (by omega) (by omega)).2
  have hzeros := @Bitmap.zeros_setRun (fs.blockBitmap g) (s.groupBlocks g) j (k + 1) (by omega)
    fun x hx hlt => (hrun x hx hlt).1
  have hgroup := hc.group g hg
  have htotal := hc.group_le_total hg
  simp only [takeBlock, heq]
  rw [if_neg (Nat.not_le_of_lt hzone.2)]
  -- the two changes of the counters as one
  rw [takeBlocks_takeBlocks ⟨by omega, hc.group_lt hl hg⟩ ⟨by omega, hc.total_lt hl⟩]
  simp [Fs.takeBlocks]

end

/-- What a successful call has done: a run of free blocks is marked, the first of them is returned
and the others are the window, if an empty one was passed. -/
structure Taken (s : Super) (window : Option Window) (fs : Fs) (r : NewBlock) (k : Nat) : Prop where
  err : r.err = none
  zone : ∀ x, r.block ≤ x → x < r.block + (k + 1) → s.InZone x ∧ fs.used s x = false
  marks : fs.Marks s r.fs r.block (k + 1) true
  counts : r.fs.CountsBlocks s
  small : k < 2 ^ 8
  empty : k = 0 ∨ ∃ x, window = some ⟨0, x⟩
  window : r.window = windowAfter window r.block k

/-- `ext2_new_block` returns: with a run of free blocks taken, or unchanged with `ENOSPC` because
no block is free or the free ones are reserved. -/
lemma ext2NewBlock_spec (hl : s.Layout) (hpad : fs.Padded s) (hc : fs.CountsBlocks s)
    (privileged : Bool) (goal : Nat) (window : Option Window) :
    ∃ r, ext2NewBlock s privileged goal window fs = some r ∧
      ((∃ k, Taken s window fs r k) ∨
        r = ⟨0, some .enospc, fs, window⟩ ∧
          ((∀ b, s.InZone b → fs.used s b) ∨
            fs.sFreeBlocksCount ≤ s.rBlocksCount ∧ privileged = false)) := by
  unfold ext2NewBlock
  split
  case isTrue hreserved => exact ⟨_, rfl, .inr ⟨rfl, .inr hreserved⟩⟩
  case isFalse =>
    split
    case h_1 e herror =>
      obtain ⟨rfl, hfull⟩ := searchBlock_error hl hc herror
      exact ⟨_, rfl, .inr ⟨rfl, .inl hfull⟩⟩
    case h_2 g j hok =>
      obtain ⟨hg, hclear, hj⟩ := searchBlock_ok hl hpad hok
      obtain ⟨k, heq, hk, hwindow, hrun⟩ := takeBlock_spec hl hpad hg hclear hj window hc
      have hlast := (hrun (j + k) (by omega) (by omega)).2
      have hper := @groupBlocks_le s g
      rw [if_neg (by simp [hclear]), heq]
      refine ⟨_, rfl, .inl ⟨k, rfl, ?_, ?_, ?_, hk, hwindow, rfl⟩⟩
      · intro x hx hlt
        -- block `x` is bit `j + (x - b)` of the group
        obtain ⟨d, rfl⟩ := Nat.exists_eq_add_of_le hx
        have hbit : s.blockNr g j + d = s.blockNr g (j + d) := by
          unfold Super.blockNr
          omega
        obtain ⟨hfree, hin⟩ := hrun (j + d) (by omega) (by omega)
        rw [hbit]
        exact ⟨(inZone_blockNr_iff (by omega)).2 hin, (used_blockNr fs (by omega)).trans hfree⟩
      · exact marks_takeBlocks (by omega) _
      · exact hc.takeBlocks hl hg (by omega) fun x hx hlt => (hrun x hx hlt).1

end NewBlock

/-! ## `ext2_free_blocks` -/

section Free
variable {s : Super} {fs : Fs} {b bit g n : Nat}

section

variable (hl : s.Layout) (hc : fs.CountsBlocks s)
include hl hc

lemma freeBit_spec (hg : g < s.groupsCount)
    (hbit : bit < s.groupBlocks g) (hset : fs.blockBitmap g bit) :
    (freeBit g bit fs).CountsBlocks s ∧
      fs.Marks s (freeBit g bit fs) (s.blockNr g bit) 1 false := by
  have hper := @groupBlocks_le s g
  unfold freeBit
  rw [if_neg (by simp [hset])]
  refine ⟨?_, marks_update (by omega) rfl fun i => ?_⟩
  swap
  · rw [write_apply]
    exact if_congr (by omega) rfl rfl
  have hzeros := zeros_clear hbit hset
  have hgroup := hc.group g hg
  have hbound := zeros_le ((fs.blockBitmap g).write bit false) (s.groupBlocks g)
  have hfits := hl.fits
  have hsize := hl.blocksize.2
  have hcount : addWrap 16 (fs.bgFreeBlocksCount g) 1 = fs.bgFreeBlocksCount g + 1 :=
    addWrap_of_lt (by omega)
  -- the sum with the group's new counter is still below the number of blocks
  have htotal : addWrap 32 fs.sFreeBlocksCount 1 = fs.sFreeBlocksCount + 1 := by
    apply addWrap_of_lt
    have hnew := hc.change hg ((fs.blockBitmap g).write bit false)
      (v := fs.bgFreeBlocksCount g + 1) (w := fs.sFreeBlocksCount + 1) (by omega) (by omega)
    exact hnew.total_lt hl
  exact hc.change hg _ (by omega) (by omega)

lemma freeBits_spec (hg : g < s.groupsCount) (hn : bit + n ≤ s.groupBlocks g)
    (hset : ∀ x, bit ≤ x → x < bit + n → fs.blockBitmap g x) :
    (freeBits g n bit fs).CountsBlocks s ∧
      fs.Marks s (freeBits g n bit fs) (s.blockNr g bit) n false := by
  induction n generalizing bit fs with
  | zero => exact ⟨hc, .refl⟩
  | succ n ih =>
    obtain ⟨hc₁, hmarks₁⟩ := freeBit_spec hl hc hg (by omega) (hset bit (by omega) (by omega))
    have hset₁ : ∀ x, bit + 1 ≤ x → x < bit + 1 + n →
        (freeBit g bit fs).blockBitmap g x := by
      intro x hx hlt
      rw [hmarks₁, if_neg]
      · exact hset x (by omega) (by omega)
      · rintro ⟨hi, hmem⟩
        have := ((blockNr_mem_iff hi (by omega)).1 hmem).2
        omega
    obtain ⟨hc₂, hmarks₂⟩ := ih hc₁ (by omega) hset₁
    refine ⟨hc₂, ?_⟩
    have hnext : s.blockNr g (bit + 1) = s.blockNr g bit + 1 := by
      unfold Super.blockNr
      omega
    rw [hnext] at hmarks₂
    have hmarks := hmarks₁.trans hmarks₂
    rwa [Nat.add_comm 1 n] at hmarks

/-- A range of blocks in use, freed group by group. -/
lemma freeGroups_spec {fuel : Nat} (hfuel : n < fuel)
    (hused : ∀ x, b ≤ x → x < b + n → s.InZone x ∧ fs.used s x) :
    (freeGroups s fuel b n fs).CountsBlocks s ∧
      fs.Marks s (freeGroups s fuel b n fs) b n false := by
  induction fuel generalizing b n fs with
  | zero => omega
  | succ fuel ih =>
    by_cases hn : n = 0
    · -- nothing to free
      subst hn
      have hpos := Nat.mod_lt (b - s.firstDataBlock) hl.perGroup.1
      have heq : freeGroups s (fuel + 1) b 0 fs = fs := by
        simp only [freeGroups]
        rw [if_neg (by omega), Nat.zero_sub]
        rfl
      rw [heq]
      exact ⟨hc, .refl⟩
    · obtain ⟨hzone, -⟩ := hused b (Nat.le_refl b) (by omega)
      have hg := group_lt hl hzone
      have hbit := Nat.mod_lt (b - s.firstDataBlock) hl.perGroup.1
      have hb := blockNr_div_mod hzone.1
      rw [freeGroups]
      generalize (b - s.firstDataBlock) / s.blocksPerGroup = g at hg hb ⊢
      generalize (b - s.firstDataBlock) % s.blocksPerGroup = bit at hbit hb ⊢
      generalize hover : bit + n - s.blocksPerGroup = overflow
      -- the bits of this group
      have hbits : ∀ x, bit ≤ x → x < bit + (n - overflow) →
          x < s.groupBlocks g ∧ fs.blockBitmap g x := by
        intro x hx hlt
        have hnr : s.blockNr g x = b + (x - bit) := by
          rw [← hb]
          unfold Super.blockNr
          omega
        obtain ⟨hin, hset⟩ := hused (s.blockNr g x) (by omega) (by omega)
        rw [used_blockNr fs (by omega)] at hset
        exact ⟨(inZone_blockNr_iff (by omega)).1 hin, hset⟩
      have hlast := (hbits (bit + (n - overflow) - 1) (by omega) (by omega)).1
      obtain ⟨hc₁, hmarks₁⟩ := freeBits_spec hl hc hg (by omega : bit + (n - overflow) ≤ _)
        fun x hx hlt => (hbits x hx hlt).2
      rw [hb] at hmarks₁
      split
      case isFalse hdone =>
        rw [show n - overflow = n by omega] at hc₁ hmarks₁ ⊢
        exact ⟨hc₁, hmarks₁⟩
      case isTrue hmore =>
        have hused₁ : ∀ x, b + (n - overflow) ≤ x → x < b + (n - overflow) + overflow →
            s.InZone x ∧ (freeBits g (n - overflow) bit fs).used s x := by
          intro x hx hlt
          obtain ⟨hin, hset⟩ := hused x (by omega) (by omega)
          refine ⟨hin, ?_⟩
          rw [hmarks₁.used hl hin.1, if_neg (by omega)]
          exact hset
        obtain ⟨hc₂, hmarks₂⟩ := ih hc₁ (by omega) hused₁
        have hmarks := hmarks₁.trans hmarks₂
        rw [show n - overflow + overflow = n by omega] at hmarks
        exact ⟨hc₂, hmarks⟩

/-- `ext2_free_blocks` of blocks in use clears exactly their bits. -/
lemma ext2FreeBlocks_spec (hused : ∀ x, b ≤ x → x < b + n → s.InZone x ∧ fs.used s x) :
    (ext2FreeBlocks s b n fs).CountsBlocks s ∧ fs.Marks s (ext2FreeBlocks s b n fs) b n false := by
  unfold ext2FreeBlocks
  split
  case isFalse => exact freeGroups_spec hl hc (Nat.lt_succ_self n) hused
  case isTrue hout =>
    -- only the empty range is outside
    have hn : n = 0 := by
      by_contra hn
      obtain ⟨hfirst, -⟩ := hused b (Nat.le_refl b) (by omega)
      obtain ⟨hlast, -⟩ := hused (b + n - 1) (by omega) (by omega)
      unfold Super.InZone at hfirst hlast
      omega
    rw [hn]
    exact ⟨hc, .refl⟩

end

end Free

end PsxLinux.Ext2
