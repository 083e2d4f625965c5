import PsxLinux.Ext2.Bitops

/-!
# Block groups

The part of an ext2 file system that its allocators work on: what the super block fixes at mount
time, and for each group the two bitmaps and the counters of its descriptor. Reads of bitmaps and
descriptors succeed, so the caches in front of them are left out.
-/

namespace PsxLinux.Ext2

open Lib

/-- What the super block says and no allocation changes. -/
structure Super where
  firstDataBlock : Nat
  blocksCount : Nat
  rBlocksCount : Nat
  blocksPerGroup : Nat
  groupsCount : Nat
  preallocBlocks : Nat
  blocksize : Nat
  inodesPerGroup : Nat
  inodesCount : Nat
  firstIno : Nat

/-- The bitmaps and counters of the groups, and the totals of the super block. -/
structure Fs where
  blockBitmap : Nat → Bitmap
  inodeBitmap : Nat → Bitmap
  bgFreeBlocksCount : Nat → Nat
  bgFreeInodesCount : Nat → Nat
  bgUsedDirsCount : Nat → Nat
  sFreeBlocksCount : Nat
  sFreeInodesCount : Nat

/-- The error codes of the allocators. -/
inductive Errno where
  | enospc
  | eio
deriving DecidableEq

def subWrap (w x n : Nat) : Nat := (x + 2 ^ w - n % 2 ^ w) % 2 ^ w

def addWrap (w x n : Nat) : Nat := (x + n) % 2 ^ w

lemma subWrap_of_le {w x n : Nat} (hx : x < 2 ^ w) (hn : n ≤ x) : subWrap w x n = x - n := by
  rw [subWrap, Nat.mod_eq_of_lt (Nat.lt_of_le_of_lt hn hx),
    show x + 2 ^ w - n = (x - n) + 2 ^ w by omega, Nat.add_mod_right]
  exact Nat.mod_eq_of_lt (by omega)

lemma addWrap_of_lt {w x n : Nat} (h : x + n < 2 ^ w) : addWrap w x n = x + n :=
  Nat.mod_eq_of_lt h

/-- The blocks of group `g`; the last group may be short. -/
def Super.groupBlocks (s : Super) (g : Nat) : Nat :=
  min s.blocksPerGroup (s.blocksCount - s.firstDataBlock - g * s.blocksPerGroup)

def Super.blockNr (s : Super) (g j : Nat) : Nat := j + g * s.blocksPerGroup + s.firstDataBlock

/-- A block is marked in its group's bitmap. -/
def Fs.used (s : Super) (fs : Fs) (b : Nat) : Bool :=
  fs.blockBitmap ((b - s.firstDataBlock) / s.blocksPerGroup)
    ((b - s.firstDataBlock) % s.blocksPerGroup)

def Super.InZone (s : Super) (b : Nat) : Prop := s.firstDataBlock ≤ b ∧ b < s.blocksCount

instance (s : Super) (b : Nat) : Decidable (s.InZone b) := inferInstanceAs (Decidable (_ ∧ _))

/-- Every counter is the number of clear bits of its group, and the total is their sum. -/
structure Fs.CountsBlocks (s : Super) (fs : Fs) : Prop where
  group : ∀ g, g < s.groupsCount →
    fs.bgFreeBlocksCount g = (fs.blockBitmap g).zeros (s.groupBlocks g)
  total : fs.sFreeBlocksCount = ∑ g ∈ Finset.range s.groupsCount, fs.bgFreeBlocksCount g

/-- The layout of the format: groups of whole bytes that fit in a bitmap block. -/
structure Super.Layout (s : Super) : Prop where
  zone : s.firstDataBlock < s.blocksCount ∧ s.blocksCount < 2 ^ 32
  perGroup : 0 < s.blocksPerGroup ∧ s.blocksPerGroup % 8 = 0
  blocksize : s.blocksize % 8 = 0 ∧ s.blocksize ≤ 4096
  fits : s.blocksPerGroup ≤ 8 * s.blocksize
  groups : s.groupsCount =
    (s.blocksCount - s.firstDataBlock + s.blocksPerGroup - 1) / s.blocksPerGroup
  prealloc : s.preallocBlocks < 2 ^ 8

/-- The bits of a bitmap block that stand for no block are set. -/
def Fs.Padded (s : Super) (fs : Fs) : Prop :=
  ∀ g i, g < s.groupsCount → s.groupBlocks g ≤ i → i < 8 * s.blocksize → fs.blockBitmap g i

end PsxLinux.Ext2
