import PsxLinux.Ext2.Balloc

/-!
# Inode allocation

`ext2_new_inode` and `ext2_free_inode` of `fs/ext2/ialloc.c`: the choice of a group for a directory
and for other inodes, and the bit in the group's bitmap. Memory for the inode is there, and the
parent directory is not deleted. The fields of the new inode other than its number and its group
are left out.
-/

namespace PsxLinux.Ext2

open Lib Function

/-! ## Choosing a group -/

/-- The group for a directory: of the groups with above-average free inodes, that with the most
free blocks, looked at from `j` on with `n` groups left. -/
def directoryGroup (fs : Fs) (avefreei : Nat) : Nat → Nat → Option Nat → Option Nat
  | 0, _, found => found
  | n + 1, j, found =>
    let found := if fs.bgFreeInodesCount j ≠ 0 ∧ fs.bgFreeInodesCount j ≥ avefreei ∧
        found.all (fun i => fs.bgFreeBlocksCount j > fs.bgFreeBlocksCount i)
      then some j else found
    directoryGroup fs avefreei n (j + 1) found

/-- "Use a quadratic hash to find a group with a free inode". `j` doubles in every turn, so
`groupsCount` turns are enough. -/
def quadraticHash (groupsCount : Nat) (free : Nat → Nat) : Nat → Nat → Nat → Option Nat
  | 0, _, _ => none
  | fuel + 1, i, j =>
    if j < groupsCount then
      let i := if i + j ≥ groupsCount then i + j - groupsCount else i + j
      if free i ≠ 0 then some i else quadraticHash groupsCount free fuel i (2 * j)
    else none

/-- The group for an inode that is not a directory, with the parent directory in group `parent`. -/
def fileGroup (groupsCount : Nat) (free : Nat → Nat) (parent : Nat) : Option Nat :=
  -- "Try to place the inode in its parent directory"
  if free parent ≠ 0 then some parent
  else
    match quadraticHash groupsCount free groupsCount parent 1 with
    | some i => some i
    | none =>
      -- "That failed: try linear search for a free inode", which counts from `j = 2`
      nextGroup groupsCount free (groupsCount - 2) (parent + 1)

/-- The group of the new inode. -/
def chooseGroup (s : Super) (fs : Fs) (directory : Bool) (parent : Nat) : Option Nat :=
  if directory then
    directoryGroup fs (fs.sFreeInodesCount / s.groupsCount) s.groupsCount 0 none
  else fileGroup s.groupsCount fs.bgFreeInodesCount parent

/-! ## Taking an inode -/

/-- What `ext2_new_inode` returns: `i_ino` and `i_block_group`, or an error. -/
inductive NewInode where
  | inode (ino blockGroup : Nat)
  | error (e : Errno)
deriving DecidableEq

/-- `EXT2_INODES_PER_GROUP` bits of a group hold the inodes with these numbers. -/
def Super.ino (s : Super) (g j : Nat) : Nat := j + g * s.inodesPerGroup + 1

/-- The bit is set and the counters are lowered. -/
def Fs.takeInode (fs : Fs) (g j : Nat) (directory : Bool) : Fs :=
  { fs with
    inodeBitmap := update fs.inodeBitmap g ((fs.inodeBitmap g).write j true)
    bgFreeInodesCount :=
      update fs.bgFreeInodesCount g (subWrap 16 (fs.bgFreeInodesCount g) 1)
    bgUsedDirsCount := if directory then
        update fs.bgUsedDirsCount g (addWrap 16 (fs.bgUsedDirsCount g) 1)
      else fs.bgUsedDirsCount
    sFreeInodesCount := subWrap 32 fs.sFreeInodesCount 1 }

/-- `ext2_new_inode (dir, mode)`. A group whose counter is wrong is corrected, and the search
starts again; `none` if that happens more than `fuel` times. -/
def newInodeLoop (s : Super) (rdonly directory : Bool) (parent : Nat) :
    Nat → Fs → Option (NewInode × Fs)
  | 0, _ => none
  | fuel + 1, fs =>
    match chooseGroup s fs directory parent with
    | none => some (.error .enospc, fs)
    | some i =>
      let j := findFirstZeroBit (fs.inodeBitmap i) s.inodesPerGroup
      if j < s.inodesPerGroup then
        let ino := s.ino i j
        if ino < s.firstIno ∨ ino > s.inodesCount then
          -- "reserved inode or inode > inodes count"
          some (.error .eio, { fs with
            inodeBitmap := update fs.inodeBitmap i ((fs.inodeBitmap i).write j true) })
        else some (.inode ino i, fs.takeInode i j directory)
      else if rdonly then some (.error .enospc, fs) -- "Free inodes count corrupted in group"
      else newInodeLoop s rdonly directory parent fuel
        { fs with bgFreeInodesCount := update fs.bgFreeInodesCount i 0 }

/-- Every turn but the last sets the counter of one group to 0. -/
def ext2NewInode (s : Super) (rdonly directory : Bool) (parent : Nat) (fs : Fs) :
    Option (NewInode × Fs) :=
  newInodeLoop s rdonly directory parent (s.groupsCount + 1) fs

def ext2FreeInode (s : Super) (directory : Bool) (ino : Nat) (fs : Fs) : Fs :=
  if ino < s.firstIno ∨ ino > s.inodesCount then fs
  else
    let g := (ino - 1) / s.inodesPerGroup
    let bit := (ino - 1) % s.inodesPerGroup
    if fs.inodeBitmap g bit = false then fs -- "bit already cleared for inode"
    else
      { fs with
        inodeBitmap := update fs.inodeBitmap g ((fs.inodeBitmap g).write bit false)
        bgFreeInodesCount :=
          update fs.bgFreeInodesCount g (addWrap 16 (fs.bgFreeInodesCount g) 1)
        bgUsedDirsCount := if directory then
            update fs.bgUsedDirsCount g (subWrap 16 (fs.bgUsedDirsCount g) 1)
          else fs.bgUsedDirsCount
        sFreeInodesCount := addWrap 32 fs.sFreeInodesCount 1 }

end PsxLinux.Ext2
