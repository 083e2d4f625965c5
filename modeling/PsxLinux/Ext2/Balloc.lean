import PsxLinux.Ext2.Groups

/-!
# Block allocation

`ext2_new_block` and `ext2_free_blocks` of `fs/ext2/balloc.c`, and `ext2_discard_prealloc` and
`ext2_alloc_block` of `inode.c`. Quotas are not configured, and the messages about system zones are
left out.
-/

namespace PsxLinux.Ext2

open Lib Function

/-- `i_prealloc_count` and `i_prealloc_block` of an inode. -/
structure Window where
  count : Nat
  block : Nat
deriving DecidableEq

/-- `EXT2_DEFAULT_PREALLOC_BLOCKS` -/
def defaultPreallocBlocks : Nat := 8

/-! ## Searching -/

/-- `search_back`: back to the start of the free bits, by `k` at most. -/
def searchBack (map : Bitmap) : Nat → Nat → Nat
  | 0, j => j
  | k + 1, j => if 0 < j ∧ map (j - 1) = false then searchBack map k (j - 1) else j

/-- The search in the goal's group, from bit `j`. -/
def searchGoal (s : Super) (map : Bitmap) (j : Nat) : Option Nat :=
  if map j = false then some j
  else
    -- "search forward for a free block within the next XX blocks"
    let endGoal := (j + 63) / 64 * 64
    let j' := if j ≠ 0 then findNextZeroBit map endGoal j else j
    if j ≠ 0 ∧ j' < endGoal then some j'
    else
      let r := memscan map (j' / 8) ((s.blocksPerGroup + 2 ^ 32 - j' + 7) % 2 ^ 32 / 8)
      if r * 8 < s.blocksPerGroup then some (searchBack map 7 (r * 8))
      else
        let k := findNextZeroBit map s.blocksPerGroup j'
        if k < s.blocksPerGroup then some k else none

/-- The search in another group. -/
def searchGroup (s : Super) (map : Bitmap) : Option Nat :=
  let j := memscan map 0 (s.blocksPerGroup / 8) * 8
  if j < s.blocksPerGroup then some (searchBack map 7 j)
  else
    let j := findFirstZeroBit map s.blocksPerGroup
    if j < s.blocksPerGroup then some j else none

/-- "Now search the rest of the groups": the next group behind `i` with free blocks. -/
def nextGroup (groupsCount : Nat) (free : Nat → Nat) : Nat → Nat → Option Nat
  | 0, _ => none
  | k + 1, i =>
    let i := if i + 1 ≥ groupsCount then 0 else i + 1
    if free i > 0 then some i else nextGroup groupsCount free k i

/-- From `repeat` to `got_block`: the group and the bit, or the error. -/
def searchBlock (s : Super) (goal : Nat) (fs : Fs) : Except Errno (Nat × Nat) :=
  let goal := if goal < s.firstDataBlock ∨ goal ≥ s.blocksCount then s.firstDataBlock else goal
  let i := (goal - s.firstDataBlock) / s.blocksPerGroup
  let near := if fs.bgFreeBlocksCount i > 0 then
      searchGoal s (fs.blockBitmap i) ((goal - s.firstDataBlock) % s.blocksPerGroup)
    else none
  if i ≥ s.groupsCount then .error .eio
  else
    match near with
    | some j => .ok (i, j)
    | none =>
      match nextGroup s.groupsCount fs.bgFreeBlocksCount s.groupsCount i with
      | none => .error .enospc
      | some i =>
        match searchGroup s (fs.blockBitmap i) with
        | none => .error .enospc -- "Free blocks count corrupted for block group"
        | some j => .ok (i, j)

/-! ## Allocating -/

/-- The loop of the preallocation at bit `b`, block `nextBlock`, with `n` turns left and `count`
blocks taken: the blocks taken at the end, and the bitmap. -/
def preallocLoop (blocksPerGroup preallocBlock : Nat) :
    Nat → Nat → Nat → Nat → Bitmap → Nat × Bitmap
  | 0, _, _, count, map => (count, map)
  | n + 1, b, nextBlock, count, map =>
    if b < blocksPerGroup then
      if preallocBlock + count ≠ nextBlock ∨ map b then (count, map)
      else
        preallocLoop blocksPerGroup preallocBlock n (b + 1) (nextBlock + 1) (count + 1)
          (map.write b true)
    else (count, map)

/-- What `ext2_new_block` returns and leaves. -/
structure NewBlock where
  block : Nat
  err : Option Errno
  fs : Fs
  window : Option Window

/-- A group's bitmap replaced, and `n` blocks taken off the counters. -/
def Fs.takeBlocks (fs : Fs) (g : Nat) (map : Bitmap) (n : Nat) : Fs :=
  { fs with
    blockBitmap := update fs.blockBitmap g map
    bgFreeBlocksCount :=
      update fs.bgFreeBlocksCount g (subWrap 16 (fs.bgFreeBlocksCount g) n)
    sFreeBlocksCount := subWrap 32 fs.sFreeBlocksCount n }

/-- `ext2_set_bit (j, bh->b_data)` and "Do block preallocation now if required": the blocks behind
block `tmp`, which is bit `j` of group `i`. -/
def preallocate (s : Super) (window : Option Window) (i j tmp : Nat) (fs : Fs) :
    Fs × Option Window :=
  let map := (fs.blockBitmap i).write j true
  match window with
  | some ⟨0, _⟩ =>
    let preallocGoal := if s.preallocBlocks ≠ 0 then s.preallocBlocks else defaultPreallocBlocks
    let (count, map) :=
      preallocLoop s.blocksPerGroup (tmp + 1) (preallocGoal - 1) (j + 1) (tmp + 1) 0 map
    (fs.takeBlocks i map count, some ⟨count, tmp + 1⟩)
  | _ => (fs.takeBlocks i map 0, window)

/-- From `ext2_set_bit` to the end, for bit `j` of group `i`, which is clear. -/
def takeBlock (s : Super) (window : Option Window) (i j : Nat) (fs : Fs) : NewBlock :=
  let tmp := s.blockNr i j
  let (fs, window) := preallocate s window i j tmp fs
  if tmp ≥ s.blocksCount then ⟨0, some .enospc, fs, window⟩
  else ⟨tmp, none, fs.takeBlocks i (fs.blockBitmap i) 1, window⟩

/-- `ext2_new_block (inode, goal, prealloc_count, prealloc_block, err)`. `window` is `none` if no
preallocation is asked for. `privileged` says whether the caller may use the reserved blocks. If
the bit found is already set, the code starts again from the same state, and so for ever: `none`. -/
def ext2NewBlock (s : Super) (privileged : Bool) (goal : Nat) (window : Option Window) (fs : Fs) :
    Option NewBlock :=
  if fs.sFreeBlocksCount ≤ s.rBlocksCount ∧ privileged = false then
    some ⟨0, some .enospc, fs, window⟩
  else
    match searchBlock s goal fs with
    | .error e => some ⟨0, some e, fs, window⟩
    | .ok (i, j) =>
      if fs.blockBitmap i j then none else some (takeBlock s window i j fs)

/-! ## Freeing -/

/-- `ext2_clear_bit (bit, bh->b_data)` with the counters. -/
def freeBit (g bit : Nat) (fs : Fs) : Fs :=
  if fs.blockBitmap g bit = false then fs -- "bit already cleared for block"
  else
    { fs with
      blockBitmap := update fs.blockBitmap g ((fs.blockBitmap g).write bit false)
      bgFreeBlocksCount :=
        update fs.bgFreeBlocksCount g (addWrap 16 (fs.bgFreeBlocksCount g) 1)
      sFreeBlocksCount := addWrap 32 fs.sFreeBlocksCount 1 }

/-- `count` bits from `bit` on. -/
def freeBits (g : Nat) : Nat → Nat → Fs → Fs
  | 0, _, fs => fs
  | count + 1, bit, fs => freeBits g count (bit + 1) (freeBit g bit fs)

/-- `do_more`: group after group. Every turn but the last frees at least one block. -/
def freeGroups (s : Super) : Nat → Nat → Nat → Fs → Fs
  | 0, _, _, fs => fs
  | fuel + 1, block, count, fs =>
    let g := (block - s.firstDataBlock) / s.blocksPerGroup
    let bit := (block - s.firstDataBlock) % s.blocksPerGroup
    let overflow := bit + count - s.blocksPerGroup
    let count := count - overflow
    let fs := freeBits g count bit fs
    if overflow ≠ 0 then freeGroups s fuel (block + count) overflow fs else fs

def ext2FreeBlocks (s : Super) (block count : Nat) (fs : Fs) : Fs :=
  if block < s.firstDataBlock ∨ (block + count) % 2 ^ 32 > s.blocksCount then fs
  else freeGroups s (count + 1) block count fs

/-! ## Inodes -/

def ext2DiscardPrealloc (s : Super) (w : Window) (fs : Fs) : Fs × Window :=
  if w.count ≠ 0 then
    -- `unsigned short total`
    (ext2FreeBlocks s w.block (w.count % 2 ^ 16) fs, ⟨0, 0⟩)
  else (fs, w)

/-- `ext2_alloc_block (inode, goal, err)` of an inode that is a regular file or not. -/
def ext2AllocBlock (s : Super) (privileged regular : Bool) (goal : Nat) (w : Window) (fs : Fs) :
    Option (Nat × Option Errno × Fs × Window) :=
  if w.count ≠ 0 ∧ (goal = w.block ∨ goal + 1 = w.block) then
    some (w.block, none, fs, ⟨w.count - 1, w.block + 1⟩)
  else
    let (fs, w) := ext2DiscardPrealloc s w fs
    (ext2NewBlock s privileged goal (if regular then some w else none) fs).map fun r =>
      (r.block, r.err, r.fs, r.window.getD w)

end PsxLinux.Ext2
