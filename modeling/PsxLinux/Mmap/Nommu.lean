import PsxLinux.Lib.Exec
import PsxLinux.Lib.Tally
import Mathlib.Data.BitVec

/-!
# Mappings without an MMU

A mapping is a `kmalloc`ed block with two descriptors, a `tblock` in the list of its address space and
an `rblock` that counts the references to the memory. Two global counters follow what is allocated:
`askedalloc` adds the sizes that were asked for and `realalloc` those that the allocator gave.

What `kmalloc` returns is part of an action: an address that is not in use, or nothing. So are the
results of the file operations that a mapping calls.
-/

namespace PsxLinux.Mmap

open Lib Function

/-- An address of the kernel; 0 is the null pointer. -/
abbrev Ptr := ℕ

/-- An `unsigned long`. -/
abbrev Word := BitVec 32

def EINVAL : ℤ := 22
def ENODEV : ℤ := 19
def ENOMEM : ℤ := 12
def ENOSYS : ℤ := 89

/-- The object sizes of the general caches, from the smallest to the largest. -/
def cacheSizes : List Word :=
  [32, 64, 128, 256, 512, 1024, 2048, 4096, 8192, 16384, 32768, 65536, 131072]

def sizeofTblock : Word := 8

def sizeofRblock : Word := 12

structure Rblock where
  size : Word
  refcount : Word
  kblock : Ptr

/-- `M` are the address spaces. The list of an address space is that of its tblocks, from the one that
`mm->tblock.next` points to. -/
structure Sys (M : Type) where
  /-- The blocks that were allocated and not freed, with the object size of their cache. -/
  heap : Ptr → Option Word
  rblockOf : Ptr → Ptr
  rblock : Ptr → Rblock
  tblocks : M → List Ptr
  askedalloc : Word
  realalloc : Word
  /-- Something was freed that was not allocated. -/
  wild : Bool

variable {M : Type} [DecidableEq M]

/-- The first general cache that is large enough, and an object of it or nothing. A size that is too
large for all of them ends in `BUG()`, which prints, and then in a null pointer. An address that is in
use is never returned, so the result is `none` for such an argument. -/
def Sys.kmalloc (s : Sys M) (size : Word) (object : Option Ptr) : Option (Sys M × Ptr) :=
  match cacheSizes.find? (size ≤ ·), object with
  | some csize, some p =>
    if p ≠ 0 ∧ s.heap p = none then
      some ({ s with heap := update s.heap p (some csize) }, p)
    else none
  | _, _ => some (s, 0)

def Sys.kfree (s : Sys M) (p : Ptr) : Sys M :=
  { s with heap := update s.heap p none, wild := s.wild || (s.heap p).isNone }

def Sys.ksize (s : Sys M) (p : Ptr) : Word := (s.heap p).getD 0

/-! ## Mapping -/

/-- What a mapping reads of its file: whether it has operations, its `mmap` operation with the error
that operation returns and the start that it leaves in `vma`, and the result of a read. -/
structure File where
  fOp : Bool
  mmap : Option (ℤ × Ptr)
  read : ℤ

structure Args where
  file : Option File
  len : Word
  protWrite : Bool
  mapShared : Bool
  mapPrivate : Bool
  /-- What the allocator finds for the tblock, the rblock and the memory. -/
  tblock : Option Ptr
  rblock : Option Ptr
  result : Option Ptr

/-- The results that `do_mmap_pgoff` returns before it allocates anything. -/
def Args.refused (m : Args) : Option ℤ :=
  if m.mapShared && m.protWrite && m.file.isSome then some (-EINVAL)
  else if m.protWrite && m.mapPrivate then some (-EINVAL)
  else
    match m.file with
    | none => none
    | some file =>
      if !file.fOp then some (-ENODEV)
      else
        match file.mmap with
        | none => some (-ENODEV)
        | some (error, vmStart) =>
          if error = 0 then some vmStart
          else if error ≠ -ENOSYS then some error
          else none

/-- The descriptors are filled in and the memory is counted. -/
def Sys.count (s : Sys M) (tblock result : Ptr) (len : Word) : Sys M :=
  { s with
    rblock := update s.rblock (s.rblockOf tblock) ⟨len, 1, result⟩
    realalloc := s.realalloc + s.ksize result
    askedalloc := s.askedalloc + len }

/-- The descriptors are counted and linked. -/
def Sys.link (s : Sys M) (mm : M) (tblock : Ptr) : Sys M :=
  { s with
    realalloc := s.realalloc + s.ksize tblock + s.ksize (s.rblockOf tblock)
    askedalloc := s.askedalloc + sizeofTblock + sizeofRblock
    tblocks := update s.tblocks mm (tblock :: s.tblocks mm) }

/-- The part of `do_mmap_pgoff` from the first allocation on. -/
def Sys.copy (s : Sys M) (mm : M) (m : Args) : Option (Sys M × ℤ) := do
  let (s, tblock) ← s.kmalloc sizeofTblock m.tblock
  if tblock = 0 then return (s, -ENOMEM)
  let (s, rblock) ← s.kmalloc sizeofRblock m.rblock
  let s : Sys M := { s with rblockOf := update s.rblockOf tblock rblock }
  if rblock = 0 then return (s.kfree tblock, -ENOMEM)
  let (s, result) ← s.kmalloc m.len m.result
  if result = 0 then return ((s.kfree rblock).kfree tblock, -ENOMEM)
  let s := s.count tblock result m.len
  match m.file with
  | some file =>
    if file.read < 0 then
      return (((s.kfree result).kfree rblock).kfree tblock, file.read)
    return (s.link mm tblock, result)
  | none => return (s.link mm tblock, result)

def Sys.doMmapPgoff (s : Sys M) (mm : M) (m : Args) : Option (Sys M × ℤ) :=
  match m.refused with
  | some ret => some (s, ret)
  | none => s.copy mm m

/-! ## Unmapping -/

/-- One reference to the memory of a tblock is given up; with the last one, the memory. -/
def Sys.putRblock (s : Sys M) (tblock : Ptr) : Sys M :=
  let r := s.rblockOf tblock
  if r ≠ 0 then
    let b := s.rblock r
    let s := { s with rblock := update s.rblock r { b with refcount := b.refcount - 1 } }
    if b.refcount - 1 = 0 then
      let s :=
        if b.kblock ≠ 0 then
          { s with realalloc := s.realalloc - s.ksize b.kblock,
                   askedalloc := s.askedalloc - b.size }.kfree b.kblock
        else s
      { s with realalloc := s.realalloc - s.ksize r,
               askedalloc := s.askedalloc - sizeofRblock }.kfree r
    else s
  else s

/-- A tblock that is in no list any more is freed. -/
def Sys.freeTblock (s : Sys M) (tblock : Ptr) : Sys M :=
  { s with realalloc := s.realalloc - s.ksize tblock,
           askedalloc := s.askedalloc - sizeofTblock }.kfree tblock

/-- The walk of `do_munmap` goes on at this tblock. -/
def Sys.passes (s : Sys M) (addr : Ptr) (tblock : Ptr) : Bool :=
  s.rblockOf tblock ≠ 0 && (s.rblock (s.rblockOf tblock)).kblock ≠ addr

def Sys.doMunmap (s : Sys M) (mm : M) (addr : Ptr) : Sys M × ℤ :=
  match (s.tblocks mm).dropWhile (s.passes addr) with
  | [] => (s, -EINVAL)
  | tblock :: rest =>
    let passed := (s.tblocks mm).takeWhile (s.passes addr)
    let s := s.putRblock tblock
    let s := { s with tblocks := update s.tblocks mm (passed ++ rest) }
    (s.freeTblock tblock, -EINVAL)

/-- The loop of `exit_mmap` over the tblocks that are left. -/
def exitLoop (mm : M) : List Ptr → Sys M → Sys M
  | [], s => s
  | tmp :: rest, s =>
    let s :=
      if s.rblockOf tmp ≠ 0 then
        let s := s.putRblock tmp
        { s with rblockOf := update s.rblockOf tmp 0 }
      else s
    let s := { s with tblocks := update s.tblocks mm rest }
    exitLoop mm rest (s.freeTblock tmp)

def Sys.exitMmap (s : Sys M) (mm : M) : Sys M := exitLoop mm (s.tblocks mm) s

inductive Act (M : Type)
  | mmap (mm : M) (m : Args)
  | munmap (mm : M) (addr : Ptr)
  | exit (mm : M)

/-- One call. Its result is the event. -/
def step (s : Sys M) : Act M → Option (Sys M × List ℤ)
  | .mmap mm m => (s.doMmapPgoff mm m).map fun r => (r.1, [r.2])
  | .munmap mm addr => some ((s.doMunmap mm addr).1, [(s.doMunmap mm addr).2])
  | .exit mm => some (s.exitMmap mm, [])

/-- Before the first call. What the descriptors hold is not initialised. -/
def initial (rblockOf : Ptr → Ptr) (rblock : Ptr → Rblock) : Sys M :=
  { heap := fun _ => none, rblockOf := rblockOf, rblock := rblock, tblocks := fun _ => [],
    askedalloc := 0, realalloc := 0, wild := false }

/-! ## What the counters should be -/

/-- A linked tblock with its rblock and the memory. -/
structure Node where
  tblock : Ptr
  rblock : Ptr
  kblock : Ptr
  size : Word

def Node.blocks (n : Node) : List Ptr := [n.tblock, n.rblock, n.kblock]

/-- The sizes that were asked for. -/
def Node.asked (n : Node) : Word := sizeofTblock + sizeofRblock + n.size

/-- The sizes that were given. -/
def Node.real (ksize : Ptr → Word) (n : Node) : Word :=
  ksize n.tblock + ksize n.rblock + ksize n.kblock

def Sys.node (s : Sys M) (tblock : Ptr) : Node :=
  { tblock := tblock, rblock := s.rblockOf tblock,
    kblock := (s.rblock (s.rblockOf tblock)).kblock,
    size := (s.rblock (s.rblockOf tblock)).size }

def Sys.nodes (s : Sys M) (mm : M) : List Node := (s.tblocks mm).map s.node

def occurrences (p : Ptr) (l : List Node) : ℕ := (l.flatMap Node.blocks).count p

section
variable [Fintype M]

def Sys.linkedAsked (s : Sys M) : Word := tally (fun l => (l.map Node.asked).sum) s.nodes

def Sys.linkedReal (s : Sys M) : Word := tally (fun l => (l.map (Node.real s.ksize)).sum) s.nodes

def Balanced (s : Sys M) : Prop := s.askedalloc = s.linkedAsked ∧ s.realalloc = s.linkedReal

/-- Every allocated block occurs once in all the lists, and no other block does. -/
def Owned (s : Sys M) : Prop :=
  ∀ p, tally (occurrences p) s.nodes = if (s.heap p).isSome then 1 else 0

end

/-- A mapping of a file falls back to reading it, all allocations succeed, and the read fails. -/
def Act.ReadFails : Act M → Prop
  | .mmap _ m => m.refused = none ∧ (cacheSizes.find? (m.len ≤ ·)).isSome ∧ m.tblock.isSome ∧
      m.rblock.isSome ∧ m.result.isSome ∧ (m.file.any fun file => file.read < 0)
  | _ => False

instance (a : Act M) : Decidable a.ReadFails :=
  match a with
  | .mmap _ m => inferInstanceAs (Decidable (m.refused = none ∧
      (cacheSizes.find? (m.len ≤ ·)).isSome ∧ m.tblock.isSome ∧ m.rblock.isSome ∧
      m.result.isSome ∧ (m.file.any fun file => file.read < 0)))
  | .munmap .. | .exit _ => inferInstanceAs (Decidable False)

/-- The address spaces that may have mappings: those with a mapping after their last exit. -/
def mapped (f : M → Bool) : Act M → M → Bool
  | .mmap mm _ => update f mm true
  | .munmap _ _ => f
  | .exit mm => update f mm false

end PsxLinux.Mmap
