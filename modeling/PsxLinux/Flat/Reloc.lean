import PsxLinux.Lib.Exec
import PsxLinux.Lib.Memory

/-!
# Relocation of flat binaries

`do_reloc`, the relocation loop and the lengths of `load_flat_binary` (`fs/binfmt_flat.c`, the masks
of `asm-mipsnommu/flat.h`). The `static` variables of `do_reloc` are one record that all loads share.
A load processes its records one by one; `f_op->read` may sleep before each of them, so any other
process can run in between. A read of less than a record leaves a part of the word as the stack had
it, and `do_reloc` is called all the same. The test against `RLIMIT_DATA` and what only
`CONFIG_BINFMT_FLAT_SEPARATELY` compiles are left out.
-/

namespace PsxLinux.Flat

open Lib Function

/-- `unsigned long` -/
abbrev Word := BitVec 32

/-- The fields of `current->mm` that relocation reads. -/
structure MmStruct where
  startCode : Word
  startData : Word
  endData : Word

/-- The `static` variables of `do_reloc`. -/
structure Statics where
  prevPtr : Word
  prev : Word
  hiFlag : Bool
  res : Word
deriving DecidableEq

def Statics.boot : Statics := { prevPtr := 0, prev := 0, hiFlag := false, res := 0 }

/-! ## One relocation record -/

/-- `FLAT_RELOC_IN_MASK` -/
def inMask : Word := 0xc0000000
/-- `FLAT_RELOC_REL_MASK` -/
def relMask : Word := 0x30000000
/-- `FLAT_RELOC_TYPE_MASK` -/
def typeMask : Word := 0x0f000000

/-- The kinds of relocation, `FLAT_RELOC_TYPE_*`. -/
inductive RelocType where
  | abs32
  | hi16
  | lo16
  | jump26
deriving DecidableEq

/-- The kind of a record; the other codes are unknown. -/
def relocType (r : Word) : Option RelocType :=
  if r &&& typeMask = 0x0000000 then some .abs32
  else if r &&& typeMask = 0x1000000 then some .hi16
  else if r &&& typeMask = 0x2000000 then some .lo16
  else if r &&& typeMask = 0x3000000 then some .jump26
  else none

def relOffset (r : Word) : Word :=
  if r &&& 0x800000 = 0x800000 then - (r &&& 0x7fffff) else r &&& 0x7fffff

/-- The address the record relocates by: `offset` -/
def relocBase (mm : MmStruct) (r : Word) : Option Word :=
  if r &&& relMask = 0x00000000 then some mm.startCode
  else if r &&& relMask = 0x10000000 then some mm.startData
  else if r &&& relMask = 0x20000000 then some mm.endData
  else none

/-- The word the record is about: `ptr` -/
def relocPtr (mm : MmStruct) (r : Word) : Option Word :=
  if r &&& inMask = 0x00000000 then some (mm.startCode + relOffset r)
  else if r &&& inMask = 0x40000000 then some (mm.startData + relOffset r)
  else if r &&& inMask = 0x80000000 then some (mm.endData + relOffset r)
  else none

/-- `(short) x`, back in a word. -/
def short (x : Word) : Word := (x.setWidth 16).signExtend 32

/-- `switch (*r & FLAT_RELOC_TYPE_MASK)` with the address to relocate by and the word to change. -/
def relocWord (r offset ptr : Word) : RelocType → Statics × Memory → Statics × Memory
  | .abs32, (st, m) => (st, m.setWord ptr (m.word ptr + offset))
  | .hi16, (_, m) =>
    ({ prev := r, prevPtr := ptr, res := (m.word ptr &&& 0xffff) <<< 16, hiFlag := true }, m)
  | .lo16, (st, m) =>
    if !st.hiFlag || r &&& relMask != st.prev &&& relMask || r &&& inMask != st.prev &&& inMask then
      -- "Bad reloc sequence"
      (st, m)
    else
      let res := st.res + short (m.word ptr &&& 0xffff) + offset
      let m := m.setWord st.prevPtr
        ((m.word st.prevPtr &&& 0xffff0000) ||| (((res - short res) >>> 16) &&& 0xffff))
      -- `*ptr` is read again after `*prev_ptr` is written
      let m := m.setWord ptr ((m.word ptr &&& 0xffff0000) ||| (res &&& 0xffff))
      ({ st with res := res, hiFlag := false }, m)
  | .jump26, (st, m) =>
    let res := ((m.word ptr &&& 0x3ffffff) <<< 2) + offset
    ({ st with res := res },
      m.setWord ptr ((m.word ptr &&& 0xfc000000) ||| ((res >>> 2) &&& 0x3ffffff)))

/-- `do_reloc (r)`. A record with an unknown section or type is only reported. -/
def doReloc (mm : MmStruct) (r : Word) (s : Statics × Memory) : Statics × Memory :=
  match relocBase mm r, relocPtr mm r, relocType r with
  | some offset, some ptr, some type => relocWord r offset ptr type s
  | _, _, _ => s

/-! ## The loads -/

/-- What `f_op->read` delivers for a record. -/
inductive Read where
  | failed
  | short
  | full (r : Word)
deriving DecidableEq

/-- A flat binary at its load addresses: the process's memory, its contents before relocation and
the reads of its records. -/
structure Load where
  mm : MmStruct
  region : Word → Bool
  image : Memory
  records : List Read

/-- One turn of the relocation loop; `stale` is the word that a short read leaves. -/
def relocRecord (mm : MmStruct) (stale : Word) : Read → Statics × Memory → Statics × Memory
  | .failed, s => s
  | .short, s => doReloc mm stale s
  | .full r, s => doReloc mm r s

/-- The first `n` turns of the relocation loop, when nothing else runs after boot. A word that a
short read leaves is 0 here. -/
def Load.alone (load : Load) (n : ℕ) : Statics × Memory :=
  (load.records.take n).foldl (fun s read => relocRecord load.mm 0 read s)
    (Statics.boot, load.image)

/-- A process: the binary it loads, how many records are processed, and whether `start_thread` was
called. -/
structure Proc where
  load : Load
  done : ℕ
  running : Bool

structure Sys where
  statics : Statics
  mem : Memory
  procs : ℕ → Option Proc

def Sys.boot (mem : Memory) : Sys :=
  { statics := Statics.boot, mem := mem, procs := fun _ => none }

inductive Act where
  /-- The process has mapped its memory and read text and data into it. -/
  | exec (p : ℕ) (load : Load)
  /-- One turn of the process's relocation loop. -/
  | reloc (p : ℕ) (stale : Word)
  /-- The relocation loop is over: `start_thread` -/
  | start (p : ℕ)
  /-- The program writes a byte of its memory. -/
  | store (p : ℕ) (a : Word) (v : BitVec 8)
  /-- The process is gone and its memory free again. -/
  | exit (p : ℕ)

def step (s : Sys) : Act → Option (Sys × List Empty)
  | .exec p load =>
    some ({ s with
      mem := fun a => if load.region a then load.image a else s.mem a
      procs := update s.procs p (some ⟨load, 0, false⟩) }, [])
  | .reloc p stale =>
    match s.procs p with
    | none => none
    | some ⟨load, done, running⟩ =>
      match load.records[done]? with
      | none => none
      | some read =>
        let (statics, mem) := relocRecord load.mm stale read (s.statics, s.mem)
        some ({ statics := statics
                mem := mem
                procs := update s.procs p (some ⟨load, done + 1, running⟩) }, [])
  | .start p =>
    match s.procs p with
    | none => none
    | some ⟨load, done, _⟩ =>
      if done = load.records.length then
        some ({ s with procs := update s.procs p (some ⟨load, done, true⟩) }, [])
      else none
  | .store p a v =>
    match s.procs p with
    | none => none
    | some proc =>
      if proc.running && proc.load.region a then
        some ({ s with mem := update s.mem a v }, [])
      else none
  | .exit p => some ({ s with procs := update s.procs p none }, [])

/-- Memory that is mapped belongs to no other process. -/
def Placed (s : Sys) : Act → Prop
  | .exec p load => ∀ q proc, q ≠ p → s.procs q = some proc →
      ∀ a, ¬ (load.region a ∧ proc.load.region a)
  | _ => True

/-! ## The lengths -/

/-- The fields of `struct flat_hdr` that give the lengths. Nothing checks them. -/
structure FlatHdr where
  dataStart : Word
  dataEnd : Word
  bssEnd : Word
  stackSize : Word

def FlatHdr.codeLen (h : FlatHdr) : Word := h.dataStart

def FlatHdr.dataLen (h : FlatHdr) : Word := h.dataEnd - h.dataStart

def FlatHdr.bssLen (h : FlatHdr) : Word := h.bssEnd - h.dataEnd

def FlatHdr.stackLen (h : FlatHdr) : Word := h.stackSize

end PsxLinux.Flat
