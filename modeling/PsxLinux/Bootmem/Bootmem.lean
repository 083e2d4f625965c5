import PsxLinux.Lib.Exec

/-!
# The boot memory allocator

`init_bootmem_core`, `free_bootmem_core`, `reserve_bootmem_core` and `__alloc_bootmem_core` of
`mmnommu/bootmem.c`. Machine words are numbers below `2 ^ 32`, with wrap-around written out. The
bitmap lies in memory itself, at `mapAddr`, where the `memset` of an allocation can reach it, and is
followed by whatever memory follows it, so a bit exists at every index. The descriptor is part of
the kernel's image, which is never registered. `phys_to_virt` is the identity here. `BUG()` is
`none`.
-/

namespace PsxLinux.Bootmem

open Lib

def pageSize : ℕ := 4096

def word (x : ℕ) : ℕ := x % 2 ^ 32

def wordSub (a b : ℕ) : ℕ := word (a + (2 ^ 32 - b))

/-- `(x + align - 1) & ~(align - 1)` for a power of two. -/
def alignUp (x align : ℕ) : ℕ := word (x + align - 1) / align * align

/-- `bootmem_data_t` with the bits of `node_bootmem_map` and its address. -/
structure Bdata where
  nodeBootStart : ℕ
  nodeLowPfn : ℕ
  nodeBootmemMap : ℕ → Bool
  mapAddr : ℕ
  lastOffset : ℕ
  lastPos : ℕ

/-- `init_bootmem_core (pgdat, mapstart, start, end)`, with the memory at `mapstart` as bits. -/
def initBootmemCore (memory : ℕ → Bool) (mapstart start stop : ℕ) : Bdata :=
  let mapsize := (wordSub stop start + 7) / 8
  let mapsize := (mapsize + 3) / 4 * 4
  { nodeBootStart := word (start * pageSize)
    nodeLowPfn := stop
    nodeBootmemMap := fun i => if i < mapsize * 8 then true else memory i
    mapAddr := word (mapstart * pageSize)
    lastOffset := 0
    lastPos := 0 }

/-- The map with the bits of `[sidx, eidx)` set to a value. -/
def setBits (map : ℕ → Bool) (sidx eidx : ℕ) (value : Bool) : ℕ → Bool :=
  fun i => if sidx ≤ i ∧ i < eidx then value else map i

/-- All bits of `[sidx, eidx)` have this value. -/
def allBits (map : ℕ → Bool) (sidx eidx : ℕ) (value : Bool) : Bool :=
  (List.range' sidx (eidx - sidx)).all fun i => map i == value

/-- `reserve_bootmem_core (bdata, addr, size)`. A page that is reserved twice is only reported. -/
def reserveBootmemCore (b : Bdata) (addr size : ℕ) : Option Bdata :=
  let sidx := wordSub addr b.nodeBootStart / pageSize
  let eidx := word (wordSub (word (addr + size)) b.nodeBootStart + (pageSize - 1)) / pageSize
  let stop := word (addr + size + (pageSize - 1)) / pageSize
  if size = 0 then none
  else if stop > b.nodeLowPfn then none
  else some { b with nodeBootmemMap := setBits b.nodeBootmemMap sidx eidx true }

def freeBootmemCore (b : Bdata) (addr size : ℕ) : Option Bdata :=
  let eidx := wordSub (word (addr + size)) b.nodeBootStart / pageSize
  let stop := word (addr + size) / pageSize
  let start := word (addr + (pageSize - 1)) / pageSize
  let sidx := wordSub start (b.nodeBootStart / pageSize)
  if size = 0 then none
  else if stop > b.nodeLowPfn then none
  else if !allBits b.nodeBootmemMap sidx eidx true then none
  else some { b with nodeBootmemMap := setBits b.nodeBootmemMap sidx eidx false }

/-! ## Allocation -/

/-- The body of the scan: from page `i` on `areasize` pages are free, and they end before
`eidx`. -/
def blockFree (map : ℕ → Bool) (eidx areasize i : ℕ) : Bool :=
  !map i && (List.range' (i + 1) (areasize - 1)).all fun j => j < eidx && !map j

/-- The scan from page `i` on. It looks at no more than `eidx` pages. -/
def scan (map : ℕ → Bool) (eidx areasize incr : ℕ) : ℕ → ℕ → Option ℕ
  | 0, _ => none
  | fuel + 1, i =>
    if i < eidx then
      if blockFree map eidx areasize i then some i else scan map eidx areasize incr fuel (i + incr)
    else none

/-- `restart_scan:` up to `found:`, where `start` is 0 if the scan finds nothing. -/
def scanStart (map : ℕ → Bool) (eidx areasize incr preferred : ℕ) : ℕ :=
  match scan map eidx areasize incr eidx preferred with
  | some start => start
  | none => if preferred ≠ 0 then (scan map eidx areasize incr eidx 0).getD 0 else 0

/-- What `__alloc_bootmem_core` decides once it knows `start`: how many pages to reserve, the new
`last_pos` and `last_offset`, and the address. -/
structure Placement where
  areasize : ℕ
  lastPos : ℕ
  lastOffset : ℕ
  ret : ℕ

/-- From `found:` to the reservation. -/
def place (b : Bdata) (size align areasize start : ℕ) : Option Placement :=
  if align ≤ pageSize ∧ b.lastOffset ≠ 0 ∧ word (b.lastPos + 1) = start then
    let offset := alignUp b.lastOffset align
    let ret := word (b.lastPos * pageSize + offset + b.nodeBootStart)
    if offset > pageSize then none
    else
      let remainingSize := pageSize - offset
      if size < remainingSize then
        some ⟨0, b.lastPos, word (offset + size) % pageSize, ret⟩
      else
        let remainingSize := size - remainingSize
        let areasize := word (remainingSize + (pageSize - 1)) / pageSize
        some ⟨areasize, wordSub (start + areasize) 1, remainingSize % pageSize, ret⟩
  else
    some ⟨areasize, wordSub (start + areasize) 1, size % pageSize,
      word (start * pageSize + b.nodeBootStart)⟩

/-- `__alloc_bootmem_core` up to the reservation. -/
def allocPages (b : Bdata) (size align goal : ℕ) : Option (Bdata × ℕ) :=
  let eidx := wordSub b.nodeLowPfn (b.nodeBootStart / pageSize)
  if size = 0 then none
  else
    let preferred :=
      if goal ≠ 0 ∧ goal ≥ b.nodeBootStart ∧ goal / pageSize < b.nodeLowPfn then
        wordSub goal b.nodeBootStart
      else 0
    let preferred := alignUp preferred align / pageSize
    let areasize := word (size + (pageSize - 1)) / pageSize
    let incr := if align / pageSize = 0 then 1 else align / pageSize
    let start := scanStart b.nodeBootmemMap eidx areasize incr preferred
    if start ≥ eidx then none
    else
      match place b size align areasize start with
      | none => none
      | some p =>
        if !allBits b.nodeBootmemMap start (start + p.areasize) false then none
        else some ({ b with
          nodeBootmemMap := setBits b.nodeBootmemMap start (start + p.areasize) true
          lastPos := p.lastPos
          lastOffset := p.lastOffset }, p.ret)

/-- The address of the byte that holds bit `i` of the map. -/
def Bdata.mapByte (b : Bdata) (i : ℕ) : ℕ := word (b.mapAddr + i / 8)

/-- `memset (ret, 0, size)`, as far as it concerns the map. -/
def Bdata.memset (b : Bdata) (ret size : ℕ) : Bdata :=
  { b with nodeBootmemMap := fun i =>
      if ret ≤ b.mapByte i ∧ b.mapByte i < ret + size then false else b.nodeBootmemMap i }

def allocBootmemCore (b : Bdata) (size align goal : ℕ) : Option (Bdata × ℕ) :=
  (allocPages b size align goal).map fun r => (r.1.memset r.2 size, r.2)

/-! ## Calls -/

inductive Call where
  | reserve (addr size : UInt32)
  | alloc (size align goal : UInt32)

/-- What a call did: it reserved these bytes, or returned the first of these. -/
inductive Event where
  | reserved (addr size : ℕ)
  | allocated (ret size align : ℕ)
deriving DecidableEq

/-- A call that does not run into `BUG()`. -/
def step (b : Bdata) : Call → Option (Bdata × List Event)
  | .reserve addr size =>
    (reserveBootmemCore b addr.toNat size.toNat).map fun b =>
      (b, [.reserved addr.toNat size.toNat])
  | .alloc size align goal =>
    (allocBootmemCore b size.toNat align.toNat goal.toNat).map fun r =>
      (r.1, [.allocated r.2 size.toNat align.toNat])

/-- RAM is registered, range by range. -/
def freeAll (b : Bdata) : List (UInt32 × UInt32) → Option Bdata
  | [] => some b
  | (addr, size) :: ranges =>
    (freeBootmemCore b addr.toNat size.toNat).bind (freeAll · ranges)

end PsxLinux.Bootmem
