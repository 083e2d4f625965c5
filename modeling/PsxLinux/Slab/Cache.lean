import Mathlib.Algebra.Order.Ring.Int

/-!
# Slab caches and their sizing

`kmem_cache_t` and `kmem_cache_create` of `mmnommu/slab.c`, for one processor and without `DEBUG`
and `STATS`. Here is what `kmem_cache_create` works out for itself: the object size, the order of
a slab's pages, the number of objects in it and its colours. That a descriptor is taken from
`cache_cache` and linked into the cache chain is in `PsxLinux.Slab.System`.

Lists and descriptors are known by their addresses. `firstnotfull` is `none` where the source has
`&cachep->slabs`.
-/

namespace PsxLinux.Slab

/-! ## Constants -/

def pageSize : ℕ := 4096

/-- `L1_CACHE_BYTES` of an R3000. -/
def l1CacheBytes : ℕ := 16

def l1CacheAlign (x : ℕ) : ℕ := (x + (l1CacheBytes - 1)) / l1CacheBytes * l1CacheBytes

def bytesPerWord : ℕ := 4

def bufctlEnd : ℕ := 0xffffffff

def slabLimit : ℕ := 0xfffffffe

/-- `sizeof (slab_t)` -/
def sizeofSlab : ℕ := 24

/-- `sizeof (kmem_bufctl_t)` -/
def sizeofBufctl : ℕ := 4

def cacheNamelen : ℕ := 20

def maxObjOrder : ℕ := 5

def maxGfpOrder : ℕ := 5

def slabNoReap : UInt32 := 0x1000
def slabHwcacheAlign : UInt32 := 0x2000
def slabCacheDma : UInt32 := 0x4000

def createMask : UInt32 := slabHwcacheAlign ||| slabNoReap ||| slabCacheDma

def cflgsOffSlab : UInt32 := 0x10000
def cflgsOptimize : UInt32 := 0x20000

def dflgsGrown : UInt32 := 1

/-! ## The cache -/

/-- `kmem_cache_t` -/
structure Cache where
  slabs : List ℕ
  firstnotfull : Option ℕ
  objsize : ℕ
  flags : UInt32
  num : ℕ
  gfporder : ℕ
  colour : ℕ
  colourOff : ℕ
  colourNext : ℕ
  growing : ℕ
  dflags : UInt32
  /-- There is a constructor. -/
  ctor : Bool
  name : List UInt8

def offSlab (flags : UInt32) : Bool := flags &&& cflgsOffSlab != 0

/-! ## Sizing -/

/-- `PAGE_SIZE << gfporder` in 32 bits; the processor shifts by `gfporder` modulo 32. -/
def slabBytes (gfporder : ℕ) : ℕ := pageSize <<< (gfporder % 32) % 2 ^ 32

/-- The `while` loop of `kmem_cache_estimate`. It ends before its fuel does, since `size` is not
zero, and before `i*size` leaves 32 bits. -/
def estimateLoop (size base extra wastage : ℕ) : ℕ → ℕ → ℕ
  | 0, i => i
  | fuel + 1, i =>
    if i * size + l1CacheAlign (base + i * extra) ≤ wastage then
      estimateLoop size base extra wastage fuel (i + 1)
    else i

/-- `kmem_cache_estimate (gfporder, size, flags, &left_over, &num)` returns `left_over` and
`num`. -/
def kmemCacheEstimate (gfporder size : ℕ) (flags : UInt32) : ℕ × ℕ :=
  let wastage := slabBytes gfporder
  let base := if offSlab flags then 0 else sizeofSlab
  let extra := if offSlab flags then 0 else sizeofBufctl
  let i := estimateLoop size base extra wastage (wastage + 2) 0
  let i := if i > 0 then i - 1 else i
  let i := if i > slabLimit then slabLimit else i
  (wastage - i * size - l1CacheAlign (base + i * extra), i)

/-- What the sizing loop of `kmem_cache_create` leaves behind. -/
structure Sizing where
  gfporder : ℕ
  leftOver : ℕ
  num : ℕ

def Sizing.at (gfporder size : ℕ) (flags : UInt32) : Sizing :=
  let (leftOver, num) := kmemCacheEstimate gfporder size flags
  ⟨gfporder, leftOver, num⟩

/-- `slab_break_gfp_order` and `offslab_limit`. -/
structure Globals where
  slabBreakGfpOrder : ℕ
  offslabLimit : ℕ

/-- The sizing loop, with the number of orders left before `MAX_GFP_ORDER`. An order that is
taken back from 0 wraps around. -/
def sizingLoop (globals : Globals) (size : ℕ) (flags : UInt32) : ℕ → ℕ → Sizing
  | 0, gfporder => Sizing.at gfporder size flags
  | left + 1, gfporder =>
    let s := Sizing.at gfporder size flags
    if s.num = 0 then sizingLoop globals size flags left (gfporder + 1)
    else if offSlab flags ∧ s.num > globals.offslabLimit then
      Sizing.at ((gfporder + (2 ^ 32 - 1)) % 2 ^ 32) size flags
    else if gfporder ≥ globals.slabBreakGfpOrder then s
    else if s.leftOver * 8 ≤ slabBytes gfporder then s
    else sizingLoop globals size flags left (gfporder + 1)

/-- `while (size < align/2) align /= 2;` with the number of halvings at most needed. -/
def halveAlign (size : ℕ) : ℕ → ℕ → ℕ
  | 0, align => align
  | fuel + 1, align => if size < align / 2 then halveAlign size fuel (align / 2) else align

/-- `(x + align-1) & ~(align-1)` for a power of two. -/
def alignUp (x align : ℕ) : ℕ := (x + (align - 1)) / align * align

/-- The arguments of `kmem_cache_create`, and whether it is called in an interrupt. -/
structure CreateArgs where
  name : List UInt8
  size : ℕ
  offset : ℕ
  flags : UInt32
  ctor : Bool
  dtor : Bool
  inInterrupt : Bool

/-- The tests of `kmem_cache_create` that end in `BUG()`. -/
def CreateArgs.bad (a : CreateArgs) : Bool :=
  a.name.length ≥ cacheNamelen - 1 || a.inInterrupt || a.size < bytesPerWord ||
    a.size > (1 <<< maxObjOrder) * pageSize || (a.dtor && !a.ctor) || a.offset > a.size ||
    a.flags &&& ~~~createMask != 0

def slabSize (num : ℕ) : ℕ := l1CacheAlign (num * sizeofBufctl + sizeofSlab)

/-- `kmem_cache_create` from the word alignment of the size to the fields of the new descriptor;
`none` when no order gives room for one object. -/
def kmemCacheCreate (globals : Globals) (a : CreateArgs) : Option Cache :=
  let size := alignUp a.size bytesPerWord
  let hwalign := a.flags &&& slabHwcacheAlign != 0
  let flags := if size ≥ pageSize >>> 3 then a.flags ||| cflgsOffSlab else a.flags
  let align := if hwalign then halveAlign size l1CacheBytes l1CacheBytes else bytesPerWord
  let size := if hwalign then alignUp size align else size
  let s := sizingLoop globals size flags maxGfpOrder 0
  if s.num = 0 then none
  else
    let moved := offSlab flags && s.leftOver ≥ slabSize s.num
    let flags := if moved then flags &&& ~~~cflgsOffSlab else flags
    let leftOver := if moved then s.leftOver - slabSize s.num else s.leftOver
    let offset := alignUp a.offset align
    let offset := if offset = 0 then l1CacheBytes else offset
    let flags := if s.gfporder = 0 && !offSlab flags then flags ||| cflgsOptimize else flags
    some {
      slabs := []
      firstnotfull := none
      objsize := size
      flags := flags
      num := s.num
      gfporder := s.gfporder
      colour := leftOver / offset
      colourOff := offset
      colourNext := 0
      growing := 0
      dflags := 0
      ctor := a.ctor
      name := a.name }

end PsxLinux.Slab
