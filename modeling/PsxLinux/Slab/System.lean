import PsxLinux.Lib.Exec
import PsxLinux.Lib.Ring
import PsxLinux.Slab.Cache

/-!
# The slab allocator at work

`kmem_cache_alloc`, `kmem_cache_free`, `kmem_cache_grow`, `kmem_cache_shrink` and
`kmem_cache_reap` of `mmnommu/slab.c` on all caches of the system. Any number of threads (calls
under way, those of interrupts included) run at once; a step is what one of them does with
interrupts off, or on memory only it knows. What the callers hold (`held`) and which slab
descriptors have memory (`mgmt`) is not the allocator's own state; `Valid` says with it what the
callers and the page allocator owe to the slab allocator.
-/

namespace PsxLinux.Slab

open Lib Function

/-! ## Slabs -/

/-- `slab_t` with its bufctls. -/
structure SlabT where
  colouroff : ℕ
  sMem : ℕ
  inuse : ℕ
  free : ℕ
  bufctl : ℕ → ℕ

/-- A `struct page`: `PageSlab`, `GET_PAGE_CACHE` and `GET_PAGE_SLAB`. -/
structure Page where
  pageSlab : Bool
  cache : ℕ
  slab : ℕ
deriving DecidableEq

/-- Who unlinks free slabs: `__kmem_cache_shrink`, or the loop of `kmem_cache_reap` at
`scan`. -/
inductive Freer where
  | shrink
  | reap (bestLen scan : ℕ)
deriving DecidableEq

/-- Where a thread stands. -/
inductive Phase where
  | idle
  /-- It ran into `BUG()`. -/
  | oops
  /-- `__kmem_cache_alloc` at `try_again`. -/
  | tryAgain (cachep : ℕ) (flags : UInt32) (inInterrupt : Bool)
  /-- `kmem_cache_grow` before it gets its pages. -/
  | grow (cachep : ℕ) (flags : UInt32) (inInterrupt : Bool) (offset : ℕ)
  /-- At the head of a loop that frees slabs. -/
  | freeing (cachep : ℕ) (freer : Freer)
  /-- Before `kmem_slab_destroy`. -/
  | destroying (cachep slabp : ℕ) (freer : Freer)
  /-- At the head of the search of `kmem_cache_reap`. -/
  | scanning (scan bestLen bestPages : ℕ) (bestCachep : Option ℕ) (searchp : ℕ)
deriving DecidableEq

structure Sys where
  cache : ℕ → Cache
  /-- The cache chain behind `cache_cache`. -/
  chain : List ℕ
  clockSearchp : ℕ
  /-- `cache_chain_sem` is up. -/
  chainSem : Bool
  slab : ℕ → SlabT
  page : ℕ → Page
  thread : ℕ → Phase
  mgmt : List ℕ
  held : List (ℕ × ℕ)

def cacheCache : ℕ := 0

namespace Sys

def setCache (s : Sys) (cachep : ℕ) (c : Cache) : Sys :=
  { s with cache := update s.cache cachep c }

def setSlab (s : Sys) (slabp : ℕ) (sl : SlabT) : Sys :=
  { s with slab := update s.slab slabp sl }

def setThread (s : Sys) (t : ℕ) (p : Phase) : Sys :=
  { s with thread := update s.thread t p }

end Sys

/-- The first page of a slab. -/
def SlabT.pfn (sl : SlabT) : ℕ := (sl.sMem - sl.colouroff) / pageSize

/-! ## Objects -/

def kmemCacheAllocOneTail (s : Sys) (cachep slabp : ℕ) : Sys × ℕ :=
  let c := s.cache cachep
  let sl := s.slab slabp
  let objp := sl.sMem + sl.free * c.objsize
  let free := sl.bufctl sl.free
  let firstnotfull :=
    if free = bufctlEnd then Ring.next c.slabs (some slabp) else c.firstnotfull
  ((s.setSlab slabp { sl with inuse := sl.inuse + 1, free := free }).setCache cachep
    { c with firstnotfull := firstnotfull }, objp)

def kmemCacheFreeOne (s : Sys) (cachep objp : ℕ) : Sys :=
  let slabp := (s.page (objp / pageSize)).slab
  let c := s.cache cachep
  let sl := s.slab slabp
  let objnr := (objp - sl.sMem) / c.objsize
  let s := s.setSlab slabp { sl with
    bufctl := update sl.bufctl objnr sl.free, free := objnr, inuse := sl.inuse - 1 }
  if sl.inuse = c.num then
    -- moveslab_partial
    if Ring.next c.slabs (some slabp) = c.firstnotfull then
      s.setCache cachep { c with firstnotfull := some slabp }
    else
      s.setCache cachep { c with
        slabs := Ring.insertBefore (c.slabs.erase slabp) slabp c.firstnotfull
        firstnotfull := some slabp }
  else if sl.inuse - 1 = 0 then
    -- moveslab_free
    let t := Ring.prev c.slabs c.firstnotfull
    let slabs := Ring.insertBefore (c.slabs.erase slabp) slabp none
    s.setCache cachep { c with
      slabs := slabs
      firstnotfull := if c.firstnotfull = some slabp then Ring.next slabs t else c.firstnotfull }
  else s

/-! ## Growing -/

def slabAtomic : UInt32 := 0x02
def slabDma : UInt32 := 0x08
def slabLevelMask : UInt32 := 0x07
def slabNoGrow : UInt32 := 0x1000

/-- `kmem_cache_slabmgmt`, with what `kmem_cache_alloc (cachep->slabp_cache, ..)` returned for a
slab that is managed off slab; returns `slabp` and the new `colour_off`. -/
def kmemCacheSlabmgmt (c : Cache) (objp colourOff : ℕ) (mgmt : Option ℕ) : Option (ℕ × ℕ) :=
  if offSlab c.flags then mgmt.map (·, colourOff)
  else some (objp + colourOff, colourOff + slabSize c.num)

/-- The bufctls after `kmem_cache_init_objs`. -/
def initBufctl (num : ℕ) (old : ℕ → ℕ) : ℕ → ℕ :=
  update (fun i => if i < num then i + 1 else old i) (num - 1) bufctlEnd

/-- The locked beginning of `kmem_cache_grow`; returns `offset`. -/
def growBegin (s : Sys) (cachep : ℕ) : Sys × ℕ :=
  let c := s.cache cachep
  let next := if c.colourNext + 1 ≥ c.colour then 0 else c.colourNext + 1
  (s.setCache cachep { c with
    colourNext := next, dflags := c.dflags ||| dflgsGrown, growing := c.growing + 1 },
    c.colourNext * c.colourOff)

/-- The end of `kmem_cache_grow` with pages and a descriptor: the page descriptors, the objects
and the list. -/
def growLink (s : Sys) (cachep objp slabp colouroff : ℕ) : Sys :=
  let c := s.cache cachep
  let sl : SlabT := ⟨colouroff, objp + colouroff, 0, 0, initBufctl c.num (s.slab slabp).bufctl⟩
  let page := fun p =>
    if objp / pageSize ≤ p ∧ p < objp / pageSize + 1 <<< c.gfporder then ⟨true, cachep, slabp⟩
    else s.page p
  ({ s with page := page, mgmt := slabp :: s.mgmt }.setSlab slabp sl).setCache cachep { c with
    growing := c.growing - 1
    slabs := Ring.insertBefore c.slabs slabp none
    firstnotfull := if c.firstnotfull = none then some slabp else c.firstnotfull }

/-- `failed:` of `kmem_cache_grow`. -/
def growFailed (s : Sys) (cachep : ℕ) : Sys :=
  s.setCache cachep { s.cache cachep with growing := (s.cache cachep).growing - 1 }

/-! ## Freeing slabs -/

/-- One turn of the loops that free slabs: the last slab, if it is free and the cache does not
grow, is taken off the list. -/
def unlinkFree (s : Sys) (cachep : ℕ) : Option (Sys × ℕ) :=
  let c := s.cache cachep
  if c.growing ≠ 0 then none
  else
    match Ring.prev c.slabs none with
    | none => none
    | some slabp =>
      if (s.slab slabp).inuse ≠ 0 then none
      else
        some (s.setCache cachep { c with
          slabs := c.slabs.erase slabp
          firstnotfull := if c.firstnotfull = some slabp then none else c.firstnotfull }, slabp)

/-- `kmem_slab_destroy (cachep, slabp)`: the pages go back to the page allocator, and the
descriptor with them or to its own cache. -/
def kmemSlabDestroy (s : Sys) (cachep slabp : ℕ) : Sys :=
  let pfn := (s.slab slabp).pfn
  { s with
    page := fun p =>
      if pfn ≤ p ∧ p < pfn + 1 <<< (s.cache cachep).gfporder then
        { s.page p with pageSlab := false }
      else s.page p
    mgmt := s.mgmt.erase slabp }

/-! ## Reaping -/

def reapScanlen : ℕ := 10

def reapPerfect : ℕ := 10

/-- `list_entry (searchp->next.next, kmem_cache_t, next)` -/
def nextCache (chain : List ℕ) (searchp : ℕ) : ℕ :=
  (Ring.next chain (if searchp = cacheCache then none else some searchp)).getD cacheCache

/-- `full_free` of a cache. -/
def fullFree (s : Sys) (cachep : ℕ) : ℕ :=
  ((s.cache cachep).slabs.reverse.takeWhile fun slabp => (s.slab slabp).inuse = 0).length

/-- `pages` of a cache with so many free slabs. -/
def reapPages (c : Cache) (fullFree : ℕ) : ℕ :=
  let pages := fullFree * 1 <<< c.gfporder % 2 ^ 32
  let pages := if c.ctor then (pages * 4 + 1) % 2 ^ 32 / 5 else pages
  if c.gfporder ≠ 0 then (pages * 4 + 1) % 2 ^ 32 / 5 else pages

/-- `out:` of `kmem_cache_reap`. -/
def reapOut (s : Sys) (t : ℕ) : Sys := { s with chainSem := true }.setThread t .idle

/-- `perfect:` of `kmem_cache_reap`, up to its loop. -/
def reapStart (s : Sys) (t bestCachep bestLen : ℕ) : Sys :=
  s.setThread t (.freeing bestCachep (.reap ((bestLen * 4 + 1) / 5) 0))

/-- `next:` of `kmem_cache_reap`, up to the head of the search or to its end. -/
def reapNext (s : Sys) (t scan bestLen bestPages : ℕ) (bestCachep : Option ℕ) (searchp : ℕ) : Sys :=
  let searchp := nextCache s.chain searchp
  if scan - 1 ≠ 0 ∧ searchp ≠ s.clockSearchp then
    s.setThread t (.scanning (scan - 1) bestLen bestPages bestCachep searchp)
  else
    let s := { s with clockSearchp := searchp }
    match bestCachep with
    | none => reapOut s t
    | some cachep => reapStart s t cachep bestLen

/-- One turn of the search of `kmem_cache_reap`. -/
def reapScan (s : Sys) (t scan bestLen bestPages : ℕ) (bestCachep : Option ℕ) (searchp : ℕ) : Sys :=
  let c := s.cache searchp
  if c.flags &&& slabNoReap ≠ 0 ∨ c.growing ≠ 0 then
    reapNext s t scan bestLen bestPages bestCachep searchp
  else if c.dflags &&& dflgsGrown ≠ 0 then
    reapNext (s.setCache searchp { c with dflags := c.dflags &&& ~~~dflgsGrown }) t scan bestLen
      bestPages bestCachep searchp
  else
    let fullFree := fullFree s searchp
    let pages := reapPages c fullFree
    if pages > bestPages then
      if fullFree ≥ reapPerfect then
        reapStart { s with clockSearchp := nextCache s.chain searchp } t searchp fullFree
      else reapNext s t scan fullFree pages (some searchp) searchp
    else reapNext s t scan bestLen bestPages bestCachep searchp

/-! ## Calls and steps -/

inductive Act where
  /-- `kmem_cache_create`, with what `kmem_cache_alloc (&cache_cache, SLAB_KERNEL)` returned. -/
  | create (t : ℕ) (globals : Globals) (args : CreateArgs) (cachep : Option ℕ)
  | alloc (t cachep : ℕ) (flags : UInt32) (inInterrupt : Bool)
  | free (t cachep objp : ℕ)
  | shrink (t cachep : ℕ) (inInterrupt : Bool)
  /-- `kmem_cache_reap`; may it wait for the semaphore? -/
  | reap (t : ℕ) (wait : Bool)
  /-- The thread goes on. When it grows a cache, these are its pages, if any, and the memory for
  a descriptor off slab, if any. -/
  | go (t : ℕ) (pages mgmt : Option ℕ)

inductive Event where
  | create (cachep : Option ℕ)
  | alloc (cachep : ℕ) (objp : Option ℕ)
  /-- `kmem_slab_destroy` of a slab with so many objects in use. -/
  | destroy (cachep slabp inuse : ℕ)
  | shrink (cachep : ℕ) (ret : Bool)
  | bug
deriving DecidableEq

def kmemCacheFree (s : Sys) (cachep objp : ℕ) : Sys :=
  { kmemCacheFreeOne s cachep objp with held := s.held.erase (cachep, objp) }

def bug (s : Sys) (t : ℕ) : Sys × List Event := (s.setThread t .oops, [.bug])

/-- `kmem_cache_create` -/
def create (s : Sys) (t : ℕ) (globals : Globals) (args : CreateArgs) (cachep : Option ℕ) :
    Option (Sys × List Event) :=
  if args.bad then some (bug s t)
  else
    match cachep with
    | none => some (s, [.create none])
    | some cachep =>
      match kmemCacheCreate globals args with
      | none => some (kmemCacheFree s cacheCache cachep, [.create none])
      | some c =>
        if !s.chainSem then none
        else if s.chain.any fun pc => (s.cache pc).name = args.name then
          some (bug { s with chainSem := false } t)
        else
          some ({ s with chain := cachep :: s.chain }.setCache cachep c, [.create (some cachep)])

/-- `__kmem_cache_alloc` from `try_again`, up to its return or into `kmem_cache_grow`. -/
def tryAgain (s : Sys) (t cachep : ℕ) (flags : UInt32) (inInterrupt : Bool) : Sys × List Event :=
  match (s.cache cachep).firstnotfull with
  | some slabp =>
    let (s, objp) := kmemCacheAllocOneTail s cachep slabp
    ({ s with held := (cachep, objp) :: s.held }.setThread t .idle, [.alloc cachep (some objp)])
  | none =>
    if flags &&& ~~~(slabDma ||| slabLevelMask ||| slabNoGrow) ≠ 0 then bug s t
    else if flags &&& slabNoGrow ≠ 0 then (s.setThread t .idle, [.alloc cachep none])
    else if inInterrupt ∧ flags &&& slabLevelMask ≠ slabAtomic then bug s t
    else
      let (s, offset) := growBegin s cachep
      (s.setThread t (.grow cachep flags inInterrupt offset), [])

/-- `kmem_cache_grow` once it knows what memory it gets, and back to `try_again`. -/
def grow (s : Sys) (t cachep : ℕ) (flags : UInt32) (inInterrupt : Bool) (offset : ℕ)
    (pages mgmt : Option ℕ) : Sys × List Event :=
  match pages.bind fun objp => (kmemCacheSlabmgmt (s.cache cachep) objp offset mgmt).map
      fun r => (objp, r.1, r.2) with
  | none => ((growFailed s cachep).setThread t .idle, [.alloc cachep none])
  | some (objp, slabp, colouroff) =>
    ((growLink s cachep objp slabp colouroff).setThread t (.tryAgain cachep flags inInterrupt), [])

/-- The way out of a loop that frees slabs. -/
def freeingOut (s : Sys) (t cachep : ℕ) : Freer → Sys × List Event
  | .shrink => (s.setThread t .idle, [.shrink cachep (!(s.cache cachep).slabs.isEmpty)])
  | .reap _ _ => (reapOut s t, [])

/-- A loop that frees slabs goes on. -/
def Freer.goesOn : Freer → Bool
  | .shrink => true
  | .reap bestLen scan => scan < bestLen

/-- The loop after one more slab. -/
def Freer.next : Freer → Freer
  | .shrink => .shrink
  | .reap bestLen scan => .reap bestLen (scan + 1)

/-- The head of a loop that frees slabs, up to `kmem_slab_destroy`. -/
def freeing (s : Sys) (t cachep : ℕ) (freer : Freer) : Sys × List Event :=
  if freer.goesOn then
    match unlinkFree s cachep with
    | none => freeingOut s t cachep freer
    | some (s, slabp) => (s.setThread t (.destroying cachep slabp freer), [])
  else freeingOut s t cachep freer

/-- `kmem_slab_destroy`, and back to the head of the loop. -/
def destroying (s : Sys) (t cachep slabp : ℕ) (freer : Freer) : Sys × List Event :=
  ((kmemSlabDestroy s cachep slabp).setThread t (.freeing cachep freer.next),
    [.destroy cachep slabp (s.slab slabp).inuse])

/-- One step; `none` where the thread is busy, has nothing to go on with, or waits for the
semaphore. -/
def step (s : Sys) : Act → Option (Sys × List Event)
  | .create t globals args cachep =>
    if s.thread t = .idle then create s t globals args cachep else none
  | .alloc t cachep flags inInterrupt =>
    if s.thread t = .idle then some (s.setThread t (.tryAgain cachep flags inInterrupt), [])
    else none
  | .free t cachep objp =>
    if s.thread t = .idle then some (kmemCacheFree s cachep objp, []) else none
  | .shrink t cachep inInterrupt =>
    if s.thread t ≠ .idle then none
    else if inInterrupt then some (bug s t)
    else if !s.chainSem then none
    else if cachep ∉ s.chain then some (bug s t)
    else some (s.setThread t (.freeing cachep .shrink), [])
  | .reap t wait =>
    if s.thread t ≠ .idle then none
    else if s.chainSem then
      some ({ s with chainSem := false }.setThread t
        (.scanning reapScanlen 0 0 none s.clockSearchp), [])
    else if wait then none
    else some (s, [])
  | .go t pages mgmt =>
    match s.thread t with
    | .idle => none
    | .oops => none
    | .tryAgain cachep flags inInterrupt => some (tryAgain s t cachep flags inInterrupt)
    | .grow cachep flags inInterrupt offset =>
      some (grow s t cachep flags inInterrupt offset pages mgmt)
    | .freeing cachep freer => some (freeing s t cachep freer)
    | .destroying cachep slabp freer => some (destroying s t cachep slabp freer)
    | .scanning scan bestLen bestPages bestCachep searchp =>
      some (reapScan s t scan bestLen bestPages bestCachep searchp, [])

/-! ## Boot and what the callers owe -/

/-- The caches once `kmem_cache_init` has run on a machine with this `sizeof (kmem_cache_t)` and
any memory contents; `none` where it runs into `BUG()`. -/
def Sys.boot (sizeofCache : ℕ) (slab : ℕ → SlabT) (page : ℕ → Page) : Option Sys :=
  let (leftOver, num) := kmemCacheEstimate 0 sizeofCache 0
  if num = 0 then none
  else
    let c : Cache := {
      slabs := []
      firstnotfull := none
      objsize := sizeofCache
      flags := slabNoReap
      num := num
      gfporder := 0
      colour := leftOver / l1CacheBytes
      colourOff := l1CacheBytes
      colourNext := 0
      growing := 0
      dflags := 0
      ctor := false
      -- "kmem_cache"
      name := [0x6b, 0x6d, 0x65, 0x6d, 0x5f, 0x63, 0x61, 0x63, 0x68, 0x65] }
    some {
      cache := fun _ => c
      chain := []
      clockSearchp := cacheCache
      chainSem := true
      slab := slab
      page := page
      thread := fun _ => .idle
      mgmt := []
      held := [] }

def Sys.Known (s : Sys) (cachep : ℕ) : Prop := cachep = cacheCache ∨ cachep ∈ s.chain

instance (s : Sys) (cachep : ℕ) : Decidable (s.Known cachep) :=
  inferInstanceAs (Decidable (_ ∨ _))

/-- The pages from `objp` on are whole, and no slab has them. -/
def Sys.PagesFree (s : Sys) (gfporder objp : ℕ) : Prop :=
  objp % pageSize = 0 ∧ ∀ k < 1 <<< gfporder, (s.page (objp / pageSize + k)).pageSlab = false

instance (s : Sys) (gfporder objp : ℕ) : Decidable (s.PagesFree gfporder objp) :=
  inferInstanceAs (Decidable (_ ∧ _))

/-- The memory that a thread gets to grow a cache is nobody else's. -/
def MemoryFree (s : Sys) (pages mgmt : Option ℕ) : Phase → Prop
  | .grow cachep _ _ offset => ∀ objp ∈ pages, s.PagesFree (s.cache cachep).gfporder objp ∧
      ∀ r ∈ kmemCacheSlabmgmt (s.cache cachep) objp offset mgmt, r.1 ∉ s.mgmt
  | _ => True

instance (s : Sys) (pages mgmt : Option ℕ) : (p : Phase) → Decidable (MemoryFree s pages mgmt p)
  | .grow cachep _ _ offset => inferInstanceAs (Decidable (∀ objp ∈ pages,
      s.PagesFree (s.cache cachep).gfporder objp ∧
        ∀ r ∈ kmemCacheSlabmgmt (s.cache cachep) objp offset mgmt, r.1 ∉ s.mgmt))
  | .idle | .oops | .tryAgain .. | .freeing .. | .destroying .. | .scanning .. => .isTrue trivial

/-- What a caller or an allocator owes: a cache passed to `kmem_cache_alloc` exists; the object
passed to `kmem_cache_free` is allocated from that cache; a new cache's descriptor is allocated
from `cache_cache` and not yet in use; the pages and the descriptor of a new slab are nobody
else's. -/
def Valid (s : Sys) : Act → Prop
  | .create _ _ _ cachep => ∀ p ∈ cachep, (cacheCache, p) ∈ s.held ∧ ¬ s.Known p
  | .alloc _ cachep _ _ => s.Known cachep
  | .free _ cachep objp => (cachep, objp) ∈ s.held
  | .shrink _ _ _ => True
  | .reap _ _ => True
  | .go t pages mgmt => MemoryFree s pages mgmt (s.thread t)

instance (s : Sys) : (a : Act) → Decidable (Valid s a)
  | .create _ _ _ cachep =>
    inferInstanceAs (Decidable (∀ p ∈ cachep, (cacheCache, p) ∈ s.held ∧ ¬ s.Known p))
  | .alloc _ cachep _ _ => inferInstanceAs (Decidable (s.Known cachep))
  | .free _ cachep objp => inferInstanceAs (Decidable ((cachep, objp) ∈ s.held))
  | .shrink _ _ _ => .isTrue trivial
  | .reap _ _ => .isTrue trivial
  | .go t pages mgmt => inferInstanceAs (Decidable (MemoryFree s pages mgmt (s.thread t)))

end PsxLinux.Slab
