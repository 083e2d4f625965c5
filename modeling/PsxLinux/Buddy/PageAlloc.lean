import PsxLinux.Lib.Exec
import PsxLinux.Lib.Blocks

/-!
# The buddy page allocator

`__free_pages_ok`, `rmqueue` and `expand` of `mmnommu/page_alloc.c` for one zone, with the
32-bit arithmetic of the source on masks, indices and page counts. A page is its index in
`mem_map`; a free list is the list of its pages, head first.

Every `BUG()` of the three functions is a `Bug`, and so is what the source does not check but
would corrupt memory: a bit past the end of a map, or taking a page off a list it is not on.
-/

namespace PsxLinux.Buddy

open Lib Function

def maxOrder : ℕ := 10

/-! ## Pages and zones -/

/-- The fields of a `struct page` that the allocator looks at. -/
structure Page where
  zone : ℕ
  reserved : Bool
  buffers : Bool
  mapping : Bool
  swapCache : Bool
  locked : Bool
  decrAfter : Bool
  dirty : Bool
  active : Bool
  inactiveDirty : Bool
  inactiveClean : Bool
  referenced : Bool
  age : ℕ
  count : ℕ

/-- A zone of `mem_map`. The array has `max_mapnr` entries, and as its entries take more than
four bytes each there are fewer than `2 ^ 30`. -/
structure Zone where
  id : ℕ
  offset : ℕ
  size : ℕ
  maxMapnr : ℕ
  inside : offset + size ≤ maxMapnr
  small : maxMapnr ≤ 2 ^ 30

/-- What the allocator changes: `zone->free_pages`, the free lists and maps of
`zone->free_area`, the pages and `memory_pressure`. -/
structure Mem where
  freePages : UInt32
  freeList : ℕ → List ℕ
  map : ℕ → ℕ → Bool
  page : ℕ → Page
  memoryPressure : ℤ

inductive Bug where
  | buffers
  | mapping
  | invalidPage
  | swapCache
  | locked
  | decrAfter
  | dirty
  | active
  | inactiveDirty
  | inactiveClean
  | misaligned
  | areaOverrun
  | badRange
  | addPage
  /-- A bit past the end of the map. -/
  | mapOverrun
  /-- `list_del` of a page that is on no list. -/
  | notOnList
  /-- The merge loop goes on for ever. -/
  | endless
deriving DecidableEq

def badRange (z : Zone) (m : Mem) (x : ℕ) : Bool :=
  decide ((m.page x).zone ≠ z.id ∨ x < z.offset ∨ z.offset + z.size ≤ x)

/-! ## The maps -/

/-- `mask` and `size` after turn `i` of the loop of `free_area_init_core`. -/
def initSizes (size : UInt32) : ℕ → UInt32 × UInt32
  | 0 => turn (-1, size)
  | i + 1 => turn (initSizes size i)
where
  /-- `mask += mask; size = (size + ~mask) & mask;` -/
  turn (r : UInt32 × UInt32) : UInt32 × UInt32 :=
    (r.1 + r.1, (r.2 + ~~~ (r.1 + r.1)) &&& (r.1 + r.1))

/-- Bits in `free_area[order].map`, as `free_area_init_core` allocates it. -/
def mapBits (z : Zone) (order : ℕ) : ℕ :=
  let bitmapSize := (initSizes (UInt32.ofNat z.size) order).2 >>> UInt32.ofNat order
  let bitmapSize := (bitmapSize + 7) >>> 3
  -- `LONG_ALIGN`
  let bitmapSize := (bitmapSize + 3) &&& ~~~ 3
  8 * bitmapSize.toNat

def Mem.changeBit (m : Mem) (area index : ℕ) : Mem :=
  { m with
    map := update m.map area (update (m.map area) index (!m.map area index)) }

def testAndChangeBit (z : Zone) (m : Mem) (area index : ℕ) : Except Bug (Bool × Mem) :=
  if index < mapBits z area then .ok (m.map area index, m.changeBit area index)
  else .error .mapOverrun

/-! ## The lists -/

/-- `memlist_add_head (&page->list, &area->free_list)` -/
def Mem.addHead (m : Mem) (area page : ℕ) : Mem :=
  { m with freeList := update m.freeList area (page :: m.freeList area) }

/-- `memlist_del (&page->list)`: the page leaves whatever list it is on. -/
def Mem.del (m : Mem) (page : ℕ) : Except Bug Mem :=
  if (List.range maxOrder).any fun k => decide (page ∈ m.freeList k) then
    .ok { m with freeList := fun k => (m.freeList k).erase page }
  else .error .notOnList

/-! ## `__free_pages_ok` -/

/-- The tests on the page that is freed. -/
def checkPage (z : Zone) (m : Mem) (page : ℕ) : Except Bug Unit :=
  if (m.page page).buffers then .error .buffers
  else if (m.page page).mapping then .error .mapping
  else if ¬ page < z.maxMapnr then .error .invalidPage
  else if (m.page page).swapCache then .error .swapCache
  else if (m.page page).locked then .error .locked
  else if (m.page page).decrAfter then .error .decrAfter
  else if (m.page page).dirty then .error .dirty
  else if (m.page page).active then .error .active
  else if (m.page page).inactiveDirty then .error .inactiveDirty
  else if (m.page page).inactiveClean then .error .inactiveClean
  else .ok ()

/-- `while (mask + (1 << (MAX_ORDER-1)))`: returns `area`, `page_idx` and the memory where
the loop is left. -/
def mergeLoop (z : Zone) : (fuel area : ℕ) → (mask pageIdx index : UInt32) → Mem →
    Except Bug (ℕ × UInt32 × Mem)
  | 0, _, _, _, _, _ => .error .endless
  | fuel + 1, area, mask, pageIdx, index, m =>
    if mask + 1 <<< UInt32.ofNat (maxOrder - 1) ≠ 0 then
      if maxOrder ≤ area then .error .areaOverrun
      else
        match testAndChangeBit z m area index.toNat with
        | .error b => .error b
        | .ok (false, m) => .ok (area, pageIdx, m)   -- the buddy page is still allocated
        | .ok (true, m) =>
          -- move the buddy up one level
          let buddy1 := z.offset + (pageIdx ^^^ -mask).toNat
          let buddy2 := z.offset + pageIdx.toNat
          if badRange z m buddy1 then .error .badRange
          else if badRange z m buddy2 then .error .badRange
          else
            match m.del buddy1 with
            | .error b => .error b
            | .ok m =>
              let mask := mask <<< 1
              mergeLoop z fuel (area + 1) mask (pageIdx &&& mask) (index >>> 1) m
    else .ok (area, pageIdx, m)

def pageAgeStart : ℕ := 2

def nrCpus : ℤ := 1

/-- `__free_pages_ok (page, order)`, for a page of this zone. -/
def freePagesOk (z : Zone) (m : Mem) (page order : ℕ) : Except Bug Mem :=
  if (m.page page).reserved then .ok m
  else
    match checkPage z m page with
    | .error b => .error b
    | .ok _ =>
      let m := { m with
        page := update m.page page
          { m.page page with referenced := false, age := pageAgeStart } }
      let mask : UInt32 := (~~~ 0) <<< UInt32.ofNat order
      let pageIdx := UInt32.ofNat page - UInt32.ofNat z.offset
      if pageIdx &&& ~~~ mask ≠ 0 then .error .misaligned
      else
        let index := pageIdx >>> UInt32.ofNat (1 + order)
        let m := { m with freePages := m.freePages - mask }
        match mergeLoop z (maxOrder + 1) order mask pageIdx index m with
        | .error b => .error b
        | .ok (area, pageIdx, m) =>
          let m := m.addHead area (z.offset + pageIdx.toNat)
          .ok { m with memoryPressure :=
            if nrCpus < m.memoryPressure then m.memoryPressure - 1 else m.memoryPressure }

/-! ## `rmqueue` -/

def markUsed (z : Zone) (m : Mem) (index : UInt32) (order area : ℕ) : Except Bug Mem :=
  match testAndChangeBit z m area (index >>> UInt32.ofNat (1 + order)).toNat with
  | .error b => .error b
  | .ok (_, m) => .ok m

/-- `expand (zone, page, index, low, high, area)`: split the block down to order `low`. -/
def expand (z : Zone) (low : ℕ) : (high page : ℕ) → (index : UInt32) → (area : ℕ) → Mem →
    Except Bug (ℕ × Mem)
  | 0, page, _, _, m => if badRange z m page then .error .badRange else .ok (page, m)
  | high + 1, page, index, area, m =>
    if low < high + 1 then
      if badRange z m page then .error .badRange
      else
        let m := m.addHead (area - 1) page
        match markUsed z m index high (area - 1) with
        | .error b => .error b
        | .ok m => expand z low high (page + 2 ^ high) (index + UInt32.ofNat (2 ^ high)) (area - 1) m
    else if badRange z m page then .error .badRange else .ok (page, m)

/-- `do { .. } while (curr_order < MAX_ORDER)`, with `fuel` turns to go. -/
def rmqueueLoop (z : Zone) (order : ℕ) : (fuel currOrder : ℕ) → Mem → Except Bug (Option ℕ × Mem)
  | 0, _, m => .ok (none, m)
  | fuel + 1, currOrder, m =>
    match m.freeList currOrder with
    | page :: rest =>
      if badRange z m page then .error .badRange
      else
        let m := { m with freeList := update m.freeList currOrder rest }
        let index := UInt32.ofNat page - UInt32.ofNat z.offset
        match markUsed z m index currOrder currOrder with
        | .error b => .error b
        | .ok m =>
          let m := { m with freePages := m.freePages - 1 <<< UInt32.ofNat order }
          match expand z order currOrder page index currOrder m with
          | .error b => .error b
          | .ok (page, m) =>
            let m := { m with page := update m.page page { m.page page with count := 1 } }
            if badRange z m page then .error .badRange
            else if (m.page page).active || (m.page page).inactiveDirty ||
                (m.page page).inactiveClean then .error .addPage
            else .ok (some page, m)
    | [] => rmqueueLoop z order fuel (currOrder + 1) m

def rmqueue (z : Zone) (m : Mem) (order : ℕ) : Except Bug (Option ℕ × Mem) :=
  rmqueueLoop z order (maxOrder - order) order m

/-! ## Sequences of calls -/

/-- The allocator and its outstanding allocations, by zone index and order. -/
structure Sys where
  mem : Mem
  owned : List Block
  bug : Option Bug

inductive Act where
  /-- `rmqueue (zone, order)` -/
  | alloc (order : ℕ)
  /-- `__free_pages_ok (page, order)` -/
  | free (page order : ℕ)

/-- One call. Orders are below `MAX_ORDER`, and only what is allocated is freed, with the
order it was allocated with. Nothing follows a bug. -/
def step (z : Zone) (s : Sys) (a : Act) : Option (Sys × List Unit) :=
  if s.bug.isSome then none
  else
    match a with
    | .alloc order =>
      if order < maxOrder then
        match rmqueue z s.mem order with
        | .error b => some ({ s with bug := some b }, [])
        | .ok (none, m) => some ({ s with mem := m }, [])
        | .ok (some page, m) =>
          some ({ s with mem := m, owned := ⟨page - z.offset, order⟩ :: s.owned }, [])
      else none
    | .free page order =>
      if z.offset ≤ page ∧ ⟨page - z.offset, order⟩ ∈ s.owned then
        match freePagesOk z s.mem page order with
        | .error b => some ({ s with bug := some b }, [])
        | .ok m => some ({ s with mem := m, owned := s.owned.erase ⟨page - z.offset, order⟩ }, [])
      else none

/-- A page with none of the flags that the allocator objects to. -/
def Page.clean (p : Page) : Bool :=
  !(p.reserved || p.buffers || p.mapping || p.swapCache || p.locked || p.decrAfter || p.dirty ||
    p.active || p.inactiveDirty || p.inactiveClean)

/-- A zone with all its pages allocated, in blocks of any orders. -/
structure Boot (z : Zone) where
  owned : List Block
  page : ℕ → Page
  memoryPressure : ℤ
  tiles : Tiles z.size owned
  orders : ∀ b ∈ owned, b.order < maxOrder
  zones : ∀ x, z.offset ≤ x → x < z.offset + z.size → (page x).zone = z.id
  clean : ∀ x, z.offset ≤ x → x < z.offset + z.size → (page x).clean

/-- The allocator right after `free_area_init_core`. -/
def Boot.init {z : Zone} (b : Boot z) : Sys where
  mem := {
    freePages := 0
    freeList := fun _ => []
    map := fun _ _ => false
    page := b.page
    memoryPressure := b.memoryPressure }
  owned := b.owned
  bug := none

end PsxLinux.Buddy
