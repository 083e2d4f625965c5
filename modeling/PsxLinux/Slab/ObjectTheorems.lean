import PsxLinux.Lib.FreeList
import PsxLinux.Slab.System
import PsxLinux.Slab.CacheTheorems

/-!
# Objects taken and given back

The invariant of the slab allocator. `Inv s free` gives every slab its free objects: the bufctl
chain visits them, the slab counts the others, and the callers hold only others. The lists of the
caches are in grade order (`Ring.Graded`), full slabs being of grade 0, partial ones of grade 1
and free ones of grade 2. Taking and giving back an object keep it.
-/

namespace PsxLinux.Slab

open Lib Function List

/-! ## The invariant -/

/-- 0 for a full slab, 1 for a partial one, 2 for a free one. -/
def grade (num : ℕ) (sl : SlabT) : ℕ :=
  if sl.inuse = num then 0 else if sl.inuse = 0 then 2 else 1

variable {num : ℕ}

lemma grade_eq_zero {sl : SlabT} : grade num sl = 0 ↔ sl.inuse = num := by
  unfold grade
  split_ifs <;> simp_all

lemma grade_pos {sl : SlabT} : 0 < grade num sl ↔ sl.inuse ≠ num := by
  rw [Nat.pos_iff_ne_zero, Ne, grade_eq_zero]

lemma grade_le_two (num : ℕ) (sl : SlabT) : grade num sl ≤ 2 := by
  unfold grade
  split_ifs <;> omega

lemma grade_le_one {sl : SlabT} (h : sl.inuse ≠ 0) : grade num sl ≤ 1 := by
  unfold grade
  split_ifs <;> omega

lemma grade_of_unused {sl : SlabT} (hnum : 0 < num) (h : sl.inuse = 0) : grade num sl = 2 := by
  rw [grade, if_neg (by omega), if_pos h]

/-- The slab is linked into the cache's list, or has been taken off it and is about to be
destroyed. -/
def Sys.Live (s : Sys) (cachep slabp : ℕ) : Prop :=
  (s.Known cachep ∧ slabp ∈ (s.cache cachep).slabs) ∨
    ∃ t freer, s.thread t = .destroying cachep slabp freer

/-- A slab with these free objects. -/
structure SlabOk (c : Cache) (cachep slabp : ℕ) (sl : SlabT) (page : ℕ → Page) (l : List ℕ) :
    Prop where
  free : FreeList sl.bufctl bufctlEnd c.num sl.free l
  inuse : sl.inuse + l.length = c.num
  aligned : sl.sMem = sl.pfn * pageSize + sl.colouroff
  room : sl.colouroff + c.num * c.objsize ≤ pageSize * 1 <<< c.gfporder
  pages : ∀ k < 1 <<< c.gfporder, page (sl.pfn + k) = ⟨true, cachep, slabp⟩

/-- The caller holds an object of a linked slab, one that is not free. -/
def HeldIn (s : Sys) (free : ℕ → List ℕ) (cachep objp : ℕ) : Prop :=
  s.Known cachep ∧ ∃ slabp ∈ (s.cache cachep).slabs, ∃ i < (s.cache cachep).num,
    i ∉ free slabp ∧ objp = (s.slab slabp).sMem + i * (s.cache cachep).objsize

/-- The caches a thread works on exist, and the colour it grows one with leaves room. -/
def PhaseOk (s : Sys) : Phase → Prop
  | .tryAgain cachep _ _ => s.Known cachep
  | .grow cachep _ _ offset =>
    s.Known cachep ∧ offset + (s.cache cachep).mgmtSize +
      (s.cache cachep).num * (s.cache cachep).objsize ≤ pageSize * 1 <<< (s.cache cachep).gfporder
  | .freeing cachep _ => s.Known cachep
  | .scanning _ _ _ bestCachep searchp => s.Known searchp ∧ ∀ c ∈ bestCachep, s.Known c
  | _ => True

structure Inv (s : Sys) (free : ℕ → List ℕ) : Prop where
  fits : ∀ c, s.Known c → (s.cache c).Fits
  graded : ∀ c, s.Known c → Ring.Graded (fun x => grade (s.cache c).num (s.slab x))
    (s.cache c).slabs (s.cache c).firstnotfull
  slabs : ∀ c x, s.Live c x → SlabOk (s.cache c) c x (s.slab x) s.page (free x) ∧ x ∈ s.mgmt
  doomed : ∀ t c x freer, s.thread t = .destroying c x freer →
    s.Known c ∧ x ∉ (s.cache c).slabs ∧ (s.slab x).inuse = 0
  apart : ∀ t t' c c' x freer freer', s.thread t = .destroying c x freer →
    s.thread t' = .destroying c' x freer' → t = t'
  held : ∀ c o, (c, o) ∈ s.held → HeldIn s free c o
  heldNodup : s.held.Nodup
  threads : ∀ t, PhaseOk s (s.thread t)
  clock : s.Known s.clockSearchp

variable {s s' : Sys} {free : ℕ → List ℕ} {c c' : ℕ} {x y i o t : ℕ}

/-! ## Where an object lies -/

namespace SlabOk

variable {C : Cache} {sl : SlabT} {page : ℕ → Page} {l : List ℕ}

/-- The page of an object leads back to its slab. -/
lemma page_object (h : SlabOk C c x sl page l) (hsize : 0 < C.objsize) (hi : i < C.num) :
    page ((sl.sMem + i * C.objsize) / pageSize) = ⟨true, c, x⟩ := by
  have hlt : i * C.objsize < C.num * C.objsize := Nat.mul_lt_mul_of_pos_right hi hsize
  have hroom := h.room
  have hdiv : (sl.sMem + i * C.objsize) / pageSize =
      sl.pfn + (sl.colouroff + i * C.objsize) / pageSize := by
    rw [h.aligned, Nat.add_assoc, Nat.mul_comm, Nat.mul_add_div (by decide)]
  rw [hdiv]
  refine h.pages _ ?_
  rw [Nat.div_lt_iff_lt_mul (by decide), Nat.mul_comm (1 <<< _)]
  omega

lemma inuse_le (h : SlabOk C c x sl page l) : sl.inuse ≤ C.num := by
  have := h.inuse
  omega

/-- In a free slab every object is free. -/
lemma mem_of_unused (h : SlabOk C c x sl page l) (hzero : sl.inuse = 0) (hi : i < C.num) :
    i ∈ l := by
  by_contra hnot
  have := h.free.length_lt hi hnot
  have := h.inuse
  omega

end SlabOk

lemma live_of_mem (hc : s.Known c) (hx : x ∈ (s.cache c).slabs) : s.Live c x := .inl ⟨hc, hx⟩

namespace Inv

/-- A slab belongs to one cache. -/
lemma owner_unique (h : Inv s free) (hx : s.Live c x) (hx' : s.Live c' x) : c = c' := by
  have hpos : ∀ k, 0 < 1 <<< k := fun k => by simp
  have hpage := (h.slabs c x hx).1.pages 0 (hpos _)
  have hpage' := (h.slabs c' x hx').1.pages 0 (hpos _)
  rw [hpage] at hpage'
  exact (Page.mk.inj hpage').2.1

/-- The cursor is on a slab with a free object. -/
lemma firstnotfull_mem (h : Inv s free) (hc : s.Known c) (hx : (s.cache c).firstnotfull = some x) :
    x ∈ (s.cache c).slabs ∧ (s.slab x).inuse ≠ (s.cache c).num := by
  have hfind := (h.graded c hc).cursor
  rw [hx] at hfind
  refine ⟨mem_of_find?_eq_some hfind.symm, fun hfull => ?_⟩
  have := find?_some hfind.symm
  simp [grade, hfull] at this

/-- An object of a linked slab is known by its page and its place. -/
lemma object_unique (h : Inv s free) {j : ℕ} (hc : s.Known c) (hx : x ∈ (s.cache c).slabs)
    (hi : i < (s.cache c).num) (hc' : s.Known c') (hy : y ∈ (s.cache c').slabs)
    (hj : j < (s.cache c').num)
    (heq : (s.slab x).sMem + i * (s.cache c).objsize =
      (s.slab y).sMem + j * (s.cache c').objsize) : c = c' ∧ x = y ∧ i = j := by
  have hpage := (h.slabs c x (live_of_mem hc hx)).1.page_object (h.fits c hc).objsize_pos hi
  have hpage' := (h.slabs c' y (live_of_mem hc' hy)).1.page_object (h.fits c' hc').objsize_pos hj
  rw [heq, hpage'] at hpage
  obtain ⟨-, rfl, rfl⟩ := Page.mk.inj hpage
  refine ⟨rfl, rfl, Nat.eq_of_mul_eq_mul_right (h.fits _ hc).objsize_pos ?_⟩
  omega

end Inv

/-! ## One slab and its cache change -/

/-- What of a cache never changes. -/
structure SameShape (C C' : Cache) : Prop where
  objsize : C'.objsize = C.objsize
  num : C'.num = C.num
  gfporder : C'.gfporder = C.gfporder
  flags : C'.flags = C.flags

lemma SameShape.refl (C : Cache) : SameShape C C := ⟨rfl, rfl, rfl, rfl⟩

lemma SameShape.update {C : Cache} (h : SameShape (s.cache c) C) :
    ∀ c', SameShape (s.cache c') (Function.update s.cache c C c') :=
  (forall_update_iff s.cache fun c' C' => SameShape (s.cache c') C').2 ⟨h, fun _ _ => .refl _⟩

lemma Inv.fits_update (h : Inv s free) {C : Cache} (hC : s.Known c → C.Fits) :
    ∀ c', s.Known c' → (Function.update s.cache c C c').Fits :=
  (forall_update_iff s.cache fun c' C' => s.Known c' → C'.Fits).2 ⟨hC, fun c' _ => h.fits c'⟩

lemma SameShape.mgmtSize {C C' : Cache} (h : SameShape C C') : C'.mgmtSize = C.mgmtSize := by
  simp only [Cache.mgmtSize, h.flags, h.num]

/-- A slab depends on the shape of its cache and on its own pages. -/
lemma SlabOk.congr {C C' : Cache} {sl : SlabT} {page page' : ℕ → Page} {l : List ℕ}
    (h : SlabOk C c x sl page l) (hshape : SameShape C C')
    (hpage : ∀ k < 1 <<< C.gfporder, page' (sl.pfn + k) = page (sl.pfn + k)) :
    SlabOk C' c x sl page' l where
  free := by rw [hshape.num]; exact h.free
  inuse := by rw [hshape.num]; exact h.inuse
  aligned := h.aligned
  room := by rw [hshape.num, hshape.objsize, hshape.gfporder]; exact h.room
  pages := by
    rw [hshape.gfporder]
    intro k hk
    rw [hpage k hk]
    exact h.pages k hk

/-- A thread's caches are still there, in their old shape. -/
lemma PhaseOk.mono {p : Phase} (h : PhaseOk s p) (hknown : ∀ c, s.Known c → s'.Known c)
    (hshape : ∀ c, s.Known c → SameShape (s.cache c) (s'.cache c)) : PhaseOk s' p := by
  cases p with
  | grow cachep flags inInterrupt offset =>
    obtain ⟨hk, hroom⟩ := h
    have hsame := hshape _ hk
    refine ⟨hknown _ hk, ?_⟩
    rwa [hsame.mgmtSize, hsame.num, hsame.objsize, hsame.gfporder]
  | scanning => exact ⟨hknown _ h.1, fun c hc => hknown _ (h.2 c hc)⟩
  | tryAgain | freeing => exact hknown _ h
  | idle | oops | destroying => trivial

/-- An object is still held if its slab is still linked, at the same place. -/
lemma HeldIn.congr {free' : ℕ → List ℕ} (h : HeldIn s free c o) (hknown : s'.Known c)
    (hshape : SameShape (s.cache c) (s'.cache c))
    (hslab : ∀ y ∈ (s.cache c).slabs, ∀ i < (s.cache c).num, i ∉ free y →
      y ∈ (s'.cache c).slabs ∧ i ∉ free' y ∧ (s'.slab y).sMem = (s.slab y).sMem) :
    HeldIn s' free' c o := by
  obtain ⟨-, y, hy, i, hi, hnot, heq⟩ := h
  obtain ⟨hy', hnot', hmem⟩ := hslab y hy i hi hnot
  refine ⟨hknown, y, hy', i, hi.trans_eq hshape.num.symm, hnot', ?_⟩
  rw [hmem, hshape.objsize, heq]

/-- **One object.** A linked slab gets other free objects, its cache the same slabs in another
order. -/
theorem Inv.setSlab (h : Inv s free) (hc : s.Known c) (hx : x ∈ (s.cache c).slabs)
    {C : Cache} {S : SlabT} {l : List ℕ} {held : List (ℕ × ℕ)}
    (hshape : SameShape (s.cache c) C) (hfits : C.Fits)
    (hmem : ∀ y, y ∈ C.slabs ↔ y ∈ (s.cache c).slabs)
    (hgraded : Ring.Graded (fun y => grade C.num (update s.slab x S y)) C.slabs C.firstnotfull)
    (hmemory : S.sMem = (s.slab x).sMem ∧ S.colouroff = (s.slab x).colouroff)
    (hfree : FreeList S.bufctl bufctlEnd C.num S.free l) (hinuse : S.inuse + l.length = C.num)
    (hheld : ∀ c' o, (c', o) ∈ held → HeldIn s (update free x l) c' o)
    (hnodup : held.Nodup) :
    Inv { (s.setSlab x S).setCache c C with held := held } (update free x l) := by
  have hcache := hshape.update
  have hslabs : ∀ c' y, y ∈ (update s.cache c C c').slabs ↔ y ∈ (s.cache c').slabs :=
    (forall_update_iff s.cache fun c' C' => ∀ y, y ∈ C'.slabs ↔ y ∈ (s.cache c').slabs).2
      ⟨hmem, fun _ _ _ => Iff.rfl⟩
  have hsMem : ∀ y, (update s.slab x S y).sMem = (s.slab y).sMem :=
    (forall_update_iff s.slab fun y S' => S'.sMem = (s.slab y).sMem).2 ⟨hmemory.1, fun _ _ => rfl⟩
  -- the slab is in no other cache's list
  have hother : ∀ c', s.Known c' → c' ≠ c → ∀ y ∈ (s.cache c').slabs, y ≠ x := by
    rintro c' hc' hne y hy rfl
    exact hne (h.owner_unique (live_of_mem hc' hy) (live_of_mem hc hx))
  have hlive : ∀ c' y, Sys.Live { (s.setSlab x S).setCache c C with held := held } c' y →
      s.Live c' y := by
    rintro c' y (⟨hc', hy⟩ | hdoomed)
    · exact .inl ⟨hc', (hslabs c' y).1 hy⟩
    · exact .inr hdoomed
  refine ⟨h.fits_update fun _ => hfits, ?_, ?_, ?_, h.apart, ?_, hnodup, ?_, h.clock⟩
  · intro c' hc'
    show Ring.Graded (fun y => grade (update s.cache c C c').num
      (update s.slab x S y)) (update s.cache c C c').slabs
      (update s.cache c C c').firstnotfull
    by_cases heq : c' = c
    · rwa [heq, update_self]
    · rw [update_of_ne heq]
      refine (h.graded c' hc').congr fun y hy => ?_
      rw [update_of_ne (hother c' hc' heq y hy)]
  · intro c' y hy
    obtain ⟨hok, hmgmt⟩ := h.slabs c' y (hlive c' y hy)
    refine ⟨?_, hmgmt⟩
    show SlabOk (update s.cache c C c') c' y (update s.slab x S y) s.page (update free x l y)
    by_cases heq : y = x
    · subst heq
      obtain rfl := h.owner_unique (hlive c' y hy) (live_of_mem hc hx)
      rw [update_self, update_self, update_self]
      have hpfn : S.pfn = (s.slab y).pfn := by simp only [SlabT.pfn, hmemory]
      refine ⟨hfree, hinuse, ?_, ?_, ?_⟩
      · rw [hmemory.1, hmemory.2, hpfn]
        exact hok.aligned
      · rw [hmemory.2, hshape.num, hshape.objsize, hshape.gfporder]
        exact hok.room
      · rw [hpfn, hshape.gfporder]
        exact hok.pages
    · rw [update_of_ne heq, update_of_ne heq]
      exact hok.congr (hcache c') fun _ _ => rfl
  · intro t c' y freer ht
    obtain ⟨hc', hnot, hzero⟩ := h.doomed t c' y freer ht
    refine ⟨hc', fun hy => hnot ((hslabs c' y).1 hy), ?_⟩
    have hne : y ≠ x := by
      rintro rfl
      obtain rfl := h.owner_unique (.inr ⟨t, freer, ht⟩) (live_of_mem hc hx)
      exact hnot hx
    show (update s.slab x S y).inuse = 0
    rwa [update_of_ne hne]
  · intro c' o ho
    have hin := hheld c' o ho
    exact hin.congr hin.1 (hcache c') fun y hy _ _ hnot => ⟨(hslabs c' y).2 hy, hnot, hsMem y⟩
  · exact fun t => (h.threads t).mono (fun _ hc' => hc') fun c' _ => hcache c'

/-! ## Taking an object -/

/-- `kmem_cache_alloc_one_tail` on the first slab that is not full returns an object that nobody
holds. -/
lemma Inv.allocOneTail (h : Inv s free) (hc : s.Known c) (hx : (s.cache c).firstnotfull = some x) :
    (∃ free', Inv { (kmemCacheAllocOneTail s c x).1 with
      held := (c, (kmemCacheAllocOneTail s c x).2) :: s.held } free') ∧
      ∀ c', (c', (kmemCacheAllocOneTail s c x).2) ∉ s.held := by
  obtain ⟨hmem, hnotfull⟩ := h.firstnotfull_mem hc hx
  have hok := (h.slabs c x (live_of_mem hc hmem)).1
  have hinuse := hok.inuse
  obtain ⟨i, l, hl⟩ : ∃ i l, free x = i :: l := by
    cases hf : free x with
    | nil =>
      rw [hf, length_nil] at hinuse
      omega
    | cons i l => exact ⟨i, l, rfl⟩
  rw [hl, length_cons] at hinuse
  obtain ⟨hi, hpop⟩ := (hl ▸ hok.free).pop
  have hilt : i < (s.cache c).num := hok.free.lt i (by simp [hl])
  have hinot : i ∉ l := by
    have := hok.free.nodup
    rw [hl] at this
    exact (nodup_cons.1 this).1
  have hfresh : ∀ c', (c', (s.slab x).sMem + i * (s.cache c).objsize) ∉ s.held := by
    intro c' ho
    obtain ⟨hc', y, hy, j, hj, hnot, heq⟩ := h.held c' _ ho
    obtain ⟨-, rfl, rfl⟩ := h.object_unique hc hmem hilt hc' hy hj heq
    exact hnot (by simp [hl])
  -- the slab is full when the chain is at its end
  have hend : (s.slab x).bufctl (s.slab x).free = bufctlEnd ↔
      (s.slab x).inuse + 1 = (s.cache c).num := by
    rw [hpop.eq_stop_iff, ← length_eq_zero_iff]
    omega
  have hgraded := h.graded c hc
  rw [hx] at hgraded
  have hlower := hgraded.lower
    (fun y => grade (s.cache c).num (update s.slab x
      { s.slab x with
        inuse := (s.slab x).inuse + 1, free := (s.slab x).bufctl (s.slab x).free } y))
    (by
      rw [update_self]
      exact (grade_le_one (Nat.succ_ne_zero _)).trans (grade_pos.2 hnotfull))
    fun y hy => by rw [update_of_ne hy]
  refine ⟨⟨update free x l, ?_⟩, ?_⟩
  · refine h.setSlab hc hmem ⟨rfl, rfl, rfl, rfl⟩ { h.fits c hc with } (fun _ => Iff.rfl) ?_
      ⟨rfl, rfl⟩ hpop (by simp only; omega) ?_ ?_
    · simpa only [update_self, grade_eq_zero, ← hend, ← hx] using hlower
    · intro c' o ho
      rcases mem_cons.1 ho with heq | ho
      · cases heq
        refine ⟨hc, x, hmem, i, hilt, ?_, by rw [← hi]; rfl⟩
        rwa [update_self]
      · have hin := h.held c' o ho
        refine hin.congr hin.1 (.refl _) fun y hy j _ hnot => ⟨hy, fun hmem => hnot ?_, rfl⟩
        rcases eq_or_ne y x with rfl | hne
        · rw [update_self] at hmem
          exact hl ▸ mem_cons_of_mem i hmem
        · rwa [update_of_ne hne] at hmem
    · refine nodup_cons.2 ⟨?_, h.heldNodup⟩
      rw [← hi] at hfresh
      exact hfresh c
  · show ∀ c', (c', (s.slab x).sMem + (s.slab x).free * (s.cache c).objsize) ∉ s.held
    rwa [hi]

/-! ## Giving an object back -/

/-- The list and the cursor of a cache once a slab has one object less in use. -/
def freedList (c : Cache) (slabp inuse : ℕ) : List ℕ × Option ℕ :=
  if inuse = c.num then
    (if Ring.next c.slabs (some slabp) = c.firstnotfull then c.slabs
      else Ring.insertBefore (c.slabs.erase slabp) slabp c.firstnotfull, some slabp)
  else if inuse - 1 = 0 then
    (c.slabs.erase slabp ++ [slabp],
      if c.firstnotfull = some slabp then
        Ring.next (c.slabs.erase slabp ++ [slabp]) (Ring.prev c.slabs c.firstnotfull)
      else c.firstnotfull)
  else (c.slabs, c.firstnotfull)

/-- `kmem_cache_free_one` as one update of the slab and one of the cache. -/
lemma kmemCacheFreeOne_eq (s : Sys) (c o : ℕ) (hx : (s.page (o / pageSize)).slab = x)
    (hi : (o - (s.slab x).sMem) / (s.cache c).objsize = i) :
    kmemCacheFreeOne s c o = (s.setSlab x { s.slab x with
        bufctl := update (s.slab x).bufctl i (s.slab x).free, free := i,
        inuse := (s.slab x).inuse - 1 }).setCache c { s.cache c with
        slabs := (freedList (s.cache c) x (s.slab x).inuse).1
        firstnotfull := (freedList (s.cache c) x (s.slab x).inuse).2 } := by
  subst hx hi
  simp only [kmemCacheFreeOne, freedList]
  split_ifs
  · rfl
  · rfl
  · rfl
  · rfl
  · -- nothing is written to the cache
    simp only [Sys.setCache, Sys.setSlab, update_eq_self]

/-- Behind a free the slab moves to its place among the others. -/
lemma Inv.freedList_graded (h : Inv s free) (hc : s.Known c) (hx : x ∈ (s.cache c).slabs)
    {S : SlabT} (hused : (s.slab x).inuse ≠ 0) (hS : S.inuse = (s.slab x).inuse - 1) :
    Ring.Graded (fun y => grade (s.cache c).num (update s.slab x S y))
      (freedList (s.cache c) x (s.slab x).inuse).1
      (freedList (s.cache c) x (s.slab x).inuse).2 := by
  have hgraded := h.graded c hc
  have hle := (h.slabs c x (live_of_mem hc hx)).1.inuse_le
  have hother : ∀ y, y ≠ x → grade (s.cache c).num (update s.slab x S y) =
      grade (s.cache c).num (s.slab y) := fun y hy => by rw [update_of_ne hy]
  have hself : grade (s.cache c).num (update s.slab x S x) = grade (s.cache c).num S := by
    rw [update_self]
  have hnum := (h.fits c hc).num_pos
  by_cases hfull : (s.slab x).inuse = (s.cache c).num
  · -- of the slabs that are not full, none is of a lower grade
    rw [freedList, if_pos hfull]
    refine hgraded.raise _ hx (grade_eq_zero.2 hfull) ?_ ?_ hother
    · rw [hself, grade_pos]
      omega
    · intro y hy hpos
      rw [hself]
      by_cases hone : S.inuse = 0
      · have hyle := (h.slabs c y (live_of_mem hc hy)).1.inuse_le
        have hyfull := grade_pos.1 hpos
        rw [grade_of_unused hnum hone, grade_of_unused hnum (show (s.slab y).inuse = 0 by omega)]
      · exact (grade_le_one hone).trans hpos
  by_cases hlast : (s.slab x).inuse - 1 = 0
  · rw [freedList, if_neg hfull, if_pos hlast]
    refine hgraded.retire _ hx (grade_pos.2 hfull) (fun y _ => ?_) hother
    rw [hself, grade_of_unused hnum (hS.trans hlast)]
    exact grade_le_two _ _
  · rw [freedList, if_neg hfull, if_neg hlast]
    refine hgraded.congr fun y _ => ?_
    by_cases heq : y = x
    · rw [heq, hself, grade, grade, if_neg (by omega), if_neg (by omega), if_neg hfull,
        if_neg (by omega)]
    · exact hother y heq

lemma mem_freedList {C : Cache} (hx : x ∈ C.slabs) (inuse y : ℕ) :
    y ∈ (freedList C x inuse).1 ↔ y ∈ C.slabs := by
  unfold freedList
  split_ifs
  · exact Iff.rfl
  · exact Ring.mem_insertBefore_erase hx y _
  iterate 2 exact Ring.mem_insertBefore_erase hx y none
  · exact Iff.rfl

/-- **`kmem_cache_free`** keeps the invariant. -/
lemma Inv.kmemCacheFree (h : Inv s free) (ho : (c, o) ∈ s.held) :
    ∃ free', Inv (kmemCacheFree s c o) free' := by
  obtain ⟨hc, x, hx, i, hi, hnot, heq⟩ := h.held c o ho
  have hok := (h.slabs c x (live_of_mem hc hx)).1
  have hpos := (h.fits c hc).objsize_pos
  have hpage : (s.page (o / pageSize)).slab = x := by rw [heq, hok.page_object hpos hi]
  have hobjnr : (o - (s.slab x).sMem) / (s.cache c).objsize = i := by
    rw [heq, Nat.add_sub_cancel_left, Nat.mul_div_cancel _ hpos]
  have hinuse := hok.inuse
  have hlt := hok.free.length_lt hi hnot
  refine ⟨update free x (i :: free x), ?_⟩
  rw [PsxLinux.Slab.kmemCacheFree, kmemCacheFreeOne_eq s c o hpage hobjnr]
  refine h.setSlab hc hx ⟨rfl, rfl, rfl, rfl⟩ { h.fits c hc with }
    (fun y => mem_freedList hx _ y) (h.freedList_graded hc hx (by omega) rfl) ⟨rfl, rfl⟩
    (hok.free.push hi (h.fits c hc).num_lt.le hnot) (by simp only [length_cons]; omega) ?_
    (h.heldNodup.erase _)
  -- the callers' other objects are not the one given back
  intro c' o' ho'
  obtain ⟨hne, ho'⟩ := h.heldNodup.mem_erase_iff.1 ho'
  obtain ⟨hc', y, hy, j, hj, hnot', heq'⟩ := h.held c' o' ho'
  refine ⟨hc', y, hy, j, hj, fun hmem => ?_, heq'⟩
  by_cases hyx : y = x
  · subst hyx
    obtain rfl := h.owner_unique (live_of_mem hc' hy) (live_of_mem hc hx)
    rw [update_self] at hmem
    rcases mem_cons.1 hmem with rfl | hmem
    · exact hne (by rw [heq, heq'])
    · exact hnot' hmem
  · rw [update_of_ne hyx] at hmem
    exact hnot' hmem

end PsxLinux.Slab
