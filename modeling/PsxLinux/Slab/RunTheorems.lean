import PsxLinux.Slab.ObjectTheorems

/-!
# The slab allocator over whole runs

Every step keeps the invariant of `PsxLinux.Slab.ObjectTheorems`: a new slab is linked behind all
others, a free one is taken off the end of its list and destroyed, and what else the calls do
changes no list. `slabs_sound` is the result.
-/

namespace PsxLinux.Slab

open Lib Function List

variable {s s' : Sys} {free : ℕ → List ℕ} {c : ℕ} {x t : ℕ} {p : Phase}
variable {r : Sys × List Event} {slab : ℕ → SlabT} {C : Cache} {page : ℕ → Page}
variable {sizeofCache bestPages searchp bestLen : ℕ} {mgmt best : Option ℕ} {freer : Freer}

/-! ## Steps that change no list -/

/-- The cache keeps its shape, its slabs and its cursor. -/
structure SameSlabs (C C' : Cache) : Prop extends SameShape C C' where
  slabs : C'.slabs = C.slabs
  firstnotfull : C'.firstnotfull = C.firstnotfull

lemma SameSlabs.refl (C : Cache) : SameSlabs C C := ⟨.refl C, rfl, rfl⟩

section
variable (h : Inv s free)
include h

/-- Nothing happens to the slabs. Caches may be new, with no slabs yet. -/
lemma Inv.frame (hslab : s'.slab = s.slab) (hpage : s'.page = s.page)
    (hmgmt : s'.mgmt = s.mgmt) (hheld : s'.held = s.held)
    (hold : ∀ c, s.Known c → s'.Known c ∧ SameSlabs (s.cache c) (s'.cache c))
    (hnew : ∀ c, s'.Known c → (s'.cache c).Fits ∧
      (s.Known c ∨ ((s'.cache c).slabs = [] ∧ (s'.cache c).firstnotfull = none)))
    (hdoomed : ∀ t c x freer, s'.thread t = .destroying c x freer →
      s.thread t = .destroying c x freer)
    (hthreads : ∀ t, PhaseOk s' (s'.thread t)) (hclock : s'.Known s'.clockSearchp) :
    Inv s' free := by
  have hlive : ∀ c x, s'.Live c x → s.Live c x ∧ s.Known c := by
    rintro c x (⟨hc, hx⟩ | ⟨t, freer, ht⟩)
    · rcases (hnew c hc).2 with hk | ⟨hnil, -⟩
      · rw [(hold c hk).2.slabs] at hx
        exact ⟨.inl ⟨hk, hx⟩, hk⟩
      · simp [hnil] at hx
    · have ht' := hdoomed t c x freer ht
      exact ⟨.inr ⟨t, freer, ht'⟩, (h.doomed t c x freer ht').1⟩
  refine ⟨fun c hc => (hnew c hc).1, ?_, ?_, ?_, ?_, ?_, hheld ▸ h.heldNodup, hthreads, hclock⟩
  · intro c hc
    rw [hslab]
    rcases (hnew c hc).2 with hk | ⟨hslabs, hfirst⟩
    · rw [(hold c hk).2.slabs, (hold c hk).2.firstnotfull, (hold c hk).2.num]
      exact h.graded c hk
    · rw [hslabs, hfirst]
      exact ⟨nodup_nil, Pairwise.nil, rfl⟩
  · intro c x hx
    obtain ⟨hx', hk⟩ := hlive c x hx
    obtain ⟨hok, hm⟩ := h.slabs c x hx'
    rw [hslab, hpage, hmgmt]
    exact ⟨hok.congr (hold c hk).2.toSameShape fun _ _ => rfl, hm⟩
  · intro t c x freer ht
    obtain ⟨hk, hnot, hzero⟩ := h.doomed t c x freer (hdoomed t c x freer ht)
    rw [hslab, (hold c hk).2.slabs]
    exact ⟨(hold c hk).1, hnot, hzero⟩
  · intro t t' c c' x freer freer' ht ht'
    exact h.apart t t' c c' x freer freer' (hdoomed _ _ _ _ ht) (hdoomed _ _ _ _ ht')
  · intro c o ho
    have hin := h.held c o (hheld ▸ ho)
    obtain ⟨hknown, hsame⟩ := hold c hin.1
    exact hin.congr hknown hsame.toSameShape fun x hx _ _ hnot =>
      ⟨hsame.slabs ▸ hx, hnot, by rw [hslab]⟩

lemma Inv.setThread (t : ℕ) (hp : PhaseOk s p)
    (hnot : ∀ c x freer, p ≠ .destroying c x freer) : Inv (s.setThread t p) free := by
  refine h.frame rfl rfl rfl rfl (fun c hc => ⟨hc, .refl _⟩) (fun c hc => ⟨h.fits c hc, .inl hc⟩)
    ?_ ?_ h.clock
  · intro t' c x freer ht'
    rcases update_cases ht' with ⟨-, heq⟩ | ⟨-, ht'⟩
    · exact absurd heq (hnot c x freer)
    · exact ht'
  · exact (forall_update_iff s.thread fun _ p => PhaseOk s p).2 ⟨hp, fun t' _ => h.threads t'⟩

lemma Inv.setCache (hsame : SameSlabs (s.cache c) C)
    (hfits : s.Known c → C.Fits) : Inv (s.setCache c C) free := by
  have hcache : ∀ c', SameSlabs (s.cache c') (update s.cache c C c') :=
    (forall_update_iff s.cache fun c' C' => SameSlabs (s.cache c') C').2 ⟨hsame, fun _ _ => .refl _⟩
  exact h.frame rfl rfl rfl rfl (fun c' hc' => ⟨hc', hcache c'⟩)
    (fun c' hc' => ⟨h.fits_update hfits c' hc', .inl hc'⟩) (fun _ _ _ _ ht => ht)
    (fun t => (h.threads t).mono (fun _ hc => hc) fun c' _ => (hcache c').toSameShape) h.clock

lemma Inv.setChainSem (up : Bool) : Inv { s with chainSem := up } free :=
  h.frame rfl rfl rfl rfl (fun _ hc => ⟨hc, .refl _⟩) (fun c hc => ⟨h.fits c hc, .inl hc⟩)
    (fun _ _ _ _ ht => ht) h.threads h.clock

lemma Inv.setClock (hc : s.Known c) : Inv { s with clockSearchp := c } free :=
  h.frame rfl rfl rfl rfl (fun _ hc => ⟨hc, .refl _⟩) (fun c hc => ⟨h.fits c hc, .inl hc⟩)
    (fun _ _ _ _ ht => ht) h.threads hc

/-- A new cache without slabs enters the chain. -/
lemma Inv.link (hc : ¬ s.Known c) (hfits : C.Fits)
    (hslabs : C.slabs = []) (hfirst : C.firstnotfull = none) :
    Inv ({ s with chain := c :: s.chain }.setCache c C) free := by
  have hknown : ∀ c', s.Known c' →
      Sys.Known ({ s with chain := c :: s.chain }.setCache c C) c' := fun c' hc' =>
    hc'.imp id (mem_cons_of_mem c)
  have hcache : ∀ c', s.Known c' → update s.cache c C c' = s.cache c' := fun c' hc' =>
    update_of_ne (by rintro rfl; exact hc hc') _ _
  refine h.frame rfl rfl rfl rfl ?_ ?_ (fun _ _ _ _ ht => ht) ?_ (hknown _ h.clock)
  · intro c' hc'
    refine ⟨hknown c' hc', ?_⟩
    show SameSlabs (s.cache c') (update s.cache c C c')
    rw [hcache c' hc']
    exact .refl _
  · intro c' hc'
    show (update s.cache c C c').Fits ∧ (s.Known c' ∨
      (update s.cache c C c').slabs = [] ∧ (update s.cache c C c').firstnotfull = none)
    by_cases hk : s.Known c'
    · rw [hcache c' hk]
      exact ⟨h.fits c' hk, .inl hk⟩
    · obtain rfl : c' = c := by
        rcases hc' with hzero | hmem
        · exact absurd (.inl hzero) hk
        · exact (mem_cons.1 hmem).resolve_right fun hmem => hk (.inr hmem)
      rw [update_self]
      exact ⟨hfits, .inr ⟨hslabs, hfirst⟩⟩
  · refine fun t => (h.threads t).mono hknown fun c' hc' => ?_
    show SameShape (s.cache c') (update s.cache c C c')
    rw [hcache c' hc']
    exact .refl _

end

/-! ## A new slab -/

lemma initBufctl_freeList {num : ℕ} (old : ℕ → ℕ) (hnum : 0 < num) (hend : num < bufctlEnd) :
    FreeList (initBufctl num old) bufctlEnd num 0 (range num) := by
  refine FreeList.init hnum hend.le (fun j hj => ?_) (update_self _ _ _)
  rw [initBufctl, update_of_ne (by omega)]
  exact if_pos (by omega)

/-- A slab whose management is not in use belongs to no cache. -/
lemma Inv.not_live (h : Inv s free) (hx : x ∉ s.mgmt) (c : ℕ) : ¬ s.Live c x :=
  fun hlive => hx (h.slabs c x hlive).2

/-- `kmem_cache_grow` links a slab whose pages and descriptor are nobody else's. -/
lemma Inv.growLink (h : Inv s free) (hc : s.Known c) {objp colouroff : ℕ}
    (hpages : s.PagesFree (s.cache c).gfporder objp) (hx : x ∉ s.mgmt)
    (hroom : colouroff + (s.cache c).num * (s.cache c).objsize ≤
      pageSize * 1 <<< (s.cache c).gfporder) :
    Inv (growLink s c objp x colouroff) (update free x (range (s.cache c).num)) := by
  have hfits := h.fits c hc
  have hne : ∀ c' y, s.Live c' y → y ≠ x := by
    rintro c' y hy rfl
    exact h.not_live hx c' hy
  set S : SlabT := ⟨colouroff, objp + colouroff, 0, 0,
    initBufctl (s.cache c).num (s.slab x).bufctl⟩ with hS
  set C : Cache := { s.cache c with
    growing := (s.cache c).growing - 1
    slabs := Ring.insertBefore (s.cache c).slabs x none
    firstnotfull := if (s.cache c).firstnotfull = none then some x
      else (s.cache c).firstnotfull } with hC
  have hcache : ∀ c', SameShape (s.cache c') (update s.cache c C c') :=
    SameShape.update ⟨rfl, rfl, rfl, rfl⟩
  have hmem : ∀ c' y, y ∈ (update s.cache c C c').slabs ↔
      y ∈ (s.cache c').slabs ∨ (c' = c ∧ y = x) := by
    intro c' y
    by_cases heq : c' = c
    · rw [heq, update_self, hC, Ring.mem_insertBefore]
      simp [or_comm]
    · rw [update_of_ne heq]
      simp [heq]
  have hlive : ∀ c' y, (PsxLinux.Slab.growLink s c objp x colouroff).Live c' y →
      s.Live c' y ∨ (c' = c ∧ y = x) := by
    rintro c' y (⟨hc', hy⟩ | hdoomed)
    · exact ((hmem c' y).1 hy).imp_left fun hy => .inl ⟨hc', hy⟩
    · exact .inl (.inr hdoomed)
  refine ⟨h.fits_update fun _ => { hfits with }, ?_, ?_, ?_, h.apart, ?_, h.heldNodup, ?_, h.clock⟩
  · intro c' hc'
    show Ring.Graded (fun y => grade (update s.cache c C c').num
      (update s.slab x S y)) (update s.cache c C c').slabs
      (update s.cache c C c').firstnotfull
    have hold : Ring.Graded (fun y => grade (s.cache c').num (update s.slab x S y))
        (s.cache c').slabs (s.cache c').firstnotfull :=
      (h.graded c' hc').congr fun y hy => by
        rw [update_of_ne (hne c' y (live_of_mem hc' hy))]
    by_cases heq : c' = c
    · subst heq
      rw [update_self]
      have hgrade : grade (s.cache c').num (update s.slab x S x) = 2 := by
        rw [update_self, grade_of_unused hfits.num_pos rfl]
      refine hold.push (fun hy => hne c' x (live_of_mem hc hy) rfl) (by omega) fun y _ => ?_
      rw [hgrade]
      exact grade_le_two _ _
    · rwa [update_of_ne heq]
  · intro c' y hy
    show SlabOk (update s.cache c C c') c' y (update s.slab x S y) _
      (update free x _ y) ∧ y ∈ x :: s.mgmt
    rcases hlive c' y hy with hy | ⟨rfl, rfl⟩
    · obtain ⟨hok, hm⟩ := h.slabs c' y hy
      rw [update_of_ne (hne c' y hy), update_of_ne (hne c' y hy)]
      refine ⟨hok.congr (hcache c') fun k hk => if_neg ?_, mem_cons_of_mem _ hm⟩
      -- a page of a slab is not one of the new ones
      rintro ⟨hge, hlt⟩
      have hclear := hpages.2 ((s.slab y).pfn + k - objp / pageSize) (by omega)
      rw [Nat.add_sub_cancel' hge, hok.pages k hk] at hclear
      exact Bool.noConfusion hclear
    · rw [update_self, update_self, update_self]
      have hpfn : S.pfn = objp / pageSize := by
        rw [SlabT.pfn, hS, Nat.add_sub_cancel]
      refine ⟨⟨initBufctl_freeList _ hfits.num_pos hfits.num_lt, ?_, ?_, hroom, ?_⟩, mem_cons_self⟩
      · rw [length_range]
        exact Nat.zero_add _
      · rw [hpfn, Nat.mul_comm, Nat.mul_div_cancel' (Nat.dvd_of_mod_eq_zero hpages.1)]
      · intro k hk
        rw [hpfn]
        exact if_pos ⟨Nat.le_add_right _ _, Nat.add_lt_add_left hk _⟩
  · intro t' c' y freer ht
    obtain ⟨hc', hnot, hzero⟩ := h.doomed t' c' y freer ht
    have hyne := hne c' y (.inr ⟨t', freer, ht⟩)
    refine ⟨hc', fun hy => ?_, ?_⟩
    · rcases (hmem c' y).1 hy with hy | ⟨-, hy⟩
      · exact hnot hy
      · exact hyne hy
    · show (update s.slab x S y).inuse = 0
      rwa [update_of_ne hyne]
  · intro c' o ho
    have hin := h.held c' o ho
    refine hin.congr hin.1 (hcache c') fun y hy i hi hnot => ⟨(hmem c' y).2 (.inl hy), ?_, ?_⟩
    · rwa [update_of_ne (hne c' y (live_of_mem hin.1 hy))]
    · exact congrArg SlabT.sMem (update_of_ne (hne c' y (live_of_mem hin.1 hy)) ..)
  · exact fun t => (h.threads t).mono (fun _ hc' => hc') fun c' _ => hcache c'

/-! ## The end of a slab -/

lemma unlinkFree_spec (h : unlinkFree s c = some (s', x)) :
    (s.cache c).slabs.getLast? = some x ∧ (s.slab x).inuse = 0 ∧
      s' = s.setCache c { s.cache c with
        slabs := (s.cache c).slabs.erase x
        firstnotfull := if (s.cache c).firstnotfull = some x then none
          else (s.cache c).firstnotfull } := by
  simp only [unlinkFree, Ring.prev] at h
  split_ifs at h
  cases hlast : (s.cache c).slabs.getLast? with
  | none => simp [hlast] at h
  | some y =>
    simp only [hlast] at h
    by_cases hinuse : (s.slab y).inuse ≠ 0
    · simp [hinuse] at h
    · rw [if_neg hinuse] at h
      cases h
      exact ⟨rfl, not_not.1 hinuse, rfl⟩

/-- A free slab taken off its list is only on its way to be destroyed. -/
lemma Inv.unlink (h : Inv s free) (hc : s.Known c) (hunlink : unlinkFree s c = some (s', x))
    (freer : Freer) : Inv (s'.setThread t (.destroying c x freer)) free := by
  obtain ⟨hlast, hzero, rfl⟩ := unlinkFree_spec hunlink
  have hx : x ∈ (s.cache c).slabs := mem_of_getLast? hlast
  have hxlive := live_of_mem hc hx
  have hfits := h.fits c hc
  have hnodup := (h.graded c hc).nodup
  set C : Cache := { s.cache c with
    slabs := (s.cache c).slabs.erase x
    firstnotfull := if (s.cache c).firstnotfull = some x then none
      else (s.cache c).firstnotfull } with hC
  have hcache : ∀ c', SameShape (s.cache c') (update s.cache c C c') :=
    SameShape.update ⟨rfl, rfl, rfl, rfl⟩
  have hmem : ∀ c' y, s.Known c' → (y ∈ (update s.cache c C c').slabs ↔
      y ∈ (s.cache c').slabs ∧ y ≠ x) := by
    intro c' y hc'
    by_cases heq : c' = c
    · rw [heq, update_self]
      exact hnodup.mem_erase_iff.trans and_comm
    · rw [update_of_ne heq]
      refine ⟨fun hy => ⟨hy, ?_⟩, And.left⟩
      rintro rfl
      exact heq (h.owner_unique (live_of_mem hc' hy) hxlive)
  -- the destruction of other slabs went on before
  have hthread : ∀ t' c' y freer', update s.thread t (.destroying c x freer) t' =
      .destroying c' y freer' →
      (t' = t ∧ c' = c ∧ y = x) ∨ (t' ≠ t ∧ s.thread t' = .destroying c' y freer') := by
    intro t' c' y freer' ht'
    rcases update_cases ht' with ⟨heq, hnew⟩ | hold
    · obtain ⟨rfl, rfl, -⟩ := Phase.destroying.inj hnew
      exact .inl ⟨heq, rfl, rfl⟩
    · exact .inr hold
  have hdoomedne : ∀ t' c' freer', s.thread t' ≠ .destroying c' x freer' := by
    intro t' c' freer' ht'
    obtain rfl := h.owner_unique (.inr ⟨t', freer', ht'⟩) hxlive
    exact (h.doomed t' c' x freer' ht').2.1 hx
  refine ⟨h.fits_update fun _ => { hfits with }, ?_, ?_, ?_, ?_, ?_, h.heldNodup, ?_, h.clock⟩
  · intro c' hc'
    show Ring.Graded (fun y => grade (update s.cache c C c').num (s.slab y))
      (update s.cache c C c').slabs (update s.cache c C c').firstnotfull
    by_cases heq : c' = c
    · rw [heq, update_self]
      exact (h.graded c hc).pop hlast
    · rw [update_of_ne heq]
      exact h.graded c' hc'
  · rintro c' y hy
    have hlive : s.Live c' y := by
      rcases hy with ⟨hc', hy⟩ | ⟨t', freer', ht'⟩
      · exact .inl ⟨hc', ((hmem c' y hc').1 hy).1⟩
      · rcases hthread t' c' y freer' ht' with ⟨-, rfl, rfl⟩ | ⟨-, ht'⟩
        · exact hxlive
        · exact .inr ⟨t', freer', ht'⟩
    obtain ⟨hok, hm⟩ := h.slabs c' y hlive
    exact ⟨hok.congr (hcache c') fun _ _ => rfl, hm⟩
  · intro t' c' y freer' ht'
    rcases hthread t' c' y freer' ht' with ⟨-, rfl, rfl⟩ | ⟨-, ht'⟩
    · exact ⟨hc, fun hy => ((hmem c' y hc).1 hy).2 rfl, hzero⟩
    · obtain ⟨hc', hnot, hzero'⟩ := h.doomed t' c' y freer' ht'
      exact ⟨hc', fun hy => hnot ((hmem c' y hc').1 hy).1, hzero'⟩
  · intro t₁ t₂ c₁ c₂ y freer₁ freer₂ h₁ h₂
    rcases hthread t₁ c₁ y freer₁ h₁ with ⟨rfl, rfl, rfl⟩ | ⟨-, h₁'⟩
    · rcases hthread t₂ c₂ y freer₂ h₂ with ⟨rfl, -, -⟩ | ⟨-, h₂'⟩
      · rfl
      · exact absurd h₂' (hdoomedne t₂ c₂ freer₂)
    · rcases hthread t₂ c₂ y freer₂ h₂ with ⟨rfl, rfl, rfl⟩ | ⟨-, h₂'⟩
      · exact absurd h₁' (hdoomedne t₁ c₁ freer₁)
      · exact h.apart t₁ t₂ c₁ c₂ y freer₁ freer₂ h₁' h₂'
  · intro c' o ho
    have hin := h.held c' o ho
    refine hin.congr hin.1 (hcache c') fun y hy i hi hnot =>
      ⟨(hmem c' y hin.1).2 ⟨hy, ?_⟩, hnot, rfl⟩
    -- nobody holds an object of a free slab
    rintro rfl
    exact hnot ((h.slabs c' y (live_of_mem hin.1 hy)).1.mem_of_unused hzero hi)
  · have hphase : ∀ t', PhaseOk s (update s.thread t (.destroying c x freer) t') :=
      (forall_update_iff s.thread fun _ p => PhaseOk s p).2 ⟨trivial, fun t' _ => h.threads t'⟩
    exact fun t' => (hphase t').mono (fun _ hc' => hc') fun c' _ => hcache c'

/-- The slab is destroyed: its pages and its descriptor go. -/
lemma Inv.destroy (h : Inv s free) (ht : s.thread t = .destroying c x freer) :
    Inv ((kmemSlabDestroy s c x).setThread t (.freeing c freer.next)) free := by
  obtain ⟨hc, hnot, hzero⟩ := h.doomed t c x freer ht
  have hxlive : s.Live c x := .inr ⟨t, freer, ht⟩
  have hxok := (h.slabs c x hxlive).1
  have hthread : ∀ t' c' y freer', update s.thread t (.freeing c freer.next) t' =
      .destroying c' y freer' → t' ≠ t ∧ s.thread t' = .destroying c' y freer' := by
    intro t' c' y freer' ht'
    exact (update_cases ht').resolve_left fun hnew => Phase.noConfusion hnew.2
  -- what is still there is another slab
  have hlive : ∀ c' y, Sys.Live ((kmemSlabDestroy s c x).setThread t (.freeing c freer.next)) c' y →
      s.Live c' y ∧ y ≠ x := by
    rintro c' y (⟨hc', hy⟩ | ⟨t', freer', ht'⟩)
    · have hy' := live_of_mem (s := s) hc' hy
      refine ⟨hy', ?_⟩
      rintro rfl
      obtain rfl := h.owner_unique hy' hxlive
      exact hnot hy
    · obtain ⟨hne, hold⟩ := hthread t' c' y freer' ht'
      refine ⟨.inr ⟨t', freer', hold⟩, ?_⟩
      rintro rfl
      exact hne (h.apart t' t c' c y freer' freer hold ht)
  refine ⟨h.fits, h.graded, ?_, ?_, ?_, h.held, h.heldNodup, ?_, h.clock⟩
  · intro c' y hy
    obtain ⟨hy', hne⟩ := hlive c' y hy
    obtain ⟨hok, hm⟩ := h.slabs c' y hy'
    refine ⟨hok.congr (.refl _) fun k hk => if_neg ?_, (mem_erase_of_ne hne).2 hm⟩
    -- a page of this slab is not one of the destroyed slab's
    rintro ⟨hge, hlt⟩
    have hpage := hxok.pages ((s.slab y).pfn + k - (s.slab x).pfn) (by omega)
    rw [Nat.add_sub_cancel' hge, hok.pages k hk] at hpage
    exact hne (Page.mk.inj hpage).2.2
  · intro t' c' y freer' ht'
    exact h.doomed t' c' y freer' (hthread t' c' y freer' ht').2
  · intro t₁ t₂ c₁ c₂ y freer₁ freer₂ h₁ h₂
    exact h.apart t₁ t₂ c₁ c₂ y freer₁ freer₂ (hthread _ _ _ _ h₁).2 (hthread _ _ _ _ h₂).2
  · exact (forall_update_iff s.thread fun _ p => PhaseOk s p).2 ⟨hc, fun t' _ => h.threads t'⟩

/-! ## Steps -/

def SysInv (s : Sys) : Prop := ∃ free, Inv s free

/-- What must hold of an event in the state before it: an object handed out is not one that a
caller holds, a destroyed slab has no object in use. -/
def EventOk (s : Sys) : Event → Prop
  | .alloc _ (some objp) => ∀ c, (c, objp) ∉ s.held
  | .destroy _ _ inuse => inuse = 0
  | _ => True

/-- A step's outcome. -/
def Outcome (s : Sys) (r : Sys × List Event) : Prop := SysInv r.1 ∧ ∀ e ∈ r.2, EventOk s e

lemma outcome_bug (h : SysInv s) (t : ℕ) : Outcome s (bug s t) := by
  obtain ⟨free, h⟩ := h
  exact ⟨⟨free, h.setThread t trivial (by simp)⟩, by simp [bug, EventOk]⟩

/-- With the offset that `kmem_cache_grow` takes, the slab fits into its pages. -/
lemma growBegin_spec (h : Inv s free) (hc : s.Known c) (flags : UInt32) (inInterrupt : Bool) :
    Inv (growBegin s c).1 free ∧
      PhaseOk (growBegin s c).1 (.grow c flags inInterrupt (growBegin s c).2) := by
  have hfits := h.fits c hc
  refine ⟨h.setCache ⟨⟨rfl, rfl, rfl, rfl⟩, rfl, rfl⟩ fun _ => { hfits with colourNext := ?_ }, hc,
    ?_⟩
  · show (if (s.cache c).colourNext + 1 ≥ (s.cache c).colour then 0
        else (s.cache c).colourNext + 1) < (s.cache c).colour ∨
      (if (s.cache c).colourNext + 1 ≥ (s.cache c).colour then 0
        else (s.cache c).colourNext + 1) = 0
    split_ifs <;> omega
  · have hroom := hfits.offset_le
    simp only [growBegin, Sys.setCache, update_self]
    exact hroom

lemma tryAgain_outcome (h : Inv s free) (hc : s.Known c) (flags : UInt32)
    (inInterrupt : Bool) : Outcome s (tryAgain s t c flags inInterrupt) := by
  unfold tryAgain
  cases hx : (s.cache c).firstnotfull with
  | some x =>
    obtain ⟨⟨free', hinv⟩, hfresh⟩ := h.allocOneTail hc hx
    refine ⟨⟨free', hinv.setThread t trivial (by simp)⟩, ?_⟩
    simpa [EventOk] using hfresh
  | none =>
    split_ifs
    · exact outcome_bug ⟨free, h⟩ t
    · exact ⟨⟨free, h.setThread t trivial (by simp)⟩, by simp [EventOk]⟩
    · exact outcome_bug ⟨free, h⟩ t
    · obtain ⟨hinv, hphase⟩ := growBegin_spec h hc flags inInterrupt
      exact ⟨⟨free, hinv.setThread t hphase (by simp)⟩, by simp⟩

/-- Where the objects of a new slab begin. -/
lemma slabmgmt_colouroff {objp offset : ℕ} {r : ℕ × ℕ}
    (h : kmemCacheSlabmgmt C objp offset mgmt = some r) : r.2 = offset + C.mgmtSize := by
  unfold kmemCacheSlabmgmt at h
  unfold Cache.mgmtSize
  split_ifs at h ⊢
  · obtain ⟨slabp, -, rfl⟩ := Option.map_eq_some_iff.1 h
    rfl
  · rw [← Option.some.inj h]

lemma grow_outcome (h : Inv s free) {flags : UInt32} {inInterrupt : Bool} {offset : ℕ}
    {pages : Option ℕ} (hphase : PhaseOk s (.grow c flags inInterrupt offset))
    (hvalid : ∀ objp ∈ pages, s.PagesFree (s.cache c).gfporder objp ∧
      ∀ r ∈ kmemCacheSlabmgmt (s.cache c) objp offset mgmt, r.1 ∉ s.mgmt) :
    Outcome s (grow s t c flags inInterrupt offset pages mgmt) := by
  obtain ⟨hc, hroom⟩ := hphase
  unfold grow
  split
  · have hfailed : Inv (growFailed s c) free :=
      h.setCache ⟨⟨rfl, rfl, rfl, rfl⟩, rfl, rfl⟩ fun hc => { h.fits c hc with }
    exact ⟨⟨free, hfailed.setThread t trivial (by simp)⟩, by simp [EventOk]⟩
  · rename_i objp slabp colouroff heq
    obtain ⟨objp', hobjp, heq⟩ := Option.bind_eq_some_iff.1 heq
    obtain ⟨r, hr, heq⟩ := Option.map_eq_some_iff.1 heq
    obtain ⟨rfl, hr'⟩ := Prod.mk.inj heq
    cases hr'
    obtain ⟨hpages, hfresh⟩ := hvalid objp' hobjp
    rw [← slabmgmt_colouroff hr] at hroom
    have hinv := h.growLink hc hpages (hfresh r hr) hroom
    exact ⟨⟨_, hinv.setThread t hc (by simp)⟩, by simp⟩

lemma freeingOut_outcome (h : Inv s free) (freer : Freer) : Outcome s (freeingOut s t c freer) := by
  cases freer with
  | shrink => exact ⟨⟨free, h.setThread t trivial (by simp)⟩, by simp [freeingOut, EventOk]⟩
  | reap bestLen scan =>
    exact ⟨⟨free, (h.setChainSem true).setThread t trivial (by simp)⟩, by simp [freeingOut]⟩

lemma freeing_outcome (h : Inv s free) (hc : s.Known c) (freer : Freer) :
    Outcome s (freeing s t c freer) := by
  unfold freeing
  split_ifs
  · split
    · exact freeingOut_outcome h freer
    · rename_i s' x hunlink
      exact ⟨⟨free, h.unlink hc hunlink freer⟩, by simp⟩
  · exact freeingOut_outcome h freer

/-- Only a slab without objects is destroyed. -/
lemma destroying_outcome (h : Inv s free)
    (ht : s.thread t = .destroying c x freer) : Outcome s (destroying s t c x freer) := by
  refine ⟨⟨free, h.destroy ht⟩, ?_⟩
  simpa [destroying, EventOk] using (h.doomed t c x freer ht).2.2

/-! ## Reaping -/

lemma known_nextCache (s : Sys) (c : ℕ) : s.Known (nextCache s.chain c) := by
  unfold nextCache
  cases hnext : Ring.next s.chain (if c = cacheCache then none else some c) with
  | none => exact .inl rfl
  | some y => exact .inr (Ring.mem_of_next hnext)

lemma reapNext_inv (h : Inv s free) {scan : ℕ} (hbest : ∀ c ∈ best, s.Known c) :
    Inv (reapNext s t scan bestLen bestPages best searchp) free := by
  have hnext := known_nextCache s searchp
  unfold reapNext
  simp only
  split_ifs
  · exact h.setThread t ⟨hnext, hbest⟩ (by simp)
  · cases best with
    | none => exact ((h.setClock hnext).setChainSem true).setThread t trivial (by simp)
    | some c => exact (h.setClock hnext).setThread t (hbest c rfl) (by simp)

lemma reapScan_inv (h : Inv s free) {scan : ℕ}
    (hsearch : s.Known searchp) (hbest : ∀ c ∈ best, s.Known c) :
    Inv (reapScan s t scan bestLen bestPages best searchp) free := by
  have hclear : Inv (s.setCache searchp { s.cache searchp with
      dflags := (s.cache searchp).dflags &&& ~~~dflgsGrown }) free :=
    h.setCache ⟨⟨rfl, rfl, rfl, rfl⟩, rfl, rfl⟩ fun hc => { h.fits searchp hc with }
  unfold reapScan
  simp only
  split_ifs
  · exact reapNext_inv h hbest
  · exact reapNext_inv hclear hbest
  · exact (h.setClock (known_nextCache s searchp)).setThread t hsearch (by simp)
  · exact reapNext_inv h fun c hc => by rwa [← Option.some.inj hc]
  · exact reapNext_inv h hbest

/-! ## Runs -/

lemma create_outcome (h : Inv s free) {globals : Globals} {args : CreateArgs} {cachep : Option ℕ}
    (hvalid : ∀ p ∈ cachep, (cacheCache, p) ∈ s.held ∧ ¬ s.Known p)
    (hcreate : create s t globals args cachep = some r) : Outcome s r := by
  unfold create at hcreate
  by_cases hbad : args.bad
  · rw [if_pos hbad] at hcreate
    exact Option.some.inj hcreate ▸ outcome_bug ⟨free, h⟩ t
  rw [if_neg hbad] at hcreate
  cases cachep with
  | none => exact Option.some.inj hcreate ▸ ⟨⟨free, h⟩, by simp [EventOk]⟩
  | some p =>
    obtain ⟨hheld, hnew⟩ := hvalid p rfl
    cases hsizing : kmemCacheCreate globals args with
    | none =>
      simp only [hsizing] at hcreate
      exact Option.some.inj hcreate ▸ ⟨h.kmemCacheFree hheld, by simp [EventOk]⟩
    | some C =>
      simp only [hsizing] at hcreate
      split_ifs at hcreate
      · obtain ⟨hinv, -⟩ := outcome_bug ⟨free, h.setChainSem false⟩ t
        exact Option.some.inj hcreate ▸ ⟨hinv, by simp [bug, EventOk]⟩
      · obtain ⟨hfits, hslabs, hfirst⟩ := kmemCacheCreate_spec (by simpa using hbad) hsizing
        exact Option.some.inj hcreate ▸ ⟨⟨free, h.link hnew hfits hslabs hfirst⟩, by simp [EventOk]⟩

/-- **One step.** It keeps the invariant, and its events are as they should be. -/
theorem step_outcome {a : Act} (h : SysInv s) (hvalid : Valid s a)
    (hstep : step s a = some r) : Outcome s r := by
  have hinv := h
  obtain ⟨free, h⟩ := h
  cases a with
  | create t globals args cachep =>
    simp only [step] at hstep
    split_ifs at hstep
    exact create_outcome h hvalid hstep
  | alloc t c flags inInterrupt =>
    simp only [step] at hstep
    split_ifs at hstep
    exact Option.some.inj hstep ▸ ⟨⟨free, h.setThread t hvalid (by simp)⟩, by simp⟩
  | free t c o =>
    simp only [step] at hstep
    split_ifs at hstep
    exact Option.some.inj hstep ▸ ⟨h.kmemCacheFree hvalid, by simp⟩
  | shrink t c inInterrupt =>
    simp only [step] at hstep
    split_ifs at hstep with _ _ _ hmem
    · exact Option.some.inj hstep ▸ outcome_bug hinv t
    · exact Option.some.inj hstep ▸ ⟨⟨free, h.setThread t (.inr hmem) (by simp)⟩, by simp⟩
    · exact Option.some.inj hstep ▸ outcome_bug hinv t
  | reap t wait =>
    simp only [step] at hstep
    split_ifs at hstep
    · exact Option.some.inj hstep ▸ ⟨⟨free, (h.setChainSem false).setThread t
        ⟨h.clock, by simp⟩ (by simp)⟩, by simp⟩
    · exact Option.some.inj hstep ▸ ⟨hinv, by simp⟩
  | go t pages mgmt =>
    have hphase := h.threads t
    simp only [step] at hstep
    simp only [Valid] at hvalid
    cases ht : s.thread t with
    | idle | oops => simp [ht] at hstep
    | tryAgain c flags inInterrupt =>
      rw [ht] at hstep hphase
      exact Option.some.inj hstep ▸ tryAgain_outcome h hphase flags inInterrupt
    | grow c flags inInterrupt offset =>
      rw [ht] at hstep hphase hvalid
      exact Option.some.inj hstep ▸ grow_outcome h hphase hvalid
    | freeing c freer =>
      rw [ht] at hstep hphase
      exact Option.some.inj hstep ▸ freeing_outcome h hphase freer
    | destroying c x freer =>
      rw [ht] at hstep
      exact Option.some.inj hstep ▸ destroying_outcome h ht
    | scanning scan bestLen bestPages best searchp =>
      rw [ht] at hstep hphase
      exact Option.some.inj hstep ▸ ⟨⟨free, reapScan_inv h hphase.1 hphase.2⟩, by simp⟩

/-- After `kmem_cache_init` there is one cache, without slabs. -/
lemma sysInv_boot (hsize : 0 < sizeofCache) (h : Sys.boot sizeofCache slab page = some s) : SysInv s := by
  unfold Sys.boot at h
  rcases hest : kmemCacheEstimate 0 sizeofCache 0 with ⟨leftOver, num⟩
  simp only [hest] at h
  split_ifs at h with hnum
  cases h
  have hspec := kmemCacheEstimate_spec hest hnum
  rw [show offSlab 0 = offSlab slabNoReap by decide] at hspec
  refine ⟨fun _ => [], ?_, ?_, ?_, ?_, ?_, ?_, nodup_nil, fun _ => trivial, .inl rfl⟩
  · intro c _
    exact Cache.Fits.of_parts hsize hnum hspec (Nat.zero_le _) rfl rfl
  · exact fun c _ => ⟨nodup_nil, Pairwise.nil, rfl⟩
  · rintro c x (⟨-, hx⟩ | ⟨t, freer, ht⟩)
    · exact absurd hx not_mem_nil
    · exact Phase.noConfusion ht
  · exact fun t c x freer ht => Phase.noConfusion ht
  · exact fun t t' c c' x freer freer' ht => Phase.noConfusion ht
  · exact fun c o ho => absurd ho not_mem_nil

/-- The list of a cache as it should be: full slabs first, then partial ones, then free ones;
`firstnotfull` on the first slab that is not full, or on the list head; in each slab the bufctl
chain visits as many objects as are not in use, and ends in `BUFCTL_END`. -/
def CacheSound (s : Sys) (c : ℕ) : Prop :=
  ((s.cache c).slabs.Pairwise fun x y =>
    grade (s.cache c).num (s.slab x) ≤ grade (s.cache c).num (s.slab y)) ∧
  (s.cache c).firstnotfull = ((s.cache c).slabs.find? fun x =>
    decide ((s.slab x).inuse < (s.cache c).num)) ∧
  ∀ x ∈ (s.cache c).slabs, (s.slab x).inuse ≤ (s.cache c).num ∧
    ∃ l, Chain (s.slab x).bufctl bufctlEnd (s.slab x).free l ∧ l.Nodup ∧
      (∀ i ∈ l, i < (s.cache c).num) ∧ l.length = (s.cache c).num - (s.slab x).inuse

lemma Inv.cacheSound (h : Inv s free) (hc : s.Known c) : CacheSound s c := by
  have hgraded := h.graded c hc
  have hok : ∀ x ∈ (s.cache c).slabs, SlabOk (s.cache c) c x (s.slab x) s.page (free x) :=
    fun x hx => (h.slabs c x (live_of_mem hc hx)).1
  refine ⟨hgraded.sorted, ?_, fun x hx => ?_⟩
  · rw [hgraded.cursor]
    refine Ring.find?_congr fun x hx => ?_
    have hle := (hok x hx).inuse_le
    rw [decide_eq_decide, grade_pos]
    omega
  · have hinuse := (hok x hx).inuse
    exact ⟨by omega, free x, (hok x hx).free.chain, (hok x hx).free.nodup, (hok x hx).free.lt,
      by omega⟩

/-- A cache is made, one of its two objects taken and given back, the cache shrunk, and an object
taken again. -/
def oneObject : List Act :=
  let args : CreateArgs := ⟨[0x61], 2000, 0, 0, false, false, false⟩
  [.alloc 1 cacheCache 7 false, .go 1 none none, .go 1 (some 0x10000) none, .go 1 none none,
    .create 1 ⟨1, 116⟩ args (some 0x100c0),
    .alloc 1 0x100c0 7 false, .go 1 none none, .go 1 (some 0x20000) none, .go 1 none none,
    .free 1 0x100c0 0x20020,
    .shrink 1 0x100c0 false, .go 1 none none, .go 1 none none, .go 1 none none,
    .alloc 1 0x100c0 7 false, .go 1 none none, .go 1 (some 0x30000) none, .go 1 none none]

end PsxLinux.Slab
