import PsxLinux.Buddy.PageAllocTheorems

/-!
# The calls of the buddy allocator and their sequences

One specification for each of `__free_pages_ok`, `expand` and `rmqueue`, all in terms of the
invariant: none of them meets a bug, and a block goes from one side of the tiling to the
other. From there what holds of a zone after any sequence of calls.
-/

namespace PsxLinux.Buddy

open Lib Function List Bool

variable {order : ℕ}

section Calls

variable {z : Zone} {m : Mem} {owned rest : List Block} {free : ℕ → List ℕ} {p k : ℕ}

/-! ## Freeing -/

lemma Inv.checkPage_eq (h : Inv z m owned free) (hp : p < z.size) :
    (m.page (z.offset + p)).reserved = false ∧ checkPage z m (z.offset + p) = .ok () := by
  have hclean := h.clean (z.offset + p) (by omega) (by omega)
  have hvalid : z.offset + p < z.maxMapnr := by have := z.inside; omega
  simp only [Page.clean, not_eq_true', or_eq_false_iff] at hclean
  refine ⟨by tauto, ?_⟩
  unfold checkPage
  simp [hclean, hvalid]

lemma Inv.setPage (h : Inv z m owned free) (x : ℕ) (pg : Page) (hzone : pg.zone = (m.page x).zone)
    (hclean : pg.clean = (m.page x).clean) :
    Inv z { m with page := update m.page x pg } owned free := by
  have hsame : ∀ y, (update m.page x pg y).zone = (m.page y).zone ∧
      (update m.page x pg y).clean = (m.page y).clean := by
    intro y
    rw [update_apply]
    split_ifs with hyx
    · exact hyx ▸ ⟨hzone, hclean⟩
    · exact ⟨rfl, rfl⟩
  exact { h with
    zones := fun y hy hlt => (hsame y).1.trans (h.zones y hy hlt)
    clean := fun y hy hlt => (hsame y).2.trans (h.clean y hy hlt) }

lemma Zone.toNat_index (z : Zone) (hp : p < z.size) :
    (UInt32.ofNat (z.offset + p) - UInt32.ofNat z.offset).toNat = p := by
  have hin := z.inside
  have hsmall := z.small
  rw [toNat_ofNat_sub (by omega) (by omega), Nat.add_sub_cancel_left]

/-- **`__free_pages_ok`** of a block in hand meets no bug, and the block is free after it. -/
theorem freePagesOk_spec (h : Inv z m (⟨p, k⟩ :: rest) free)
    (hmerged : Merged free (maxOrder - 1)) (hroom : m.freePages.toNat + 2 ^ k < 2 ^ 32) :
    ∃ m' free', freePagesOk z m (z.offset + p) k = .ok m' ∧ Inv z m' rest free' ∧
      Merged free' (maxOrder - 1) ∧ m'.freePages.toNat = m.freePages.toNat + 2 ^ k := by
  obtain ⟨hk, hal, hin⟩ := h.held
  have hidx := z.toNat_index (show p < z.size by omega)
  obtain ⟨hreserved, hcheck⟩ := h.checkPage_eq (show p < z.size by omega)
  have hset := h.setPage (z.offset + p)
    { m.page (z.offset + p) with referenced := false, age := pageAgeStart } rfl rfl
  have hmask := and_not_maskOf_eq_zero hk (hidx.symm ▸ hal)
  have hindex : ((UInt32.ofNat (z.offset + p) - UInt32.ofNat z.offset) >>>
      UInt32.ofNat (1 + k)).toNat = p / 2 ^ (k + 1) := by
    rw [toNat_shiftRight (by unfold maxOrder at hk; omega), hidx, Nat.add_comm]
  -- the count is changed before the loop, which does not look at it
  have hcount : Inv z
      { m with
        page := update m.page (z.offset + p)
          { m.page (z.offset + p) with referenced := false, age := pageAgeStart },
        freePages := m.freePages - maskOf k } (⟨p, k⟩ :: rest) free := { hset with }
  obtain ⟨area, pageIdx', m', free', hloop, hfp, hinv, hmerged'⟩ :=
    mergeLoop_spec (maxOrder + 1) (by omega) hcount hmerged hidx hindex
  refine ⟨{ m'.addHead area (z.offset + pageIdx'.toNat) with
    memoryPressure :=
      if nrCpus < m'.memoryPressure then m'.memoryPressure - 1 else m'.memoryPressure },
    free', ?_, { hinv with }, hmerged', ?_⟩
  · have hmaskOf : (~~~ 0 : UInt32) <<< UInt32.ofNat k = maskOf k := rfl
    unfold freePagesOk
    rw [if_neg (by simp [hreserved]), hcheck]
    simp only [hmaskOf]
    rw [if_neg (not_not.mpr hmask), hloop]
    rfl
  · show m'.freePages.toNat = _
    rw [hfp]
    have hneg := neg_maskOf_toNat hk
    rw [UInt32.sub_eq_add_neg, UInt32.toNat_add, hneg, Nat.mod_eq_of_lt hroom]

/-! ## Allocating -/

lemma markUsed_eq (m : Mem) {index : UInt32} (hk : k < maxOrder) (hp : p < z.size)
    (hindex : index.toNat = p) :
    markUsed z m index k k = .ok (m.changeBit k (p / 2 ^ (k + 1))) := by
  have hshift : (index >>> UInt32.ofNat (1 + k)).toNat = p / 2 ^ (k + 1) := by
    rw [toNat_shiftRight (by unfold maxOrder at hk; omega), hindex, Nat.add_comm]
  unfold markUsed
  rw [hshift, testAndChangeBit_eq m hk hp]

/-- **`expand`** puts the lower half of the block on its list, again and again, until a block
of the order asked for is left. -/
theorem expand_spec {low : ℕ} : ∀ (high : ℕ) {m : Mem} {free : ℕ → List ℕ} {p : ℕ} {index : UInt32},
    low ≤ high → Inv z m (⟨p, high⟩ :: rest) free → Merged free (maxOrder - 1) →
    index.toNat = p →
    ∃ p' m' free', expand z low high (z.offset + p) index high m = .ok (z.offset + p', m') ∧
      Inv z m' (⟨p', low⟩ :: rest) free' ∧ Merged free' (maxOrder - 1) ∧
      m'.freePages = m.freePages := by
  intro high
  induction high with
  | zero =>
    intro m free p index hlow h hmerged hindex
    obtain ⟨-, -, hin⟩ := h.held
    have hzero : low = 0 := by omega
    subst hzero
    refine ⟨p, m, free, ?_, h, hmerged, rfl⟩
    simp [expand, h.badRange_eq (show p < z.size by omega)]
  | succ high ih =>
    intro m free p index hlow h hmerged hindex
    obtain ⟨hk, hal, hin⟩ := h.held
    have hbad := h.badRange_eq (show p < z.size by omega)
    rw [expand]
    by_cases hlt : low < high + 1
    · -- the lower half goes to its list, the upper one is split further
      have hgiven : Inv z ((m.addHead high (z.offset + p)).changeBit high (p / 2 ^ (high + 1)))
          (⟨p + 2 ^ high, high⟩ :: rest) (update free high (p :: free high)) :=
        h.split.give rfl (fun _ => flipped_changeBit (m.addHead high (z.offset + p)) p high)
          (fun he => absurd he (by omega)) rfl
      obtain ⟨-, -, hin'⟩ := hgiven.held
      have hsmall : p + 2 ^ high < 2 ^ 32 := by
        have := z.inside
        have := z.small
        omega
      have hindex' : (index + UInt32.ofNat (2 ^ high)).toNat = p + 2 ^ high := by
        rw [UInt32.toNat_add, hindex,
          UInt32.toNat_ofNat_of_lt' (show 2 ^ high < 2 ^ 32 by omega), Nat.mod_eq_of_lt hsmall]
      -- the buddy of the lower half is in hand too
      have hpush : Merged (update free high (p :: free high)) (maxOrder - 1) := by
        refine hmerged.push ((Nat.pow_dvd_pow 2 (Nat.le_succ high)).trans hal) fun _ => ?_
        rw [buddy_of_dvd hal]
        exact h.not_listed (by omega) ⟨by omega, by omega⟩
      obtain ⟨p', m', free', hexp, hinv, hmerged', hfp⟩ := ih (by omega) hgiven hpush hindex'
      refine ⟨p', m', free', ?_, hinv, hmerged', hfp⟩
      rw [if_pos hlt, hbad, Nat.add_sub_cancel]
      simp only [markUsed_eq (m.addHead high (z.offset + p)) (show high < maxOrder by omega)
        (show p < z.size by omega) hindex]
      rw [Nat.add_assoc]
      exact hexp
    · have heq : low = high + 1 := by omega
      subst heq
      refine ⟨p, m, free, ?_, h, hmerged, rfl⟩
      rw [if_neg hlt, hbad]
      rfl

lemma toNat_sub_shiftLeft {x : UInt32} (hk : k < 10) (hx : 2 ^ k ≤ x.toNat) :
    (x - 1 <<< UInt32.ofNat k).toNat = x.toNat - 2 ^ k := by
  have hone : ∀ k < 10, ((1 : UInt32) <<< UInt32.ofNat k).toNat = 2 ^ k := by decide
  rw [UInt32.toNat_sub_of_le _ _ (UInt32.le_iff_toNat_le.mpr (by rw [hone k hk]; exact hx)),
    hone k hk]

lemma le_weight_of_mem {K : ℕ} (hk : k < K) (hp : p ∈ free k) :
    2 ^ k ≤ weight (blocksOf free K) := by
  rw [weight_perm (blocksOf_erase free hk hp)]
  exact Nat.le_add_right _ _

/-- What `rmqueue` returns: nothing, or a block that is now in hand. -/
def Served (z : Zone) (m : Mem) (owned : List Block) (free : ℕ → List ℕ) (order : ℕ)
    (r : Except Bug (Option ℕ × Mem)) : Prop :=
  (r = .ok (none, m) ∧ ∀ k, order ≤ k → k < maxOrder → free k = []) ∨
  ∃ p m' free', r = .ok (some (z.offset + p), m') ∧ Inv z m' (⟨p, order⟩ :: owned) free' ∧
    Merged free' (maxOrder - 1) ∧ m'.freePages.toNat + 2 ^ order = m.freePages.toNat

section

variable (h : Inv z m owned free) (hmerged : Merged free (maxOrder - 1))
  (hcount : m.freePages.toNat = weight (blocksOf free maxOrder))
include h hmerged hcount

lemma rmqueueLoop_found {fuel curr : ℕ} {l : List ℕ} (horder : order ≤ curr)
    (hcurr : curr < maxOrder) (hlist : free curr = p :: l) :
    Served z m owned free order (rmqueueLoop z order (fuel + 1) curr m) := by
  have hmem : p ∈ free curr := by rw [hlist]; exact mem_cons_self
  obtain ⟨-, hin⟩ := h.listed hcurr hmem
  have hpos : 0 < 2 ^ curr := Nat.two_pow_pos curr
  have hp : p < z.size := by omega
  have hhead : m.freeList curr = (z.offset + p) :: l.map (z.offset + ·) := by
    rw [h.lists, hlist, map_cons]
  have hroom : 2 ^ order ≤ m.freePages.toNat := by
    have hle : 2 ^ order ≤ 2 ^ curr := Nat.pow_le_pow_right (by omega) horder
    have := le_weight_of_mem hcurr hmem
    omega
  have hindex := z.toNat_index hp
  -- the block leaves its list and its bit is flipped
  let m₁ : Mem := { m with
    freeList := update m.freeList curr (l.map (z.offset + ·)) }
  let m₂ : Mem := { m₁.changeBit curr (p / 2 ^ (curr + 1)) with
    freePages := (m₁.changeBit curr (p / 2 ^ (curr + 1))).freePages - 1 <<< UInt32.ofNat order }
  have htaken : Inv z m₂ (⟨p, curr⟩ :: owned) (update free curr ((free curr).erase p)) := by
    refine h.take hcurr hmem (fun j => ?_) (flipped_changeBit m₁ p curr) rfl
    show update m.freeList curr (l.map (z.offset + ·)) j = _
    rw [hlist, erase_cons_head]
    by_cases hj : j = curr
    · rw [hj, update_self, update_self]
    · rw [update_of_ne hj, update_of_ne hj, h.lists]
  obtain ⟨p', m', free', hexp, hinv, hmerged', hfp⟩ :=
    expand_spec curr horder htaken hmerged.erase hindex
  obtain ⟨-, -, hin'⟩ := hinv.held
  have hpos' : 0 < 2 ^ order := Nat.two_pow_pos order
  have hset := hinv.setPage (z.offset + p') { m'.page (z.offset + p') with count := 1 } rfl rfl
  have hbad := hset.badRange_eq (show p' < z.size by omega)
  have hclean := hset.clean (z.offset + p') (by omega) (by omega)
  refine Or.inr ⟨p', _, free', ?_, hset, hmerged', ?_⟩
  · have hmark := markUsed_eq m₁ hcurr hp hindex
    simp only [Page.clean, not_eq_true', or_eq_false_iff] at hclean
    simp only [m₁] at hmark
    simp only [m₂, m₁] at hexp
    rw [rmqueueLoop, hhead]
    simp only [h.badRange_eq hp, hmark, hexp, hbad, hclean, Bool.or_self, Bool.false_eq_true,
      if_false]
  · have hsub : m₂.freePages.toNat = m.freePages.toNat - 2 ^ order :=
      toNat_sub_shiftLeft (lt_of_le_of_lt horder hcurr) hroom
    show m'.freePages.toNat + 2 ^ order = _
    rw [hfp]
    omega

/-- **`rmqueue`** meets no bug. -/
theorem rmqueueLoop_spec :
    ∀ (fuel curr : ℕ), order ≤ curr → curr + fuel = maxOrder →
      (∀ k, order ≤ k → k < curr → free k = []) →
      Served z m owned free order (rmqueueLoop z order fuel curr m) := by
  intro fuel
  induction fuel with
  | zero =>
    intro curr _ hfuel hempty
    exact Or.inl ⟨rfl, fun k hk hlt => hempty k hk (by omega)⟩
  | succ fuel ih =>
    intro curr horder hfuel hempty
    cases hlist : free curr with
    | cons p l => exact rmqueueLoop_found h hmerged hcount horder (by omega) hlist
    | nil =>
      have hnone : m.freeList curr = [] := by rw [h.lists, hlist, map_nil]
      rw [rmqueueLoop, hnone]
      refine ih (curr + 1) (by omega) (by omega) fun k hk hlt => ?_
      by_cases hkc : k = curr
      · rw [hkc, hlist]
      · exact hempty k hk (by omega)

lemma rmqueue_spec (horder : order < maxOrder) : Served z m owned free order (rmqueue z m order) :=
  rmqueueLoop_spec h hmerged hcount _ order (le_refl _) (by omega) fun k hk hlt => absurd hk (by omega)

end

end Calls

/-! ## Sequences of calls -/

/-- The invariant of the whole: no bug was met, and what is not allocated is free, merged and
counted. -/
def SysInv (z : Zone) (s : Sys) : Prop :=
  s.bug = none ∧ ∃ free, Inv z s.mem s.owned free ∧ Merged free (maxOrder - 1) ∧
    s.mem.freePages.toNat + weight s.owned = z.size

section Runs

variable {z : Zone} {s t : Sys} {a : Act} {es : List Unit} {m : Mem} {owned : List Block}
  {free : ℕ → List ℕ}

lemma sysInv_init (b : Boot z) : SysInv z b.init := by
  refine ⟨rfl, fun _ => [], ?_, fun _ _ _ h => by simpa using h.1, ?_⟩
  · have hnone : blocksOf (fun _ => []) maxOrder = [] := by
      apply eq_nil_iff_forall_not_mem.mpr
      intro c hc
      simpa using (mem_blocksOf.mp hc).2
    refine ⟨fun _ => rfl, fun _ _ => rfl, ?_, b.orders, ?_, b.zones, b.clean⟩
    · rw [hnone, append_nil]
      exact b.tiles
    · intro k _ i
      simp [Boot.init, pairBit]
  · show 0 + weight b.owned = z.size
    rw [Nat.zero_add]
    exact b.tiles.weight_eq

lemma Inv.count_eq (h : Inv z m owned free)
    (hcount : m.freePages.toNat + weight owned = z.size) :
    m.freePages.toNat = weight (blocksOf free maxOrder) := by
  have hall := h.tiles.weight_eq
  rw [weight_append] at hall
  omega

lemma sysInv_alloc (h : SysInv z s) (hstep : step z s (.alloc order) = some (t, es)) :
    SysInv z t := by
  obtain ⟨hbug, free, hinv, hmerged, hcount⟩ := h
  simp only [step, hbug, Option.isSome_none, false_eq_true, if_false] at hstep
  split_ifs at hstep with horder
  rcases rmqueue_spec hinv hmerged (hinv.count_eq hcount) horder with
    ⟨hr, -⟩ | ⟨p, m', free', hr, hinv', hmerged', hfp⟩
  · rw [hr] at hstep
    cases hstep
    exact ⟨rfl, free, hinv, hmerged, hcount⟩
  · rw [hr] at hstep
    cases hstep
    rw [Nat.add_sub_cancel_left]
    refine ⟨rfl, free', hinv', hmerged', ?_⟩
    show m'.freePages.toNat + weight (⟨p, order⟩ :: s.owned) = z.size
    show m'.freePages.toNat + (2 ^ order + weight s.owned) = z.size
    omega

lemma sysInv_free {page : ℕ} (h : SysInv z s)
    (hstep : step z s (.free page order) = some (t, es)) : SysInv z t := by
  obtain ⟨hbug, free, hinv, hmerged, hcount⟩ := h
  simp only [step, hbug, Option.isSome_none, false_eq_true, if_false] at hstep
  split_ifs at hstep with hok
  obtain ⟨hle, hmem⟩ := hok
  have hperm := perm_cons_erase hmem
  have hsize := z.inside
  have hsmall := z.small
  have hweight : weight s.owned = 2 ^ order + weight (s.owned.erase ⟨page - z.offset, order⟩) := by
    rw [weight_perm hperm, weight_cons]
  have hheld := hinv.perm hperm
  obtain ⟨m', free', hr, hinv', hmerged', hfp⟩ := freePagesOk_spec hheld hmerged (by omega)
  rw [Nat.add_sub_cancel' hle] at hr
  rw [hr] at hstep
  cases hstep
  refine ⟨rfl, free', hinv', hmerged', ?_⟩
  show m'.freePages.toNat + weight (s.owned.erase ⟨page - z.offset, order⟩) = z.size
  omega

lemma sysInv_step (h : SysInv z s) (hstep : step z s a = some (t, es)) : SysInv z t := by
  cases a with
  | alloc order => exact sysInv_alloc h hstep
  | free page order => exact sysInv_free h hstep

lemma sysInv_run (b : Boot z) {as : List Act} (hrun : Exec (step z) anyStep b.init as es s) :
    SysInv z s :=
  hrun.invariant_state (sysInv_init b) fun _ _ _ _ h _ hstep => sysInv_step h hstep

lemma Inv.mem_freeList_iff (h : Inv z m owned free) {k p : ℕ} :
    z.offset + p ∈ m.freeList k ↔ p ∈ free k := by
  rw [h.lists, mem_map]
  constructor
  · rintro ⟨q, hq, he⟩
    rwa [← Nat.add_left_cancel he]
  · exact fun hp => ⟨p, hp, rfl⟩

/-- The blocks on the free lists, by zone index. -/
def Sys.freeBlocks (z : Zone) (s : Sys) : List Block :=
  blocksOf (fun k => (s.mem.freeList k).map (· - z.offset)) maxOrder

lemma Inv.freeBlocks_eq (h : Inv z s.mem s.owned free) :
    s.freeBlocks z = blocksOf free maxOrder := by
  unfold Sys.freeBlocks
  congr 1
  funext k
  rw [h.lists, map_map]
  have hid : ((fun x => x - z.offset) ∘ fun x => z.offset + x) = id := by
    funext x
    show z.offset + x - z.offset = x
    omega
  rw [hid, map_id]

/-- **The buddy allocator.** Whatever is allocated and freed, in any zone and from any division
of its pages into allocated blocks: no bug is met; the free blocks are aligned, lie in the
zone, and together with the allocated ones cover it without overlap; `free_pages` counts the
pages on the lists; and each map bit says whether exactly one of its two buddies is free. -/
theorem zone_consistent (z : Zone) (b : Boot z) {as : List Act} {es : List Unit} {s : Sys}
    (hrun : Exec (step z) anyStep b.init as es s) :
    s.bug = none ∧
    (∀ k, ∀ x ∈ s.mem.freeList k, k < maxOrder ∧ z.offset ≤ x ∧ 2 ^ k ∣ x - z.offset ∧
      x + 2 ^ k ≤ z.offset + z.size) ∧
    (s.freeBlocks z ++ s.owned).Pairwise Block.Apart ∧
    (∀ x < z.size, ∃ c ∈ s.freeBlocks z ++ s.owned, c.has x) ∧
    s.mem.freePages.toNat = ∑ k ∈ Finset.range maxOrder, 2 ^ k * (s.mem.freeList k).length ∧
    ∀ k < maxOrder - 1, ∀ i, s.mem.map k i ↔
      Xor (z.offset + 2 * i * 2 ^ k ∈ s.mem.freeList k)
        (z.offset + (2 * i + 1) * 2 ^ k ∈ s.mem.freeList k) := by
  obtain ⟨hbug, free, hinv, -, hcount⟩ := sysInv_run b hrun
  have htiles : Tiles z.size (s.freeBlocks z ++ s.owned) := by
    rw [hinv.freeBlocks_eq]
    exact hinv.tiles.perm perm_append_comm
  refine ⟨hbug, ?_, htiles.pairwise, fun x hx => htiles.covered hx, ?_, ?_⟩
  · intro k x hx
    rw [hinv.lists] at hx
    obtain ⟨p, hp, rfl⟩ := mem_map.mp hx
    have hk : k < maxOrder := by
      by_contra hge
      rw [hinv.beyond k (by omega)] at hp
      simp at hp
    obtain ⟨hal, hin⟩ := hinv.listed hk hp
    refine ⟨hk, by omega, ?_, by omega⟩
    rw [Nat.add_sub_cancel_left]
    exact hal
  · rw [hinv.count_eq hcount, weight_blocksOf]
    refine Finset.sum_congr rfl fun k _ => ?_
    rw [hinv.lists, length_map]
  · intro k hk i
    rw [hinv.bits k hk i, hinv.mem_freeList_iff, hinv.mem_freeList_iff, pairBit]
    by_cases h₁ : 2 * i * 2 ^ k ∈ free k <;> by_cases h₂ : (2 * i + 1) * 2 ^ k ∈ free k <;>
      simp [h₂, Xor]

/-- Three pages that start in the middle of the map, allocated as a pair and a single page. -/
def oddZone : Zone where
  id := 1
  offset := 5
  size := 3
  maxMapnr := 8
  inside := by decide
  small := by decide

lemma tiles_odd : Tiles 3 [⟨0, 1⟩, ⟨2, 0⟩] := by
  refine ⟨by unfold Block.Aligned; decide, fun x => ?_⟩
  simp only [countP_cons, countP_nil, Block.has, decide_eq_true_eq]
  split_ifs <;> omega

def oddBoot : Boot oddZone where
  owned := [⟨0, 1⟩, ⟨2, 0⟩]
  page := fun _ => ⟨1, false, false, false, false, false, false, false, false, false, false, false, 0, 1⟩
  memoryPressure := 0
  tiles := tiles_odd
  orders := by decide
  zones := fun _ _ _ => rfl
  clean := fun _ _ _ => rfl

theorem zone_consistent_odd :
    ∃ s es, Exec (step oddZone) anyStep oddBoot.init
      [.free 5 1, .alloc 0, .free 7 0, .alloc 1, .free 6 0] es s ∧ s.bug = none ∧
      s.mem.freePages.toNat = ∑ k ∈ Finset.range maxOrder, 2 ^ k * (s.mem.freeList k).length := by
  refine Exec.exists_of_decide (fun _ _ => True) (by decide +kernel) fun s es hrun _ => ?_
  obtain ⟨hbug, -, -, -, hcount, -⟩ := zone_consistent oddZone oddBoot hrun
  exact ⟨hbug, hcount⟩

/-! ## Canonical form -/

/-- The pages on the lists are those of the zone that are not allocated. -/
lemma Inv.mem_free_iff (h : Inv z m owned free) (x : ℕ) :
    (∃ c ∈ blocksOf free maxOrder, c.has x) ↔ x < z.size ∧ ∀ d ∈ owned, d.has x = false := by
  have honce := h.tiles.once x
  rw [countP_append] at honce
  constructor
  · rintro ⟨c, hc, hx⟩
    have hlt : x < z.size := h.tiles.lt_of_has (mem_append_right _ hc) hx
    have hpos : 0 < (blocksOf free maxOrder).countP (fun b => b.has x) :=
      countP_pos_iff.mpr ⟨c, hc, hx⟩
    rw [if_pos hlt] at honce
    have hzero : owned.countP (fun b => b.has x) = 0 := by omega
    exact ⟨hlt, fun d hd => not_eq_true _ ▸ countP_eq_zero.mp hzero d hd⟩
  · rintro ⟨hlt, hnone⟩
    obtain ⟨c, hc, hx⟩ := h.tiles.covered hlt
    rcases mem_append.mp hc with hc | hc
    · rw [hnone c hc] at hx; cases hx
    · exact ⟨c, hc, hx⟩

/-- The free blocks are the maximal blocks of pages that are not allocated. -/
lemma SysInv.mem_freeBlocks_iff (h : SysInv z s) (c : Block) :
    c ∈ s.freeBlocks z ↔
      c.Maximal (fun x => x < z.size ∧ ∀ d ∈ s.owned, d.has x = false) (maxOrder - 1) := by
  obtain ⟨-, free, hinv, hmerged, -⟩ := h
  have hmem : ∀ c ∈ blocksOf free maxOrder, c ∈ s.owned ++ blocksOf free maxOrder :=
    fun c hc => mem_append_right _ hc
  have hiff := hmerged.mem_blocksOf_iff (fun c hc => hinv.tiles.aligned c (hmem c hc))
    (fun b hb c hc x => hinv.tiles.eq_of_has (hmem b hb) (hmem c hc)) c
  rw [hinv.freeBlocks_eq]
  simp only [← hinv.mem_free_iff]
  exact hiff

/-- **The free lists are canonical.** Whatever was allocated and freed, no two buddies below
the greatest order are both free, and the free blocks are the maximal aligned blocks of the
pages that are not allocated. So two runs that end with the same pages allocated end with the
same free blocks, however they got there. -/
theorem free_blocks_canonical (z : Zone) (b : Boot z) {as : List Act} {es : List Unit} {s : Sys}
    (hrun : Exec (step z) anyStep b.init as es s) :
    (∀ k < maxOrder - 1, ∀ i, ¬ (z.offset + 2 * i * 2 ^ k ∈ s.mem.freeList k ∧
      z.offset + (2 * i + 1) * 2 ^ k ∈ s.mem.freeList k)) ∧
    (∀ c, c ∈ s.freeBlocks z ↔
      c.Maximal (fun x => x < z.size ∧ ∀ d ∈ s.owned, d.has x = false) (maxOrder - 1)) ∧
    ∀ (b' : Boot z) (as' : List Act) (es' : List Unit) (s' : Sys),
      Exec (step z) anyStep b'.init as' es' s' →
      (∀ x, (∃ d ∈ s.owned, d.has x) ↔ ∃ d ∈ s'.owned, d.has x) →
      ∀ c, c ∈ s.freeBlocks z ↔ c ∈ s'.freeBlocks z := by
  have h := sysInv_run b hrun
  refine ⟨?_, h.mem_freeBlocks_iff, ?_⟩
  · obtain ⟨-, free, hinv, hmerged, -⟩ := h
    intro k hk i
    rw [hinv.mem_freeList_iff, hinv.mem_freeList_iff]
    exact hmerged k hk i
  · intro b' as' es' s' hrun' hsame c
    have hpages : ∀ x, (∀ d ∈ s.owned, d.has x = false) ↔ ∀ d ∈ s'.owned, d.has x = false := by
      intro x
      have := not_congr (hsame x)
      simpa using this
    rw [h.mem_freeBlocks_iff, (sysInv_run b' hrun').mem_freeBlocks_iff]
    simp only [hpages]

/-- All the pages of the zone, freed in two orders after different allocations. -/
theorem free_blocks_canonical_odd :
    ∃ s es s' es', Exec (step oddZone) anyStep oddBoot.init [.free 5 1, .free 7 0] es s ∧
      Exec (step oddZone) anyStep oddBoot.init
        [.free 7 0, .free 5 1, .alloc 0, .alloc 0, .free 7 0, .free 6 0, .alloc 1, .free 5 1] es' s' ∧
      s.freeBlocks oddZone ≠ [] ∧ ∀ c, c ∈ s.freeBlocks oddZone ↔ c ∈ s'.freeBlocks oddZone := by
  obtain ⟨s, es, hrun, howned, hne⟩ : ∃ s es,
      Exec (step oddZone) anyStep oddBoot.init [.free 5 1, .free 7 0] es s ∧
      s.owned = [] ∧ s.freeBlocks oddZone ≠ [] :=
    Exec.exists_of_decide _ (by decide +kernel) fun _ _ _ => id
  obtain ⟨s', es', hrun', howned'⟩ : ∃ s es, Exec (step oddZone) anyStep oddBoot.init
      [.free 7 0, .free 5 1, .alloc 0, .alloc 0, .free 7 0, .free 6 0, .alloc 1, .free 5 1] es s ∧
      s.owned = [] :=
    Exec.exists_of_decide _ (by decide +kernel) fun _ _ _ => id
  refine ⟨s, es, s', es', hrun, hrun', hne, ?_⟩
  refine (free_blocks_canonical oddZone oddBoot hrun).2.2 oddBoot _ es' s' hrun' fun x => ?_
  rw [howned, howned']

end Runs

end PsxLinux.Buddy
