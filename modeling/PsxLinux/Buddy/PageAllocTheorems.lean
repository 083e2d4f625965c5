import PsxLinux.Buddy.PageAlloc

/-!
# The invariant of the buddy allocator

`Inv` ties the memory to a tiling of the zone: the blocks on the free lists and the blocks in
other hands (allocated, or held by the code that is moving one) tile the zone, and each map
bit is the parity of its pair. Giving a block to a list, taking one off, splitting and joining
keep it; the loops of `__free_pages_ok` and `expand` are made of these.
-/

namespace PsxLinux.Buddy

open Lib Function List

/-! ## 32-bit arithmetic -/

/-- `~0UL << order` -/
def maskOf (order : ℕ) : UInt32 := (~~~ 0) <<< UInt32.ofNat order

lemma maskOf_toNat {k : ℕ} (hk : k < 11) : (maskOf k).toNat = 2 ^ 32 - 2 ^ k := by
  revert k; decide

lemma maskOf_shift {k : ℕ} (hk : k < 10) : maskOf k <<< 1 = maskOf (k + 1) := by
  revert k; decide

lemma neg_maskOf_toNat {k : ℕ} (hk : k < 10) : (-maskOf k).toNat = 2 ^ k := by
  revert k; decide

lemma not_maskOf_toNat {k : ℕ} (hk : k < 11) : (~~~ maskOf k).toNat = 2 ^ k - 1 := by
  revert k; decide

lemma maskOf_ends {k : ℕ} (hk : k < 10) :
    maskOf k + 1 <<< UInt32.ofNat (maxOrder - 1) = 0 ↔ k = 9 := by
  revert k; decide

lemma toNat_ofNat_sub {a b : ℕ} (hb : b ≤ a) (ha : a < 2 ^ 32) :
    (UInt32.ofNat a - UInt32.ofNat b).toNat = a - b := by
  have ha' : (UInt32.ofNat a).toNat = a := UInt32.toNat_ofNat_of_lt' ha
  have hb' : (UInt32.ofNat b).toNat = b := UInt32.toNat_ofNat_of_lt' (lt_of_le_of_lt hb ha)
  rw [UInt32.toNat_sub_of_le _ _ (UInt32.le_iff_toNat_le.mpr (by omega)), ha', hb']

variable {x : UInt32}

lemma toNat_shiftRight {k : ℕ} (hk : k < 32) : (x >>> UInt32.ofNat k).toNat = x.toNat / 2 ^ k := by
  have hk' : (UInt32.ofNat k).toNat = k :=
    UInt32.toNat_ofNat_of_lt' (show k < 2 ^ 32 by omega)
  rw [UInt32.toNat_shiftRight, hk', Nat.mod_eq_of_lt hk, Nat.shiftRight_eq_div_pow]

lemma toNat_and_maskOf {k : ℕ} (hk : k < 11) :
    (x &&& maskOf k).toNat = x.toNat / 2 ^ k * 2 ^ k := by
  rw [UInt32.toNat_and, maskOf_toNat hk]
  exact and_high_mask x.toNat_lt (by omega)

lemma and_not_maskOf_eq_zero {k : ℕ} (hk : k < 10) (h : 2 ^ k ∣ x.toNat) :
    x &&& ~~~ maskOf k = 0 := by
  apply UInt32.toNat_inj.mp
  rw [UInt32.toNat_and, not_maskOf_toNat (by omega), Nat.and_two_pow_sub_one_eq_mod]
  exact Nat.mod_eq_zero_of_dvd h

/-! ## The maps are large enough -/

lemma initSizes_mask (size : UInt32) {i : ℕ} (hi : i < 10) :
    (initSizes size i).1 = maskOf (i + 1) := by
  induction i with
  | zero =>
    show (-1) + -1 = maskOf 1
    decide
  | succ i ih =>
    have hdouble : ∀ k < 11, maskOf k + maskOf k = maskOf (k + 1) := by decide
    show (initSizes size i).1 + (initSizes size i).1 = _
    rw [ih (by omega), hdouble _ (by omega)]

/-- One turn rounds the size up to a multiple of `2 ^ k`. -/
lemma roundUp_turn {k : ℕ} (hk : k < 11) (hx : x.toNat < 2 ^ 31) :
    x.toNat ≤ ((x + ~~~ maskOf k) &&& maskOf k).toNat ∧
      2 ^ k ∣ ((x + ~~~ maskOf k) &&& maskOf k).toNat ∧
      ((x + ~~~ maskOf k) &&& maskOf k).toNat < x.toNat + 2 ^ k := by
  have hpow : 2 ^ k ≤ 2 ^ 10 := Nat.pow_le_pow_right (by omega) (by omega)
  rw [toNat_and_maskOf hk, UInt32.toNat_add, not_maskOf_toNat hk, Nat.mod_eq_of_lt (by omega)]
  have hdiv := Nat.div_add_mod (x.toNat + (2 ^ k - 1)) (2 ^ k)
  rw [Nat.mul_comm] at hdiv
  exact ⟨by omega, Nat.dvd_mul_left _ _, by omega⟩

/-- The rounded size holds whole pairs, and no fewer pages than the zone has. -/
lemma initSizes_size (size : UInt32) (hs : size.toNat ≤ 2 ^ 30) {i : ℕ} (hi : i < 10) :
    size.toNat ≤ (initSizes size i).2.toNat ∧ 2 ^ (i + 1) ∣ (initSizes size i).2.toNat ∧
      (initSizes size i).2.toNat ≤ 2 ^ 30 + 2 ^ (i + 2) := by
  have hmask := initSizes_mask size hi
  induction i with
  | zero =>
    have hsize : (initSizes size 0).2 = (size + ~~~ maskOf 1) &&& maskOf 1 := by
      rw [← hmask]; rfl
    have h := roundUp_turn (x := size) (k := 1) (by omega) (by omega)
    rw [← hsize] at h
    exact ⟨h.1, h.2.1, by omega⟩
  | succ i ih =>
    obtain ⟨h₁, -, h₃⟩ := ih (by omega) (initSizes_mask size (by omega))
    have hpow : 2 ^ (i + 2) ≤ 2 ^ 11 := Nat.pow_le_pow_right (by omega) (by omega)
    have hnext : 2 ^ (i + 1 + 2) = 2 ^ (i + 2) + 2 ^ (i + 2) := by rw [← Nat.mul_two]; rfl
    have hsize : (initSizes size (i + 1)).2 =
        ((initSizes size i).2 + ~~~ maskOf (i + 2)) &&& maskOf (i + 2) := by
      rw [← hmask]; rfl
    have h := roundUp_turn (x := (initSizes size i).2) (k := i + 2) (by omega) (by omega)
    rw [← hsize] at h
    exact ⟨by omega, h.2.1, by omega⟩

/-- `bitmap_size` in bytes, rounded up to whole words. -/
lemma toNat_longAlign (hx : x.toNat < 2 ^ 31) :
    8 * (((x + 7) >>> 3 + 3) &&& ~~~ 3).toNat = 8 * (((x.toNat + 7) / 8 + 3) / 4 * 4) := by
  have hmask : (~~~ 3 : UInt32).toNat = 2 ^ 32 - 2 ^ 2 := by decide
  have h7 : (x + 7).toNat = x.toNat + 7 := by
    show (x.toNat + 7) % 2 ^ 32 = _
    omega
  have hshift : ((x + 7) >>> 3).toNat = (x.toNat + 7) / 8 := by
    rw [show 3 = UInt32.ofNat 3 from rfl, toNat_shiftRight (by omega), h7]
    rfl
  have h3 : ((x + 7) >>> 3 + 3).toNat = (x.toNat + 7) / 8 + 3 := by
    rw [UInt32.toNat_add, hshift]
    show ((x.toNat + 7) / 8 + 3) % 2 ^ 32 = _
    omega
  rw [UInt32.toNat_and, hmask, and_high_mask (UInt32.toNat_lt _) (by omega), h3]
  rfl

/-- The pair of a block of the zone has its bit in the map. -/
lemma lt_mapBits (z : Zone) {p k : ℕ} (hk : k < 10) (hp : p < z.size) :
    p / 2 ^ (k + 1) < mapBits z k := by
  have hin := z.inside
  have hsmall := z.small
  have hsize : (UInt32.ofNat z.size).toNat = z.size :=
    UInt32.toNat_ofNat_of_lt' (show z.size < 2 ^ 32 by omega)
  obtain ⟨h₁, h₂, h₃⟩ := initSizes_size (UInt32.ofNat z.size) (by omega) hk
  have hpow : 2 ^ (k + 2) ≤ 2 ^ 11 := Nat.pow_le_pow_right (by omega) (by omega)
  have hdvd : 2 ^ k ∣ (initSizes (UInt32.ofNat z.size) k).2.toNat :=
    (Nat.pow_dvd_pow 2 (Nat.le_succ k)).trans h₂
  have hshift := toNat_shiftRight (x := (initSizes (UInt32.ofNat z.size) k).2) (k := k) (by omega)
  have hle : (initSizes (UInt32.ofNat z.size) k).2.toNat / 2 ^ k ≤
      (initSizes (UInt32.ofNat z.size) k).2.toNat := Nat.div_le_self _ _
  have hlt : p / 2 ^ (k + 1) < (initSizes (UInt32.ofNat z.size) k).2.toNat / 2 ^ k :=
    calc p / 2 ^ (k + 1) ≤ p / 2 ^ k :=
          Nat.div_le_div_left (Nat.pow_le_pow_right (by omega) (by omega)) (Nat.two_pow_pos k)
      _ < (initSizes (UInt32.ofNat z.size) k).2.toNat / 2 ^ k :=
          Nat.div_lt_div_of_lt_of_dvd hdvd (by omega)
  have hbits := toNat_longAlign (x := (initSizes (UInt32.ofNat z.size) k).2 >>> UInt32.ofNat k)
    (by omega)
  unfold mapBits
  rw [hbits]
  omega

/-! ## The invariant -/

/-- The memory holds these free lists, and the other blocks of the zone are in these hands. -/
structure Inv (z : Zone) (m : Mem) (owned : List Block) (free : ℕ → List ℕ) : Prop where
  lists : ∀ k, m.freeList k = (free k).map (z.offset + ·)
  beyond : ∀ k, maxOrder ≤ k → free k = []
  tiles : Tiles z.size (owned ++ blocksOf free maxOrder)
  orders : ∀ b ∈ owned, b.order < maxOrder
  bits : ∀ k < maxOrder - 1, ∀ i, m.map k i = pairBit free k i
  zones : ∀ x, z.offset ≤ x → x < z.offset + z.size → (m.page x).zone = z.id
  clean : ∀ x, z.offset ≤ x → x < z.offset + z.size → (m.page x).clean

section Inv

variable {z : Zone} {m : Mem} {owned rest : List Block} {free : ℕ → List ℕ} {p k : ℕ}

lemma Inv.perm (h : Inv z m owned free) (hp : owned.Perm rest) : Inv z m rest free :=
  { h with
    tiles := h.tiles.perm (hp.append_right _)
    orders := fun b hb => h.orders b (hp.mem_iff.mpr hb) }

lemma Inv.badRange_eq (h : Inv z m owned free) {x : ℕ} (hx : x < z.size) :
    badRange z m (z.offset + x) = false := by
  have hz := h.zones (z.offset + x) (by omega) (by omega)
  simp only [badRange, decide_eq_false_iff_not, not_or, not_not]
  exact ⟨hz, by omega, by omega⟩

lemma Inv.listed (h : Inv z m owned free) (hk : k < maxOrder) (hp : p ∈ free k) :
    2 ^ k ∣ p ∧ p + 2 ^ k ≤ z.size := by
  have hmem : (⟨p, k⟩ : Block) ∈ owned ++ blocksOf free maxOrder :=
    mem_append_right _ (mem_blocksOf.mpr ⟨hk, hp⟩)
  exact ⟨h.tiles.aligned _ hmem, h.tiles.inside hmem⟩

lemma Inv.held (h : Inv z m (⟨p, k⟩ :: rest) free) :
    k < maxOrder ∧ 2 ^ k ∣ p ∧ p + 2 ^ k ≤ z.size :=
  ⟨h.orders ⟨p, k⟩ mem_cons_self, h.tiles.aligned ⟨p, k⟩ mem_cons_self,
    h.tiles.inside mem_cons_self⟩

/-- What is in hand is on no list, and neither is a part of it. -/
lemma Inv.not_listed (h : Inv z m (⟨p, k⟩ :: rest) free) {q j : ℕ} (hj : j < maxOrder)
    (hq : p ≤ q ∧ q < p + 2 ^ k) : q ∉ free j := by
  intro hmem
  have hlisted : (⟨q, j⟩ : Block) ∈ rest ++ blocksOf free maxOrder :=
    mem_append_right _ (mem_blocksOf.mpr ⟨hj, hmem⟩)
  have hapart := h.tiles.apart hlisted
  refine hapart q ⟨?_, Block.has_start ⟨q, j⟩⟩
  simpa [Block.has] using hq

/-- A block is on its list only once, and on no other. -/
lemma Inv.erased (h : Inv z m owned free) {j : ℕ} (hk : k < maxOrder) (hp : p ∈ free k)
    (hj : j < maxOrder) : p ∉ update free k ((free k).erase p) j := by
  intro hmem
  have htiles := h.tiles.perm (((blocksOf_erase free hk hp).append_left owned).trans perm_middle)
  have hlisted : (⟨p, j⟩ : Block) ∈ owned ++ blocksOf (update free k ((free k).erase p)) maxOrder :=
    mem_append_right _ (mem_blocksOf.mpr ⟨hj, hmem⟩)
  exact htiles.apart hlisted p ⟨Block.has_start ⟨p, k⟩, Block.has_start ⟨p, j⟩⟩

/-- The map bit of the pair of block `⟨p, k⟩` was flipped, and no other that counts. -/
def Flipped (m m' : Mem) (p k : ℕ) : Prop :=
  ∀ j < maxOrder - 1, ∀ i,
    m'.map j i = if j = k ∧ i = p / 2 ^ (k + 1) then !m.map j i else m.map j i

variable {m' : Mem}

/-- Flipping the bit and moving the block on or off its list keeps the bits right. -/
lemma bits_of_flipped {l : List ℕ} (hbits : ∀ k < maxOrder - 1, ∀ i,
      m.map k i = pairBit free k i) (hflip : Flipped m m' p k) (hal : 2 ^ k ∣ p)
    (hp : p ∈ l ↔ p ∉ free k) (hother : ∀ r, r ≠ p → (r ∈ l ↔ r ∈ free k)) :
    ∀ j < maxOrder - 1, ∀ i, m'.map j i = pairBit (update free k l) j i := by
  intro j hj i
  rw [hflip j hj i]
  by_cases hjk : j = k
  · subst hjk
    have hpair : pairBit (update free j l) j i = _ := pairBit_flip hal
      (by rw [update_self]; exact hp)
      (fun r hr => by rw [update_self]; exact hother r hr) i
    rw [hpair, hbits j hj i]
    by_cases hi : i = p / 2 ^ (j + 1)
    · simp
    · simp
  · have hsame : pairBit (update free k l) j i = pairBit free j i := by
      unfold pairBit
      rw [update_of_ne hjk]
    rw [hsame, hbits j hj i]
    simp [hjk]

lemma Inv.give (h : Inv z m (⟨p, k⟩ :: rest) free)
    (hlist : m'.freeList = update m.freeList k ((z.offset + p) :: m.freeList k))
    (hflip : k < maxOrder - 1 → Flipped m m' p k)
    (hlast : k = maxOrder - 1 → ∀ j < maxOrder - 1, ∀ i, m'.map j i = m.map j i)
    (hpage : m'.page = m.page) : Inv z m' rest (update free k (p :: free k)) := by
  obtain ⟨hk, hal, hin⟩ := h.held
  have hnot : p ∉ free k := h.not_listed hk ⟨le_refl _, by omega⟩
  constructor
  · intro j
    rw [hlist]
    by_cases hj : j = k
    · subst hj
      rw [update_self, update_self, map_cons, h.lists]
    · rw [update_of_ne hj, update_of_ne hj]
      exact h.lists j
  · intro j hj
    rw [update_of_ne (by omega)]
    exact h.beyond j hj
  · have hpush := blocksOf_push free hk p
    exact h.tiles.perm ((hpush.append_left rest).trans perm_middle).symm
  · exact fun b hb => h.orders b (mem_cons_of_mem _ hb)
  · by_cases hlt : k < maxOrder - 1
    · refine bits_of_flipped h.bits (hflip hlt) hal (by simp [hnot]) fun r hr => ?_
      simp [hr]
    · intro j hj i
      have hkeq : k = maxOrder - 1 := by omega
      have hne : j ≠ k := by omega
      rw [hlast hkeq j hj i, h.bits j hj i]
      unfold pairBit
      rw [update_of_ne hne]
  · rw [hpage]; exact h.zones
  · rw [hpage]; exact h.clean

lemma Inv.take (h : Inv z m owned free) (hk : k < maxOrder) (hp : p ∈ free k)
    (hlist : ∀ j, m'.freeList j = (update free k ((free k).erase p) j).map (z.offset + ·))
    (hflip : Flipped m m' p k) (hpage : m'.page = m.page) :
    Inv z m' (⟨p, k⟩ :: owned) (update free k ((free k).erase p)) := by
  obtain ⟨hal, -⟩ := h.listed hk hp
  have hgone := h.erased hk hp hk
  rw [update_self] at hgone
  constructor
  · exact hlist
  · intro j hj
    rw [update_of_ne (by omega)]
    exact h.beyond j hj
  · have herase := blocksOf_erase free hk hp
    exact h.tiles.perm ((herase.append_left owned).trans perm_middle)
  · exact forall_mem_cons.mpr ⟨hk, h.orders⟩
  · refine bits_of_flipped h.bits hflip hal (by simp [hgone, hp]) fun r hr => ?_
    rw [mem_erase_of_ne hr]
  · rw [hpage]; exact h.zones
  · rw [hpage]; exact h.clean

lemma Inv.join (h : Inv z m (⟨p, k⟩ :: ⟨buddy p k, k⟩ :: rest) free) (hk : k + 1 < maxOrder) :
    Inv z m (⟨p / 2 ^ (k + 1) * 2 ^ (k + 1), k + 1⟩ :: rest) free := by
  obtain ⟨-, hal, -⟩ := h.held
  have hpow : 2 ^ (k + 1) = 2 * 2 ^ k := Nat.pow_succ'
  refine { h with tiles := ?_, orders := ?_ }
  · refine Tiles.join (Nat.dvd_mul_left _ _) ?_
    have hlow : p / 2 ^ (k + 1) * 2 ^ (k + 1) = 2 * (p / 2 ^ (k + 1)) * 2 ^ k := by
      rw [hpow, Nat.mul_comm 2 (p / (2 * 2 ^ k)), Nat.mul_assoc]
    rw [hlow]
    have hhigh : 2 * (p / 2 ^ (k + 1)) * 2 ^ k + 2 ^ k = (2 * (p / 2 ^ (k + 1)) + 1) * 2 ^ k := by
      rw [Nat.add_mul, Nat.one_mul]
    rw [hhigh]
    rcases halves hal with ⟨h₁, h₂⟩ | ⟨h₁, h₂⟩
    · rw [← h₁, ← h₂]
      exact h.tiles
    · rw [← h₁, ← h₂]
      exact h.tiles.perm (Perm.swap _ _ _)
  · simp only [forall_mem_cons]
    exact ⟨hk, fun b hb => h.orders b (mem_cons_of_mem _ (mem_cons_of_mem _ hb))⟩

lemma Inv.split (h : Inv z m (⟨p, k + 1⟩ :: rest) free) :
    Inv z m (⟨p, k⟩ :: ⟨p + 2 ^ k, k⟩ :: rest) free := by
  obtain ⟨hk, -, -⟩ := h.held
  refine { h with tiles := h.tiles.split, orders := ?_ }
  simp only [forall_mem_cons]
  exact ⟨by omega, by omega, fun b hb => h.orders b (mem_cons_of_mem _ hb)⟩

end Inv

/-! ## The loop of `__free_pages_ok` -/

section Loops

variable {z : Zone} {m : Mem} {owned rest : List Block} {free : ℕ → List ℕ} {p k : ℕ}

lemma flipped_changeBit (m : Mem) (p k : ℕ) : Flipped m (m.changeBit k (p / 2 ^ (k + 1))) p k := by
  intro j _ i
  show update m.map k _ j i = _
  by_cases hj : j = k
  · subst hj
    rw [update_self]
    by_cases hi : i = p / 2 ^ (j + 1)
    · rw [hi]; simp
    · rw [update_of_ne hi]; simp [hi]
  · rw [update_of_ne hj]; simp [hj]

lemma testAndChangeBit_eq (m : Mem) (hk : k < maxOrder) (hp : p < z.size) :
    testAndChangeBit z m k (p / 2 ^ (k + 1)) =
      .ok (m.map k (p / 2 ^ (k + 1)), m.changeBit k (p / 2 ^ (k + 1))) := by
  unfold testAndChangeBit
  rw [if_pos (lt_mapBits z hk hp)]

/-- Taking a listed page off its list, in a memory `m₁` with the same lists. -/
lemma Inv.del_eq (m₁ : Mem) (h : Inv z m owned free) (hl : m₁.freeList = m.freeList)
    (hk : k < maxOrder) (hp : p ∈ free k) :
    ∃ l, m₁.del (z.offset + p) = .ok { m₁ with freeList := l } ∧
      ∀ j, l j = (update free k ((free k).erase p) j).map (z.offset + ·) := by
  have hinj : Injective (z.offset + ·) := fun a b hab => Nat.add_left_cancel hab
  have hlisted : z.offset + p ∈ m₁.freeList k := by
    rw [hl, h.lists]
    exact mem_map_of_mem hp
  have hany : ((range maxOrder).any fun k => decide (z.offset + p ∈ m₁.freeList k)) := by
    rw [any_eq_true]
    exact ⟨k, mem_range.mpr hk, by simpa using hlisted⟩
  refine ⟨fun k => (m₁.freeList k).erase (z.offset + p), ?_, ?_⟩
  · unfold Mem.del
    rw [if_pos hany]
  · intro j
    show (m₁.freeList j).erase (z.offset + p) = _
    rw [hl, h.lists]
    by_cases hj : j = k
    · subst hj
      rw [update_self, map_erase hinj]
    · -- the page is on no other list
      have hno : p ∉ free j := by
        intro hpj
        by_cases hlt : j < maxOrder
        · exact h.erased hk hp hlt (by rwa [update_of_ne hj])
        · rw [h.beyond j (by omega)] at hpj
          simp at hpj
      rw [update_of_ne hj, erase_of_not_mem]
      intro hmem
      obtain ⟨q, hq, he⟩ := mem_map.mp hmem
      exact hno (hinj he ▸ hq)

/-- **The merge loop.** With a block in hand it ends, and putting what it ends with on the
list it names restores the invariant and leaves no pair of buddies on a list. -/
theorem mergeLoop_spec : ∀ (fuel : ℕ) {m : Mem} {free : ℕ → List ℕ} {p k : ℕ}
    {pageIdx index : UInt32}, maxOrder - k < fuel → Inv z m (⟨p, k⟩ :: rest) free →
    Merged free (maxOrder - 1) → pageIdx.toNat = p → index.toNat = p / 2 ^ (k + 1) →
    ∃ area pageIdx' m' free',
      mergeLoop z fuel k (maskOf k) pageIdx index m = .ok (area, pageIdx', m') ∧
      m'.freePages = m.freePages ∧
      Inv z (m'.addHead area (z.offset + pageIdx'.toNat)) rest free' ∧
      Merged free' (maxOrder - 1) := by
  intro fuel
  induction fuel with
  | zero => intro m free p k pageIdx index hfuel; omega
  | succ fuel ih =>
    intro m free p k pageIdx index hfuel h hmerged hidx hindex
    obtain ⟨hk, hal, hin⟩ := h.held
    rw [mergeLoop]
    by_cases hlast : k = 9
    · -- the greatest order: nothing to merge with
      rw [if_neg (by simpa using (maskOf_ends hk).mpr hlast)]
      refine ⟨k, pageIdx, m, update free k (p :: free k), rfl, rfl, ?_,
        hmerged.push hal fun hlt => absurd hlast (by unfold maxOrder at hlt; omega)⟩
      rw [hidx]
      exact h.give rfl (fun hlt => absurd hlast (by unfold maxOrder at hlt; omega))
        (fun _ _ _ _ => rfl) rfl
    · have hk9 : k < maxOrder - 1 := by unfold maxOrder at hk ⊢; omega
      rw [if_pos (fun he => hlast ((maskOf_ends hk).mp he)), if_neg (by omega), hindex,
        testAndChangeBit_eq m hk (by omega), h.bits k hk9,
        pairBit_of_not_mem hal (h.not_listed hk ⟨le_refl _, by omega⟩)]
      by_cases hbuddy : buddy p k ∈ free k
      · -- the buddy is free: take it off its list and go on with both as one block
        obtain ⟨-, hbin⟩ := h.listed hk hbuddy
        obtain ⟨l, hdel, hlist⟩ := h.del_eq (m.changeBit k (p / 2 ^ (k + 1))) rfl hk hbuddy
        have hbad₁ : badRange z (m.changeBit k (p / 2 ^ (k + 1))) (z.offset + buddy p k) = false :=
          h.badRange_eq (by omega)
        have hbad₂ : badRange z (m.changeBit k (p / 2 ^ (k + 1))) (z.offset + p) = false :=
          h.badRange_eq (by omega)
        have hxor : (pageIdx ^^^ -maskOf k).toNat = buddy p k := by
          rw [UInt32.toNat_xor, neg_maskOf_toNat hk, xor_two_pow (hidx ▸ hal), hidx]
        have hflip : Flipped m { m.changeBit k (p / 2 ^ (k + 1)) with freeList := l } (buddy p k) k := by
          intro j hj i
          rw [buddy_div hal]
          exact flipped_changeBit m p k j hj i
        have htaken := (h.take hk hbuddy hlist hflip rfl).perm (Perm.swap _ _ _)
        have hjoined := htaken.join (by unfold maxOrder at hk9 ⊢; omega)
        have hnext : (pageIdx &&& maskOf (k + 1)).toNat = p / 2 ^ (k + 1) * 2 ^ (k + 1) := by
          rw [toNat_and_maskOf (by unfold maxOrder at hk9; omega), hidx]
        have hindex' : (index >>> 1).toNat = p / 2 ^ (k + 1) * 2 ^ (k + 1) / 2 ^ (k + 1 + 1) := by
          rw [show 1 = UInt32.ofNat 1 from rfl, toNat_shiftRight (by omega), hindex,
            Nat.pow_succ 2 (k + 1), ← Nat.div_div_eq_div_mul,
            Nat.mul_div_cancel _ (Nat.two_pow_pos (k + 1))]
          rfl
        obtain ⟨area, pageIdx', m'', free', hloop, hfp', hinv, hmerged'⟩ :=
          ih (by omega) hjoined hmerged.erase hnext hindex'
        refine ⟨area, pageIdx', m'', free', ?_, hfp', hinv, hmerged'⟩
        rw [decide_eq_true hbuddy]
        simp only [hxor, hidx, hbad₁, hbad₂, hdel, maskOf_shift hk]
        exact hloop
      · -- the buddy is not free: the block stays as it is
        rw [decide_eq_false hbuddy]
        refine ⟨k, pageIdx, _, update free k (p :: free k), rfl, rfl, ?_,
          hmerged.push hal fun _ => hbuddy⟩
        rw [hidx]
        exact h.give rfl (fun _ => flipped_changeBit m p k) (fun he => absurd he (by omega)) rfl

end Loops

end PsxLinux.Buddy
