import PsxLinux.Slab.Cache
import Mathlib.Tactic.IntervalCases

/-!
# The sizing of a cache

A cache that `kmem_cache_create` makes holds at least one object in a slab, and with any of its
colours the descriptor (on slab) and the objects fit into the slab's pages.
-/

namespace PsxLinux.Slab

/-- The bytes in front of the objects that belong to the descriptor. -/
def Cache.mgmtSize (c : Cache) : ℕ := if offSlab c.flags then 0 else slabSize c.num

/-- There is room for the objects of a slab, whatever its colour. -/
structure Cache.Fits (c : Cache) : Prop where
  objsize_pos : 0 < c.objsize
  num_pos : 0 < c.num
  num_lt : c.num < bufctlEnd
  room : c.colour * c.colourOff + c.mgmtSize + c.num * c.objsize ≤ pageSize * 1 <<< c.gfporder
  colourNext : c.colourNext < c.colour ∨ c.colourNext = 0

/-- The colour that `kmem_cache_grow` takes leaves room for the objects. -/
lemma Cache.Fits.offset_le {c : Cache} (h : c.Fits) :
    c.colourNext * c.colourOff + c.mgmtSize + c.num * c.objsize ≤ pageSize * 1 <<< c.gfporder := by
  have hroom := h.room
  have hle : c.colourNext * c.colourOff ≤ c.colour * c.colourOff := by
    refine Nat.mul_le_mul_right _ ?_
    have := h.colourNext
    omega
  omega

/-! ## The estimate -/

/-- So many objects fit. -/
def EstimateFits (size base extra wastage i : ℕ) : Prop :=
  i * size + l1CacheAlign (base + i * extra) ≤ wastage

lemma l1CacheAlign_mono {x y : ℕ} (h : x ≤ y) : l1CacheAlign x ≤ l1CacheAlign y :=
  Nat.mul_le_mul_right _ (Nat.div_le_div_right (by omega))

variable {size : ℕ}

lemma EstimateFits.of_le {base extra wastage i j : ℕ} (h : EstimateFits size base extra wastage j)
    (hij : i ≤ j) :
    EstimateFits size base extra wastage i := by
  unfold EstimateFits at h ⊢
  have hsize : i * size ≤ j * size := Nat.mul_le_mul_right _ hij
  have hmgmt : l1CacheAlign (base + i * extra) ≤ l1CacheAlign (base + j * extra) :=
    l1CacheAlign_mono (Nat.add_le_add_left (Nat.mul_le_mul_right _ hij) _)
  omega

/-- The loop stops right behind a number that fits, or where it began. -/
lemma estimateLoop_spec (size base extra wastage fuel i : ℕ) :
    estimateLoop size base extra wastage fuel i = i ∨
      EstimateFits size base extra wastage (estimateLoop size base extra wastage fuel i - 1) := by
  induction fuel generalizing i with
  | zero => exact .inl rfl
  | succ fuel ih =>
    unfold estimateLoop
    split_ifs with hfits
    · rcases ih (i + 1) with heq | h
      · right
        rw [heq]
        exact hfits
      · exact .inr h
    · exact .inl rfl

variable {gfporder leftOver : ℕ} {flags : UInt32}

/-- The objects, the descriptor and what is left over make up the slab. -/
lemma kmemCacheEstimate_spec {num : ℕ}
    (h : kmemCacheEstimate gfporder size flags = (leftOver, num)) (hnum : num ≠ 0) :
    num * size + (if offSlab flags then 0 else slabSize num) + leftOver = slabBytes gfporder := by
  simp only [kmemCacheEstimate] at h
  generalize hbase : (if offSlab flags then 0 else sizeofSlab) = base at h
  generalize hextra : (if offSlab flags then 0 else sizeofBufctl) = extra at h
  have hloop := estimateLoop_spec size base extra (slabBytes gfporder) (slabBytes gfporder + 2) 0
  obtain ⟨hleft, hi⟩ := Prod.mk.inj h
  rw [hi] at hleft
  have hfits : EstimateFits size base extra (slabBytes gfporder) num := by
    split_ifs at hi with h₁ h₂ h₂ <;> first | omega | skip
    · exact (hloop.resolve_left (by omega)).of_le (by omega)
    · exact hi ▸ hloop.resolve_left (by omega)
  have hmgmt : l1CacheAlign (base + num * extra) = if offSlab flags then 0 else slabSize num := by
    unfold slabSize
    split_ifs at hbase hextra ⊢
    · rw [← hbase, ← hextra, Nat.mul_zero]
      rfl
    · rw [← hbase, ← hextra, Nat.add_comm]
  unfold EstimateFits at hfits
  omega

/-! ## The sizing loop -/

lemma slabBytes_eq (h : gfporder ≤ maxGfpOrder) :
    slabBytes gfporder = pageSize * 1 <<< gfporder := by
  have h' : gfporder ≤ 5 := h
  interval_cases gfporder <;> rfl

/-- The loop ends with the estimate for an order in range, or for one that wrapped around and has
no room at all. -/
lemma sizingLoop_spec (globals : Globals) (size : ℕ) (flags : UInt32) (left gfporder : ℕ)
    (hleft : gfporder + left = maxGfpOrder) :
    ∃ order, sizingLoop globals size flags left gfporder = Sizing.at order size flags ∧
      (order ≤ maxGfpOrder ∨ slabBytes order = 0) := by
  induction left generalizing gfporder with
  | zero => exact ⟨gfporder, rfl, .inl (by omega)⟩
  | succ left ih =>
    simp only [sizingLoop]
    split_ifs
    · exact ih _ (by omega)
    · refine ⟨_, rfl, ?_⟩
      rcases Nat.eq_zero_or_pos gfporder with rfl | hpos
      · exact .inr rfl
      · exact .inl (by omega)
    iterate 2 exact ⟨_, rfl, .inl (by omega)⟩
    · exact ih _ (by omega)

/-- Where an object fits, the order is in range and the parts make up the slab. -/
lemma sizing_spec {globals : Globals} {s : Sizing}
    (hs : sizingLoop globals size flags maxGfpOrder 0 = s) (hsize : 0 < size) (hnum : s.num ≠ 0) :
    s.num * size + (if offSlab flags then 0 else slabSize s.num) + s.leftOver =
      pageSize * 1 <<< s.gfporder ∧ s.gfporder ≤ maxGfpOrder := by
  obtain ⟨order, heq, horder⟩ := sizingLoop_spec globals size flags maxGfpOrder 0 rfl
  obtain rfl := hs.symm.trans heq
  have hspec : (Sizing.at order size flags).num * size + _ +
    (Sizing.at order size flags).leftOver = slabBytes order := kmemCacheEstimate_spec rfl hnum
  have hpos := Nat.mul_pos (Nat.pos_of_ne_zero hnum) hsize
  have horder' : order ≤ maxGfpOrder := horder.resolve_right (by omega)
  rw [slabBytes_eq horder'] at hspec
  exact ⟨hspec, horder'⟩

/-! ## Flags -/

lemma offSlab_clear (flags : UInt32) : offSlab (flags &&& ~~~cflgsOffSlab) = false := by
  have hclear : flags &&& ~~~cflgsOffSlab &&& cflgsOffSlab = 0 := by
    rw [UInt32.and_assoc, UInt32.and_comm (~~~cflgsOffSlab)]
    have : cflgsOffSlab &&& ~~~cflgsOffSlab = 0 := by decide
    rw [this, UInt32.and_zero]
  simp [offSlab, hclear]

lemma offSlab_optimize (flags : UInt32) : offSlab (flags ||| cflgsOptimize) = offSlab flags := by
  have hdistrib : (flags ||| cflgsOptimize) &&& cflgsOffSlab = flags &&& cflgsOffSlab := by
    rw [← UInt32.toBitVec_inj, UInt32.toBitVec_and, UInt32.toBitVec_or, UInt32.toBitVec_and,
      BitVec.and_or_distrib_right]
    have : cflgsOptimize.toBitVec &&& cflgsOffSlab.toBitVec = 0#32 := by decide
    rw [this, BitVec.or_zero]
  simp only [offSlab, hdistrib]

/-! ## The new cache -/

lemma le_alignUp {x align : ℕ} (h : 0 < align) : x ≤ alignUp x align := by
  unfold alignUp
  have := Nat.div_add_mod (x + (align - 1)) align
  have := Nat.mod_lt (x + (align - 1)) h
  rw [Nat.mul_comm]
  omega

lemma halveAlign_pos (size fuel : ℕ) {align : ℕ} (h : 0 < align) :
    0 < halveAlign size fuel align := by
  induction fuel generalizing align with
  | zero => exact h
  | succ fuel ih =>
    unfold halveAlign
    split_ifs with hlt
    · exact ih (by omega)
    · exact h

lemma Cache.Fits.of_parts {c : Cache} (hsize : 0 < c.objsize) (hnum : c.num ≠ 0)
    (hparts : c.num * c.objsize + c.mgmtSize + leftOver = pageSize * 1 <<< c.gfporder)
    (horder : c.gfporder ≤ maxGfpOrder) (hcolour : c.colour = leftOver / c.colourOff)
    (hnext : c.colourNext = 0) : c.Fits where
  objsize_pos := hsize
  num_pos := Nat.pos_of_ne_zero hnum
  num_lt := by
    have hle : c.num ≤ c.num * c.objsize := Nat.le_mul_of_pos_right _ hsize
    have hbytes : pageSize * 1 <<< c.gfporder ≤ pageSize * 1 <<< 5 := by
      rw [Nat.shiftLeft_eq]
      exact Nat.mul_le_mul_left _ (Nat.mul_le_mul_left _ (Nat.pow_le_pow_right (by omega) horder))
    have : pageSize * 1 <<< 5 < bufctlEnd := by decide
    omega
  room := by
    have := Nat.div_mul_le_self leftOver c.colourOff
    rw [hcolour]
    omega
  colourNext := .inr hnext

/-- **Sizing.** Whatever `kmem_cache_create` makes fits, and has no slabs yet. -/
theorem kmemCacheCreate_spec {globals : Globals} {a : CreateArgs} {c : Cache}
    (hgood : a.bad = false) (h : kmemCacheCreate globals a = some c) :
    c.Fits ∧ c.slabs = [] ∧ c.firstnotfull = none := by
  have hword : 0 < alignUp a.size bytesPerWord := by
    have hle : a.size ≤ alignUp a.size bytesPerWord := le_alignUp (by decide)
    have hge : bytesPerWord ≤ a.size := by
      simp only [CreateArgs.bad, Bool.or_eq_false_iff, decide_eq_false_iff_not] at hgood
      omega
    have : bytesPerWord = 4 := rfl
    omega
  simp only [kmemCacheCreate] at h
  generalize alignUp a.size bytesPerWord = word at h hword
  generalize (if word ≥ pageSize >>> 3 then a.flags ||| cflgsOffSlab else a.flags) = flags at h
  generalize hsize' : (if a.flags &&& slabHwcacheAlign != 0 then alignUp word _ else word) = size
    at h
  have hsize : 0 < size := by
    rw [← hsize']
    split_ifs
    · exact hword.trans_le (le_alignUp (halveAlign_pos _ _ (by decide)))
    · exact hword
  generalize hs : sizingLoop globals size flags maxGfpOrder 0 = s at h
  by_cases hnum : s.num = 0
  · simp [hnum] at h
  obtain ⟨hparts, horder⟩ := sizing_spec hs hsize hnum
  rw [if_neg hnum] at h
  cases h
  refine ⟨Cache.Fits.of_parts hsize hnum ?_ horder rfl rfl, rfl, rfl⟩
  -- the descriptor is off slab at the end if it was and did not move
  simp only [Cache.mgmtSize, apply_ite offSlab, offSlab_optimize, offSlab_clear]
  by_cases hoff : offSlab flags <;> by_cases hmove : s.leftOver ≥ slabSize s.num <;>
    simp [hoff, hmove] at hparts ⊢ <;> omega

end PsxLinux.Slab
