import PsxLinux.Bootmem.Bootmem
import Mathlib.Algebra.Order.Ring.Nat
import Mathlib.Algebra.Ring.Divisibility.Basic

/-!
# One call of the boot memory allocator

At any time certain bytes are available (`Avail`): those of the pages whose bit is clear, and the
rest of the page that the last allocation ended in. An allocation takes its bytes from them and
leaves none of these available; a reservation takes its pages. This is all that later results
need.
-/

namespace PsxLinux.Bootmem

variable {b b' : Bdata} {start stop : ℕ}

/-! ## Words and rounding -/

lemma word_of_lt {x : ℕ} (h : x < 2 ^ 32) : word x = x := Nat.mod_eq_of_lt h

lemma wordSub_of_le {x y : ℕ} (hx : x < 2 ^ 32) (h : y ≤ x) : wordSub x y = x - y := by
  unfold wordSub word
  omega

lemma dvd_alignUp (x align : ℕ) : align ∣ alignUp x align := Dvd.intro_left _ rfl

variable {align : ℕ}

lemma alignUp_bounds {x : ℕ} (hpos : 0 < align) (hdvd : align ∣ pageSize)
    (hx : x < pageSize) : x ≤ alignUp x align ∧ alignUp x align ≤ pageSize := by
  have hle : align ≤ pageSize := Nat.le_of_dvd (by decide) hdvd
  have hpage : pageSize = 4096 := rfl
  obtain ⟨c, hc⟩ := hdvd
  unfold alignUp
  rw [word_of_lt (by omega)]
  have hdiv := Nat.div_add_mod (x + align - 1) align
  have hmod := Nat.mod_lt (x + align - 1) hpos
  have hlt : (x + align - 1) / align < c + 1 := by
    rw [Nat.div_lt_iff_lt_mul hpos, Nat.add_mul, Nat.mul_comm c]
    omega
  have hmul : (x + align - 1) / align * align ≤ c * align :=
    Nat.mul_le_mul_right _ (by omega)
  rw [Nat.mul_comm c] at hmul
  rw [Nat.mul_comm] at hdiv
  omega

/-- The step of the scan, in pages, makes up the alignment. -/
lemma align_dvd (hpow : ∃ k, align = 2 ^ k) :
    align ∣ pageSize ∨ align = pageSize * (align / pageSize) := by
  obtain ⟨k, rfl⟩ := hpow
  rcases Nat.le_total k 12 with hk | hk
  · left
    exact Nat.pow_dvd_pow 2 hk
  · right
    exact (Nat.mul_div_cancel' (Nat.pow_dvd_pow 2 hk)).symm

/-! ## The node -/

/-- The pages of the node and what is known of its last allocation. -/
structure Node (start stop : ℕ) (b : Bdata) : Prop where
  bootStart : b.nodeBootStart = 4096 * start
  lowPfn : b.nodeLowPfn = stop
  lt : start < stop
  le : stop ≤ 2 ^ 20
  lastOffset_lt : b.lastOffset < 4096
  lastPos_lt : b.lastOffset ≠ 0 → start + b.lastPos < stop
  lastPos_set : b.lastOffset ≠ 0 → b.nodeBootmemMap b.lastPos

lemma Node.eidx_eq (h : Node start stop b) :
    wordSub b.nodeLowPfn (b.nodeBootStart / pageSize) = stop - start := by
  have hlt := h.lt
  have hle := h.le
  rw [h.bootStart, h.lowPfn, pageSize, Nat.mul_div_cancel_left _ (by decide),
    wordSub_of_le (by omega) hlt.le]

/-- The byte can still be handed out. -/
def Avail (start stop : ℕ) (b : Bdata) (x : ℕ) : Prop :=
  4096 * start ≤ x ∧ x < 4096 * stop ∧
    (b.nodeBootmemMap (x / 4096 - start) = false ∨
      (b.lastOffset ≠ 0 ∧ x / 4096 = start + b.lastPos ∧ b.lastOffset ≤ x % 4096))

/-! ## The scan -/

variable {map : ℕ → Bool} {eidx areasize incr : ℕ}

variable {i : ℕ}

lemma blockFree_iff (hi : i < eidx) (hsize : 0 < areasize) :
    blockFree map eidx areasize i ↔
      ∀ j, i ≤ j → j < i + areasize → j < eidx ∧ map j = false := by
  simp only [blockFree, Bool.and_eq_true, Bool.not_eq_true', List.all_eq_true, List.mem_range'_1,
    decide_eq_true_eq]
  constructor
  · rintro ⟨hfirst, hrest⟩ j hij hj
    rcases Nat.eq_or_lt_of_le hij with rfl | hlt
    · exact ⟨hi, hfirst⟩
    · exact hrest j ⟨hlt, by omega⟩
  · intro h
    exact ⟨(h i le_rfl (by omega)).2, fun j hj => h j (by omega) (by omega)⟩

variable {st : ℕ}

/-- What the scan finds is free, and a number of steps away. -/
lemma scan_spec {fuel : ℕ} (h : scan map eidx areasize incr fuel i = some st)
    (hincr : incr ∣ i) : st < eidx ∧ blockFree map eidx areasize st ∧ incr ∣ st := by
  induction fuel generalizing i with
  | zero => simp [scan] at h
  | succ fuel ih =>
    unfold scan at h
    split_ifs at h with hi hfree
    · cases h
      exact ⟨hi, hfree, hincr⟩
    · exact ih h (dvd_add hincr (dvd_refl incr))

/-- A scan from page 0 that finds nothing has looked at page 0. -/
lemma scan_none (h : scan map eidx areasize incr eidx 0 = none) (hpos : 0 < eidx) :
    blockFree map eidx areasize 0 = false := by
  obtain ⟨n, rfl⟩ : ∃ n, eidx = n + 1 := ⟨eidx - 1, by omega⟩
  unfold scan at h
  split_ifs at h with hfree
  exact Bool.eq_false_iff.2 hfree

/-- `start` is the first page of a free block, or 0 where there is none. -/
lemma scanStart_spec {preferred : ℕ} (hincr : incr ∣ preferred) (hpos : 0 < eidx) :
    (scanStart map eidx areasize incr preferred < eidx ∧
      blockFree map eidx areasize (scanStart map eidx areasize incr preferred) ∧
      incr ∣ scanStart map eidx areasize incr preferred) ∨
    (scanStart map eidx areasize incr preferred = 0 ∧ blockFree map eidx areasize 0 = false) := by
  unfold scanStart
  cases hfirst : scan map eidx areasize incr eidx preferred with
  | some st => exact .inl (scan_spec hfirst hincr)
  | none =>
    split_ifs with hpref
    · cases hsecond : scan map eidx areasize incr eidx 0 with
      | some st => exact .inl (scan_spec hsecond (Dvd.intro 0 rfl))
      | none => exact .inr ⟨rfl, scan_none hsecond hpos⟩
    · rw [not_not.1 hpref] at hfirst
      exact .inr ⟨rfl, scan_none hfirst hpos⟩

/-! ## Taking bytes -/

/-- The bytes from `ret` on were available and are so no longer; their pages are marked. -/
structure Took (start stop : ℕ) (b b' : Bdata) (ret size : ℕ) : Prop where
  avail : ∀ x, ret ≤ x → x < ret + size → Avail start stop b x
  gone : ∀ x, Avail start stop b' x → Avail start stop b x ∧ ¬ (ret ≤ x ∧ x < ret + size)
  marked : ∀ x, ret ≤ x → x < ret + size → b'.nodeBootmemMap (x / 4096 - start)
  mono : ∀ i < stop - start, b.nodeBootmemMap i → b'.nodeBootmemMap i

lemma setBits_true_mono (sidx eidx i : ℕ) (h : map i) :
    setBits map sidx eidx true i := by
  unfold setBits
  split_ifs
  · rfl
  · exact h

variable {sidx : ℕ}

lemma setBits_eq_false (h : setBits map sidx eidx true i = false) :
    ¬ (sidx ≤ i ∧ i < eidx) ∧ map i = false := by
  unfold setBits at h
  split_ifs at h with hin
  exact ⟨hin, h⟩

lemma setBits_inside (h₁ : sidx ≤ i) (h₂ : i < eidx) (value : Bool) :
    setBits map sidx eidx value i = value := if_pos ⟨h₁, h₂⟩

variable {size : ℕ}

section
variable (h : Node start stop b)
include h

/-- The pages from `st` on are taken, the last one perhaps in part. The bytes begin at an `offset`
into the page before, which the last allocation ended in, or at its end. -/
lemma Node.took {offset ret k : ℕ} (hsize : 0 < size) (hk : k = (offset + size - 1) / 4096)
    (hle : offset ≤ 4096) (hret : ret + 4096 = 4096 * (start + st) + offset)
    (hpart : offset < 4096 → b.lastOffset ≠ 0 ∧ st = b.lastPos + 1 ∧ b.lastOffset ≤ offset)
    (hclear : ∀ i, st ≤ i → i < st + k → start + i < stop ∧ b.nodeBootmemMap i = false) :
    let b' := { b with
      nodeBootmemMap := setBits b.nodeBootmemMap st (st + k) true
      lastPos := st + k - 1
      lastOffset := (offset + size) % 4096 }
    Took start stop b b' ret size ∧ Node start stop b' := by
  have hlt := h.lastPos_lt
  have hset := h.lastPos_set
  refine ⟨⟨?_, ?_, ?_, fun i _ => setBits_true_mono _ _ i⟩, { h with
    lastOffset_lt := Nat.mod_lt _ (by decide), lastPos_lt := ?_, lastPos_set := ?_ }⟩
  · intro x hx₁ hx₂
    by_cases hin : x / 4096 < start + st
    · obtain ⟨hlast, rfl, hge⟩ := hpart (by omega)
      have := hlt hlast
      exact ⟨by omega, by omega, .inr ⟨hlast, by omega, by omega⟩⟩
    · obtain ⟨hlt', hfalse⟩ := hclear (x / 4096 - start) (by omega) (by omega)
      exact ⟨by omega, by omega, .inl hfalse⟩
  · rintro x ⟨hge', hlt', hbit | ⟨hrest, hpage, hin⟩⟩
    · obtain ⟨hout, hfalse⟩ := setBits_eq_false hbit
      refine ⟨⟨hge', hlt', .inl hfalse⟩, fun hin => ?_⟩
      obtain ⟨hlast, rfl, hge⟩ := hpart (by omega)
      -- the page that the last allocation ended in is marked
      have heq : x / 4096 - start = b.lastPos := by omega
      rw [heq, hset hlast] at hfalse
      exact Bool.noConfusion hfalse
    · simp only at hrest hpage hin
      by_cases hzero : k = 0
      · obtain ⟨hlast, rfl, hge⟩ := hpart (by omega)
        exact ⟨⟨hge', hlt', .inr ⟨hlast, by omega, by omega⟩⟩, by omega⟩
      · obtain ⟨-, hfalse⟩ := hclear (x / 4096 - start) (by omega) (by omega)
        exact ⟨⟨hge', hlt', .inl hfalse⟩, by omega⟩
  · intro x hx₁ hx₂
    by_cases hin : x / 4096 < start + st
    · obtain ⟨hlast, rfl, hge⟩ := hpart (by omega)
      rw [show x / 4096 - start = b.lastPos by omega]
      exact setBits_true_mono _ _ _ (hset hlast)
    · exact setBits_inside (by omega) (by omega) true
  all_goals
    intro hrest
    simp only at hrest ⊢
    by_cases hzero : k = 0
    · obtain ⟨hlast, rfl, -⟩ := hpart (by omega)
      simp [hzero, setBits_true_mono, hlt hlast, hset hlast]
  · exact (hclear _ (by omega) (by omega)).1
  · exact setBits_inside (by omega) (by omega) true

/-! ## Allocation -/

/-- Where an allocation goes on in the page that the last one ended in. -/
lemma Node.merge_offset (hpow : ∃ k, align = 2 ^ k)
    (hmerge : align ≤ pageSize ∧ b.lastOffset ≠ 0 ∧ word (b.lastPos + 1) = st) :
    b.lastOffset ≠ 0 ∧ st = b.lastPos + 1 ∧ align ∣ 4096 ∧
      b.lastOffset ≤ alignUp b.lastOffset align ∧ alignUp b.lastOffset align ≤ 4096 := by
  obtain ⟨halign, hlast, hnext⟩ := hmerge
  have hpos := h.lastPos_lt hlast
  have hle := h.le
  rw [word_of_lt (by omega)] at hnext
  have hdvd : align ∣ pageSize := by
    obtain ⟨k, rfl⟩ := hpow
    exact Nat.pow_dvd_pow 2 ((Nat.pow_le_pow_iff_right (by decide)).1 (show 2 ^ k ≤ 2 ^ 12 from halign))
  obtain ⟨hge, hle'⟩ :=
    alignUp_bounds (Nat.pos_of_dvd_of_pos hdvd (by decide)) hdvd h.lastOffset_lt
  exact ⟨hlast, hnext.symm, hdvd, hge, hle'⟩

/-- An allocation is placed at a page, or goes on in the page that the last one ended in. -/
lemma Node.place_cases {p : Placement} (hsize : 0 < size)
    (hsize' : size + 4095 < 2 ^ 32) (hpow : ∃ k, align = 2 ^ k) (hst : start + st < stop)
    (hplace : place b size align ((size + 4095) / 4096) st = some p) :
    ∃ offset k ret, p = ⟨k, st + k - 1, (offset + size) % 4096, ret⟩ ∧
      k = (offset + size - 1) / 4096 ∧ offset ≤ 4096 ∧ ret + 4096 = 4096 * (start + st) + offset ∧
      (offset < 4096 → (b.lastOffset ≠ 0 ∧ st = b.lastPos + 1 ∧ b.lastOffset ≤ offset) ∧
        align ∣ 4096 ∧ align ∣ offset) := by
  have hboot := h.bootStart
  have hle := h.le
  simp only [place] at hplace
  split_ifs at hplace with hmerge hbig hfit
  all_goals
    cases hplace
    simp only [pageSize] at *
  · -- the page that the last allocation ended in is used, and has room enough
    obtain ⟨hlast, rfl, hdvd, hge, hle'⟩ := h.merge_offset hpow hmerge
    rw [word_of_lt (by omega), word_of_lt (by omega)]
    exact ⟨alignUp b.lastOffset align, 0, _, rfl, by omega, hle', by omega,
      fun _ => ⟨⟨hlast, rfl, hge⟩, hdvd, dvd_alignUp _ _⟩⟩
  · -- it is filled up, and new pages are begun
    obtain ⟨hlast, rfl, hdvd, hge, hle'⟩ := h.merge_offset hpow hmerge
    rw [word_of_lt (by omega), word_of_lt (by omega), wordSub_of_le (by omega) (by omega),
      show (size - (4096 - alignUp b.lastOffset align)) % 4096 =
        (alignUp b.lastOffset align + size) % 4096 by omega]
    exact ⟨alignUp b.lastOffset align, _, _, rfl, by omega, hle', by omega,
      fun _ => ⟨⟨hlast, rfl, hge⟩, hdvd, dvd_alignUp _ _⟩⟩
  · rw [hboot, word_of_lt (by omega), wordSub_of_le (by omega) (by omega),
      ← Nat.add_mod_left 4096 size]
    exact ⟨4096, _, _, rfl, by omega, le_rfl, by omega, fun hlt => absurd hlt (lt_irrefl _)⟩

end

lemma allBits_iff {map : ℕ → Bool} {eidx : ℕ} {value : Bool} :
    allBits map sidx eidx value ↔ ∀ i, sidx ≤ i → i < eidx → map i = value := by
  simp only [allBits, List.all_eq_true, List.mem_range'_1, beq_iff_eq, and_imp]
  exact ⟨fun h i h₁ h₂ => h i h₁ (by omega), fun h i h₁ h₂ => h i h₁ (by omega)⟩

/-- The scan starts at a multiple of its step. -/
lemma incr_dvd_preferred (hpow : ∃ k, align = 2 ^ k) (x : ℕ) :
    (if align / pageSize = 0 then 1 else align / pageSize) ∣ alignUp x align / pageSize := by
  split_ifs with hzero
  · exact one_dvd _
  · rcases align_dvd hpow with hdvd | heq
    · have hle : align / pageSize ≤ 1 := by
        rw [Nat.div_le_iff_le_mul_add_pred (by decide)]
        have := Nat.le_of_dvd (by decide) hdvd
        omega
      rw [show align / pageSize = 1 from Nat.le_antisymm hle (Nat.pos_of_ne_zero hzero)]
      exact one_dvd _
    · obtain ⟨m, hm⟩ := dvd_alignUp x align
      rw [hm]
      nth_rewrite 2 [heq]
      rw [Nat.mul_assoc, Nat.mul_div_cancel_left _ (by decide)]
      exact Dvd.intro m rfl

/-- The pages between two steps of the scan. -/
def scanIncr (align : ℕ) : ℕ := if align / pageSize = 0 then 1 else align / pageSize

/-- What a call that reserves its pages has done. -/
lemma allocPages_cases {goal ret : ℕ} (hcall : allocPages b size align goal = some (b', ret)) :
    size ≠ 0 ∧ ∃ preferred st p,
      st = scanStart b.nodeBootmemMap (wordSub b.nodeLowPfn (b.nodeBootStart / pageSize))
        (word (size + (pageSize - 1)) / pageSize) (scanIncr align)
        (alignUp preferred align / pageSize) ∧
      st < wordSub b.nodeLowPfn (b.nodeBootStart / pageSize) ∧
      place b size align (word (size + (pageSize - 1)) / pageSize) st = some p ∧
      allBits b.nodeBootmemMap st (st + p.areasize) false ∧
      b' = { b with
        nodeBootmemMap := setBits b.nodeBootmemMap st (st + p.areasize) true
        lastPos := p.lastPos
        lastOffset := p.lastOffset } ∧ ret = p.ret := by
  simp only [allocPages] at hcall
  by_cases hzero : size = 0
  · simp [hzero] at hcall
  generalize (if goal ≠ 0 ∧ goal ≥ b.nodeBootStart ∧ goal / pageSize < b.nodeLowPfn then
    wordSub goal b.nodeBootStart else 0) = preferred at hcall
  refine ⟨hzero, preferred, ?_⟩
  generalize hst : scanStart b.nodeBootmemMap
    (wordSub b.nodeLowPfn (b.nodeBootStart / pageSize)) (word (size + (pageSize - 1)) / pageSize)
    (if align / pageSize = 0 then 1 else align / pageSize) (alignUp preferred align / pageSize) = st
    at hcall
  by_cases hstart : st ≥ wordSub b.nodeLowPfn (b.nodeBootStart / pageSize)
  · simp [hstart] at hcall
  cases hplace : place b size align (word (size + (pageSize - 1)) / pageSize) st with
  | none => simp [hplace] at hcall
  | some p =>
    simp only [hplace] at hcall
    split_ifs at hcall with hbits
    cases hcall
    exact ⟨st, p, hst.symm, by omega, hplace, by simpa using hbits, rfl, rfl⟩

lemma align_dvd_pages (hpow : ∃ k, align = 2 ^ k) (h : scanIncr align ∣ st) :
    align ∣ 4096 * st := by
  rcases align_dvd hpow with hdvd | heq
  · exact Dvd.dvd.mul_right hdvd st
  · have hne : align / pageSize ≠ 0 := by
      intro hzero
      obtain ⟨k, rfl⟩ := hpow
      rw [hzero] at heq
      exact absurd heq (Nat.two_pow_pos k).ne'
    rw [scanIncr, if_neg hne] at h
    rw [heq]
    exact mul_dvd_mul_left pageSize h

/-- A call that does not wrap around, for no more pages than the node has, takes available bytes at
an aligned address. -/
lemma Node.allocPages_spec (h : Node start stop b) {goal ret : ℕ} (hsize' : size + 4095 < 2 ^ 32)
    (hfit : (size + 4095) / 4096 ≤ stop - start) (hpow : ∃ k, align = 2 ^ k)
    (hboot : align ∣ 4096 * start) (hcall : allocPages b size align goal = some (b', ret)) :
    Took start stop b b' ret size ∧ Node start stop b' ∧ align ∣ ret := by
  obtain ⟨hzero, preferred, st, p, hst, hlt, hplace, hbits, rfl, rfl⟩ := allocPages_cases hcall
  have harea : word (size + (pageSize - 1)) / pageSize = (size + 4095) / 4096 := by
    simp only [pageSize]
    rw [word_of_lt hsize']
  have hpos : 0 < (size + 4095) / 4096 := by omega
  rw [h.eidx_eq] at hst hlt
  rw [harea] at hst hplace
  rw [allBits_iff] at hbits
  obtain ⟨offset, k, ret, rfl, hk, hle, hret, hpart⟩ :=
    h.place_cases (Nat.pos_of_ne_zero hzero) hsize' hpow (by omega) hplace
  simp only at hbits
  -- the scan has found a block: with none, the pages from 0 on are not all free
  have hfound : (∀ i, st ≤ i → i < st + (size + 4095) / 4096 →
      i < stop - start ∧ b.nodeBootmemMap i = false) ∧ scanIncr align ∣ st := by
    rcases scanStart_spec (incr_dvd_preferred hpow preferred)
        (show 0 < stop - start by omega) with ⟨-, hfree, hdvd⟩ | ⟨heq, hnot⟩
    · rw [← scanIncr, ← hst] at hfree hdvd
      exact ⟨(blockFree_iff hlt hpos).1 hfree, hdvd⟩
    · rw [← scanIncr] at heq
      have hoff : ¬ offset < 4096 := fun hoff => by
        have := (hpart hoff).1.2.1
        omega
      refine absurd ((blockFree_iff (by omega) hpos).2 fun j _ hj => ?_)
        (Bool.eq_false_iff.1 hnot)
      exact ⟨by omega, hbits j (by omega) (by omega)⟩
  obtain ⟨hclear, hincr⟩ := hfound
  obtain ⟨htook, hnode⟩ := h.took (Nat.pos_of_ne_zero hzero) hk hle hret
    (fun hoff => (hpart hoff).1) fun i h₁ h₂ => by
      obtain ⟨hi, hfalse⟩ := hclear i h₁ (by omega)
      exact ⟨by omega, hfalse⟩
  refine ⟨htook, hnode, ?_⟩
  by_cases hoff : offset < 4096
  · obtain ⟨⟨-, rfl, -⟩, hdvd, halign⟩ := hpart hoff
    rw [show ret = 4096 * b.lastPos + offset + 4096 * start by omega]
    exact dvd_add (dvd_add (Dvd.dvd.mul_right hdvd _) halign) hboot
  · rw [show ret = 4096 * st + 4096 * start by omega]
    exact dvd_add (align_dvd_pages hpow hincr) hboot

/-- The map with bits behind the node's changed is as good. -/
lemma Took.congr {ret : ℕ} (htook : Took start stop b b' ret size) (hnode : Node start stop b')
    (hmap : ∀ i < stop - start, map i = b'.nodeBootmemMap i) :
    Took start stop b { b' with nodeBootmemMap := map } ret size ∧
      Node start stop { b' with nodeBootmemMap := map } := by
  refine ⟨⟨htook.avail, ?_, ?_, ?_⟩, { hnode with lastPos_set := ?_ }⟩
  · rintro x ⟨hge, hlt, hbit⟩
    exact htook.gone x ⟨hge, hlt, hbit.imp_left fun hfalse => (hmap _ (by omega)).symm.trans hfalse⟩
  · intro x h₁ h₂
    obtain ⟨hge, hlt, -⟩ := htook.avail x h₁ h₂
    exact (hmap _ (by omega)).trans (htook.marked x h₁ h₂)
  · intro i hi hbit
    exact (hmap i hi).trans (htook.mono i hi hbit)
  · intro hpart
    have hlt := hnode.lastPos_lt hpart
    exact (hmap b'.lastPos (by omega)).trans (hnode.lastPos_set hpart)

/-- **Allocation.** The `memset` of such a call does not reach the map if no byte of the map is
available. -/
theorem Node.alloc_spec (h : Node start stop b) {goal ret : ℕ} (hsize' : size + 4095 < 2 ^ 32)
    (hfit : (size + 4095) / 4096 ≤ stop - start) (hpow : ∃ k, align = 2 ^ k)
    (hboot : align ∣ 4096 * start) (hkept : ∀ i < stop - start, ¬ Avail start stop b (b.mapByte i))
    (hcall : allocBootmemCore b size align goal = some (b', ret)) :
    size ≠ 0 ∧ Took start stop b b' ret size ∧ Node start stop b' ∧ align ∣ ret := by
  obtain ⟨⟨b₁, ret⟩, hpages, heq⟩ := Option.map_eq_some_iff.1 hcall
  cases heq
  obtain ⟨htook, hnode, hret⟩ := h.allocPages_spec hsize' hfit hpow hboot hpages
  have hbyte (i : ℕ) : b₁.mapByte i = b.mapByte i := by
    obtain ⟨-, -, -, -, -, -, -, -, rfl, -⟩ := allocPages_cases hpages
    rfl
  have hmap (i : ℕ) (hi : i < stop - start) :
      (b₁.memset ret size).nodeBootmemMap i = b₁.nodeBootmemMap i := by
    refine if_neg fun hin => hkept i hi ?_
    rw [hbyte] at hin
    exact htook.avail _ hin.1 hin.2
  obtain ⟨htook', hnode'⟩ := htook.congr hnode hmap
  exact ⟨(allocPages_cases hpages).1, htook', hnode', hret⟩

/-- **Reservation.** Of a range inside the node that leaves out the page where the last allocation
ended, no byte of a page it touches stays available. -/
theorem Node.reserve_spec (h : Node start stop b) {addr : ℕ} (haddr : addr < 2 ^ 32)
    (hsize : size < 2 ^ 32) (hlow : 4096 * start ≤ addr) (hwrap : addr + size + 4095 < 2 ^ 32)
    (hlast : b.lastOffset ≠ 0 →
      ¬ (addr / 4096 ≤ start + b.lastPos ∧ 4096 * (start + b.lastPos) < addr + size))
    (hcall : reserveBootmemCore b addr size = some b') :
    Node start stop b' ∧ (∀ i, b.nodeBootmemMap i → b'.nodeBootmemMap i) ∧
      ∀ x, Avail start stop b' x → Avail start stop b x ∧
        ¬ (addr / 4096 ≤ x / 4096 ∧ 4096 * (x / 4096) < addr + size) := by
  simp only [reserveBootmemCore] at hcall
  split_ifs at hcall with hzero hstop
  cases hcall
  have hboot := h.bootStart
  simp only [pageSize] at hstop ⊢
  rw [hboot, word_of_lt (show addr + size < 2 ^ 32 by omega), wordSub_of_le (by omega) (by omega),
    wordSub_of_le (by omega) (by omega), word_of_lt (by omega)]
  refine ⟨⟨rfl, h.lowPfn, h.lt, h.le, h.lastOffset_lt, h.lastPos_lt, fun hpart => ?_⟩,
    (setBits_true_mono _ _), ?_⟩
  · exact setBits_true_mono _ _ _ (h.lastPos_set hpart)
  · rintro x ⟨hge, hlt, hbit | ⟨hpart, hpage, hin⟩⟩
    · obtain ⟨hout, hfalse⟩ := setBits_eq_false hbit
      refine ⟨⟨hge, hlt, .inl hfalse⟩, ?_⟩
      omega
    · refine ⟨⟨hge, hlt, .inr ⟨hpart, hpage, hin⟩⟩, ?_⟩
      rw [hpage]
      exact hlast hpart

end PsxLinux.Bootmem
