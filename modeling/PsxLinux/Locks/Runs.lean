import PsxLinux.Locks.PosixLock

/-!
# One owner's locks

The locks of one owner are a *run*: sorted, apart from each other, and locks of one type not
even next to each other (`RunOk`). A run stands for the map that gives each offset the type it
is locked with (`Holds`).

The invariant of the pass is `WalkInv`. Behind `*before` are the locks not yet looked at; in
front of it are locks that stay (`kept`), then at most one that the request cuts (`cut`), then
the request itself once it has a place in the list (`placed`). There is one lemma for each
thing that the pass can do with a lock and go on.
-/

namespace PsxLinux.Locks

open List

/-! ## Runs -/

/-- The first lock lies before the second, and not next to it if the types agree. -/
def Sep (a b : FileLock) : Prop :=
  a.flEnd < b.flStart ∧ (a.flType = b.flType → a.flEnd + 1 < b.flStart)

/-- A lock of this owner on a range of offsets. -/
structure Own (owner pid : ℕ) (fl : FileLock) : Prop where
  flOwner : fl.flOwner = owner
  flPid : fl.flPid = pid
  posix : fl.flFlags = .posix
  locked : fl.flType ≠ .unlck
  nonneg : 0 ≤ fl.flStart
  ordered : fl.flStart ≤ fl.flEnd
  bounded : fl.flEnd ≤ offsetMax

structure RunOk (owner pid : ℕ) (run : List FileLock) : Prop where
  own : ∀ fl ∈ run, Own owner pid fl
  sep : run.Pairwise Sep

def FileLock.Has (fl : FileLock) (x : ℤ) : Prop := fl.flStart ≤ x ∧ x ≤ fl.flEnd

/-- The offset is locked with this type. -/
def Holds (run : List FileLock) (x : ℤ) (t : LockType) : Prop :=
  ∃ fl ∈ run, fl.Has x ∧ fl.flType = t

/-- The map of `run'` is the one of `run` with the range of the request overwritten. -/
def Overwritten (req : FileLock) (run run' : List FileLock) : Prop :=
  ∀ x t, Holds run' x t ↔ (req.Has x ∧ t = req.flType ∧ t ≠ .unlck) ∨ (¬ req.Has x ∧ Holds run x t)

@[simp]
lemma holds_nil (x : ℤ) (t : LockType) : Holds [] x t ↔ False := by simp [Holds]

@[simp]
lemma holds_cons (fl : FileLock) (run : List FileLock) (x : ℤ) (t : LockType) :
    Holds (fl :: run) x t ↔ (fl.Has x ∧ fl.flType = t) ∨ Holds run x t := by simp [Holds]

@[simp]
lemma holds_append (run run' : List FileLock) (x : ℤ) (t : LockType) :
    Holds (run ++ run') x t ↔ Holds run x t ∨ Holds run' x t := by
  simp only [Holds, mem_append]
  constructor
  · rintro ⟨fl, h | h, hx⟩
    · exact .inl ⟨fl, h, hx⟩
    · exact .inr ⟨fl, h, hx⟩
  · rintro (⟨fl, h, hx⟩ | ⟨fl, h, hx⟩)
    · exact ⟨fl, .inl h, hx⟩
    · exact ⟨fl, .inr h, hx⟩

variable {owner pid : ℕ}

lemma RunOk.append {run run' : List FileLock} (h : RunOk owner pid run)
    (h' : RunOk owner pid run') (hsep : ∀ a ∈ run, ∀ b ∈ run', Sep a b) :
    RunOk owner pid (run ++ run') where
  own := fun fl hfl => (mem_append.mp hfl).elim (h.own fl) (h'.own fl)
  sep := pairwise_append.mpr ⟨h.sep, h'.sep, hsep⟩

lemma RunOk.singleton {fl : FileLock} (h : Own owner pid fl) : RunOk owner pid [fl] where
  own := fun _ ha => (mem_singleton.mp ha) ▸ h
  sep := pairwise_singleton _ _

/-- A sum of offsets that does not overflow. -/
lemma offAdd_eq {x y : ℤ} (hlo : -2 ^ 63 ≤ x + y) (hhi : x + y ≤ offsetMax) :
    offAdd x y = x + y := by
  unfold offsetMax at hhi
  exact Int.bmod_eq_of_le (by omega) (by omega)

def trim (s : ℤ) (fl : FileLock) : FileLock := { fl with flEnd := s - 1 }

/-- The request in the list: nothing if it unlocks. -/
def placed (c : FileLock) : List FileLock := if c.flType = .unlck then [] else [c]

lemma holds_placed (c : FileLock) (x : ℤ) (t : LockType) :
    Holds (placed c) x t ↔ c.Has x ∧ t = c.flType ∧ t ≠ .unlck := by
  unfold placed
  split_ifs with h
  · simp only [holds_nil, false_iff]
    rintro ⟨-, rfl, hne⟩
    exact hne h
  · simp only [holds_cons, holds_nil, or_false]
    constructor
    · rintro ⟨hx, rfl⟩
      exact ⟨hx, rfl, h⟩
    · rintro ⟨hx, rfl, -⟩
      exact ⟨hx, rfl⟩

variable {c : FileLock}

lemma mem_placed {a : FileLock} (h : a ∈ placed c) : a = c ∧ c.flType ≠ .unlck := by
  unfold placed at h
  split_ifs at h with hu
  · simp at h
  · exact ⟨mem_singleton.mp h, hu⟩

lemma runOk_placed (h : c.flType ≠ .unlck → Own owner pid c) : RunOk owner pid (placed c) := by
  unfold placed
  split_ifs with hu
  · exact ⟨by simp, Pairwise.nil⟩
  · exact RunOk.singleton (h hu)

/-! ## The invariant of the pass -/

/-- The state of the pass. `kept` stay as they are, `cut` will be trimmed to end before the
request, and `inList` says whether the request has its place in the list. -/
structure WalkInv (req : FileLock) (orig : List FileLock) (w : Walk) (rest kept : List FileLock)
    (cut : Option FileLock) (inList : Bool) : Prop where
  passed : w.passed = kept ++ cut.toList ++ if inList then [w.caller] else []
  left : w.left = cut.map fun _ => kept.length
  callerAt : w.callerAt = if inList then some (kept.length + cut.toList.length) else none
  added : req.flType ≠ .unlck → w.added = inList
  unlocks : req.flType = .unlck → inList = false ∧ (w.added = false → cut = none)
  like : w.caller = { req with flStart := w.caller.flStart, flEnd := w.caller.flEnd }
  fresh : inList = false → w.caller = req
  lower : 0 ≤ w.caller.flStart ∧ w.caller.flStart ≤ req.flStart
  upper : req.flEnd ≤ w.caller.flEnd ∧ w.caller.flEnd ≤ offsetMax
  ordered : req.flStart ≤ req.flEnd
  cuts : ∀ fl ∈ cut, w.caller.flStart = req.flStart ∧ fl.flStart < req.flStart ∧
    req.flStart ≤ fl.flEnd ∧ fl.flEnd ≤ req.flEnd ∧ fl.flType ≠ req.flType
  posix : req.flFlags = .posix
  own : ∀ fl ∈ kept ++ cut.toList ++ rest, Own req.flOwner req.flPid fl
  sep : (kept ++ cut.toList.map (trim req.flStart)).Pairwise Sep
  before : ∀ fl ∈ kept ++ cut.toList.map (trim req.flStart), Sep fl w.caller
  behind : ∀ fl ∈ kept ++ cut.toList, ∀ r ∈ rest, Sep fl r
  sorted : rest.Pairwise Sep
  near : inList → ∀ r ∈ rest, req.flStart ≤ r.flStart ∧
    (w.caller.flEnd = req.flEnd ∨ Sep w.caller r)
  noWrap : req.flEnd = offsetMax → ∀ r ∈ rest, r.flType = req.flType → r.flEnd < req.flStart - 1
  map : ∀ x t, (req.Has x ∧ t = req.flType ∧ t ≠ .unlck) ∨ (¬ req.Has x ∧ Holds orig x t) ↔
    Holds kept x t ∨ Holds (cut.toList.map (trim req.flStart)) x t ∨ Holds (placed w.caller) x t ∨
      (¬ req.Has x ∧ Holds rest x t)

section Walk

variable {req fl : FileLock} {orig rest kept : List FileLock} {w : Walk} {cut : Option FileLock}
  {inList : Bool}

section Head

variable (h : WalkInv req orig w (fl :: rest) kept cut inList)
include h

lemma WalkInv.head_own : Own req.flOwner req.flPid fl := h.own fl (by simp)

/-- Nothing is cut or placed in front of a lock that starts before the request. -/
lemma WalkInv.untouched (hstart : fl.flStart < req.flStart) : cut = none ∧ inList = false := by
  constructor
  · cases cut with
    | none => rfl
    | some l =>
      obtain ⟨-, -, hle, -⟩ := h.cuts l rfl
      obtain ⟨hlt, -⟩ := h.behind l (by simp) fl mem_cons_self
      omega
  · cases inList with
    | false => rfl
    | true =>
      obtain ⟨hle, -⟩ := h.near rfl fl mem_cons_self
      omega

lemma WalkInv.head_sep : ∀ r ∈ rest, Sep fl r := fun _ hr => rel_of_pairwise_cons h.sorted hr

lemma WalkInv.own_tail : ∀ a ∈ kept ++ cut.toList ++ rest, Own req.flOwner req.flPid a := by
  intro a ha
  apply h.own
  rcases mem_append.mp ha with ha | ha
  · exact mem_append_left _ ha
  · exact mem_append_right _ (mem_cons_of_mem _ ha)

lemma WalkInv.behind_tail : ∀ a ∈ kept ++ cut.toList, ∀ r ∈ rest, Sep a r :=
  fun a ha r hr => h.behind a ha r (mem_cons_of_mem _ hr)

lemma WalkInv.noWrap_tail :
    req.flEnd = offsetMax → ∀ r ∈ rest, r.flType = req.flType → r.flEnd < req.flStart - 1 :=
  fun he r hr => h.noWrap he r (mem_cons_of_mem _ hr)

end Head

/-- The lock lies before the request: it stays. -/
lemma WalkInv.pass (h : WalkInv req orig w (fl :: rest) kept none false)
    (hsep : Sep fl req) : WalkInv req orig (w.pass fl) rest (kept ++ [fl]) none false := by
  have hcaller := h.fresh rfl
  have hpassed : w.passed = kept := by simpa using h.passed
  have hbefore : ∀ a ∈ kept, Sep a w.caller := fun a ha => h.before a (by simpa using ha)
  refine { h with
    passed := ?_, left := h.left, own := ?_, sep := ?_, before := ?_, behind := ?_,
    sorted := h.sorted.tail, near := by simp, noWrap := h.noWrap_tail, map := ?_ }
  · show w.passed ++ [fl] = _
    rw [hpassed]
    simp
  · intro a ha
    exact h.own a (by simpa [or_left_comm] using ha)
  · have hkept : kept.Pairwise Sep := by simpa using h.sep
    have hlast : ∀ a ∈ kept, Sep a fl := fun a ha => h.behind a (by simpa using ha) fl mem_cons_self
    simpa [pairwise_append] using ⟨hkept, hlast⟩
  · intro a ha
    rcases (by simpa using ha) with ha | rfl
    · exact hbefore a ha
    · show Sep a w.caller
      rw [hcaller]
      exact hsep
  · intro a ha r hr
    rcases (by simpa using ha) with ha | rfl
    · exact h.behind_tail a (by simpa using ha) r hr
    · exact h.head_sep r hr
  · intro x t
    rw [h.map x t]
    have hout : fl.Has x → ¬ req.Has x := by
      rintro ⟨-, h₁⟩ ⟨h₂, -⟩
      have := hsep.1
      omega
    show _ ↔ Holds (kept ++ [fl]) x t ∨ _ ∨ Holds (placed w.caller) x t ∨ _
    simp only [holds_append, holds_cons]
    tauto

/-- The lock reaches into the request from the left: it will be trimmed. -/
lemma WalkInv.cutOff (h : WalkInv req orig w (fl :: rest) kept none false)
    (hstart : fl.flStart < req.flStart) (hlow : req.flStart ≤ fl.flEnd) (hend : fl.flEnd ≤ req.flEnd)
    (htype : fl.flType ≠ req.flType) (hadded : req.flType = .unlck → w.added) :
    WalkInv req orig ({ w with left := some w.passed.length }.pass fl) rest kept (some fl) false := by
  have hcaller := h.fresh rfl
  have hpassed : w.passed = kept := by simpa using h.passed
  have hkept : kept.Pairwise Sep := by simpa using h.sep
  have hlast : ∀ a ∈ kept, Sep a fl := fun a ha => h.behind a (by simpa using ha) fl mem_cons_self
  refine { h with
    passed := ?_, left := ?_, added := h.added, unlocks := ?_, cuts := ?_, own := ?_, sep := ?_,
    before := ?_, behind := ?_, sorted := h.sorted.tail, near := by simp,
    noWrap := h.noWrap_tail, map := ?_ }
  · show w.passed ++ [fl] = _
    rw [hpassed]
    simp
  · show some w.passed.length = _
    rw [hpassed]
    rfl
  · intro hu
    exact ⟨rfl, fun hadd => absurd ((hadded hu).symm.trans hadd) (by simp)⟩
  · rintro l ⟨⟩
    refine ⟨?_, hstart, hlow, hend, htype⟩
    show w.caller.flStart = _
    rw [hcaller]
  · intro a ha
    exact h.own a (by simpa [or_left_comm] using ha)
  · have hcut : ∀ a ∈ kept, Sep a (trim req.flStart fl) := fun a ha => hlast a ha
    simpa [pairwise_append] using ⟨hkept, hcut⟩
  · intro a ha
    show Sep a w.caller
    rcases (by simpa using ha) with ha | rfl
    · exact h.before a (by simpa using ha)
    · rw [hcaller]
      refine ⟨?_, fun he => absurd he htype⟩
      show req.flStart - 1 < req.flStart
      omega
  · intro a ha r hr
    rcases (by simpa using ha) with ha | rfl
    · exact h.behind_tail a (by simpa using ha) r hr
    · exact h.head_sep r hr
  · intro x t
    rw [h.map x t]
    -- of the lock remains what lies before the request
    have hcut : (trim req.flStart fl).Has x ↔ fl.Has x ∧ ¬ req.Has x := by
      simp only [FileLock.Has, trim]
      omega
    have htrim : (trim req.flStart fl).flType = fl.flType := rfl
    show _ ↔ Holds kept x t ∨ _ ∨ Holds (placed w.caller) x t ∨ _
    simp only [Option.toList_some, Option.toList_none, map_cons, map_nil, holds_cons,
      holds_nil, hcut, htrim]
    tauto

lemma WalkInv.front_behind (h : WalkInv req orig w rest kept cut inList) :
    ∀ a ∈ kept ++ cut.toList.map (trim req.flStart), ∀ r ∈ rest, Sep a r := by
  intro a ha r hr
  rcases mem_append.mp ha with ha | ha
  · exact h.behind a (mem_append_left _ ha) r hr
  · obtain ⟨l, hl, rfl⟩ := mem_map.mp ha
    obtain ⟨hlt, hadj⟩ := h.behind l (mem_append_right _ hl) r hr
    obtain ⟨-, -, hle, -⟩ := h.cuts l (by simpa using hl)
    refine ⟨?_, fun he => ?_⟩
    · show req.flStart - 1 < r.flStart
      omega
    · show req.flStart - 1 + 1 < r.flStart
      omega

lemma absorb {K C P X F R : Prop} (h : F → X → P) :
    (K ∨ C ∨ P ∨ (¬ X ∧ (F ∨ R))) ↔ (K ∨ C ∨ (P ∨ F) ∨ (¬ X ∧ R)) := by
  tauto

/-- The lock `c'` is `c` with the lower start and the higher end of `c` and `fl`. -/
structure Spans (c fl c' : FileLock) : Prop where
  like : c' = { c with flStart := c'.flStart, flEnd := c'.flEnd }
  low : c'.flStart ≤ c.flStart ∧ c'.flStart ≤ fl.flStart
  start : c'.flStart = c.flStart ∨ c'.flStart = fl.flStart
  high : c.flEnd ≤ c'.flEnd ∧ fl.flEnd ≤ c'.flEnd
  stop : c'.flEnd = c.flEnd ∨ c'.flEnd = fl.flEnd

lemma keep_tail {K C P X F T R : Prop} (h : R → ¬ X) :
    (K ∨ C ∨ P ∨ (¬ X ∧ (F ∧ T ∨ R))) ↔ (((K ∨ C) ∨ P) ∨ (F ∧ ¬ X) ∧ T ∨ R) := by
  tauto

lemma spans (c fl : FileLock) : Spans c fl { c with
    flStart := if c.flStart < fl.flStart then c.flStart else fl.flStart
    flEnd := if fl.flEnd < c.flEnd then c.flEnd else fl.flEnd } := by
  constructor <;> simp only <;> split_ifs <;> omega

variable {c' : FileLock}

lemma Spans.type_eq (h : Spans c fl c') : c'.flType = c.flType := by
  rw [h.like]

/-- Two ranges that meet: the span has their offsets and no others. -/
lemma Spans.has_iff (h : Spans c fl c') (hlo : c.flStart - 1 ≤ fl.flEnd)
    (hhi : fl.flStart ≤ c.flEnd + 1) (x : ℤ) : c'.Has x ↔ c.Has x ∨ fl.Has x := by
  obtain ⟨-, hlow, hstart, hhigh, hstop⟩ := h
  unfold FileLock.Has
  omega

/-- What lies before both ranges lies before their span. -/
lemma Spans.sep {a : FileLock} (h : Spans c fl c') (hc : Sep a c) (hfl : Sep a fl)
    (htype : fl.flType = c.flType) : Sep a c' := by
  have hstart := h.start
  refine ⟨?_, fun he => ?_⟩
  · have h₁ := hc.1
    have h₂ := hfl.1
    omega
  · have h₁ := hc.2 (he.trans h.type_eq)
    have h₂ := hfl.2 ((he.trans h.type_eq).trans htype.symm)
    omega

lemma holds_placed_spans (h : Spans c fl c') (hlo : c.flStart - 1 ≤ fl.flEnd)
    (hhi : fl.flStart ≤ c.flEnd + 1) (htype : fl.flType = c.flType) (hlock : c.flType ≠ .unlck)
    (x : ℤ) (t : LockType) :
    Holds (placed c') x t ↔ Holds (placed c) x t ∨ (fl.Has x ∧ fl.flType = t) := by
  rw [holds_placed, holds_placed, h.has_iff hlo hhi, h.type_eq, htype]
  constructor
  · rintro ⟨hx | hx, rfl, hne⟩
    · exact .inl ⟨hx, rfl, hne⟩
    · exact .inr ⟨hx, rfl⟩
  · rintro (⟨hx, rfl, hne⟩ | ⟨hx, rfl⟩)
    · exact ⟨.inl hx, rfl, hne⟩
    · exact ⟨.inr hx, rfl, hlock⟩

/-- The request has not grown over its end, or not up to the locks to come. -/
lemma WalkInv.ends (h : WalkInv req orig w rest kept cut inList) :
    ∀ r ∈ rest, w.caller.flEnd = req.flEnd ∨ Sep w.caller r := by
  intro r hr
  cases inList with
  | false => exact .inl (by rw [h.fresh rfl])
  | true => exact (h.near rfl r hr).2

/-- The request and a lock of its type that it touches become one, in the list. -/
lemma WalkInv.join (h : WalkInv req orig w (fl :: rest) kept cut inList)
    (htype : fl.flType = req.flType) (hreach : req.flStart - 1 ≤ fl.flEnd)
    (hhi : fl.flStart ≤ w.caller.flEnd + 1) (hspan : Spans w.caller fl c') :
    WalkInv req orig (if inList then w.setCaller c' else (w.setCaller c').become c')
      rest kept cut true := by
  have hown := h.head_own
  have hlower := h.lower
  have hupper := h.upper
  have hctype : w.caller.flType = req.flType := by rw [h.like]
  have htype' : fl.flType = w.caller.flType := htype.trans hctype.symm
  have hlock : w.caller.flType ≠ .unlck := htype' ▸ hown.locked
  have hlow := hspan.low
  have hstart := hspan.start
  have hjoined : (if inList then w.setCaller c' else (w.setCaller c').become c') = { w with
      caller := c', passed := kept ++ cut.toList ++ [c'], added := true,
      callerAt := some (kept.length + cut.toList.length) } := by
    unfold Walk.setCaller
    rw [h.callerAt, h.passed, h.added (hctype ▸ hlock)]
    cases inList <;> simp [Walk.become]
  rw [hjoined]
  refine { h with
    passed := rfl, callerAt := rfl, added := fun _ => rfl,
    unlocks := fun hu => absurd (hctype.trans hu) hlock, like := ?_, fresh := by simp, lower := ?_,
    upper := ?_, cuts := ?_, own := h.own_tail, before := ?_, behind := h.behind_tail,
    sorted := h.sorted.tail, near := ?_, noWrap := h.noWrap_tail, map := ?_ }
  · show c' = _
    rw [hspan.like, h.like]
  · have := hown.nonneg
    show 0 ≤ c'.flStart ∧ c'.flStart ≤ req.flStart
    omega
  · have := hown.bounded
    have := hspan.high
    have := hspan.stop
    show req.flEnd ≤ c'.flEnd ∧ c'.flEnd ≤ offsetMax
    omega
  · intro l hl
    obtain ⟨hs, hrest⟩ := h.cuts l hl
    have hl' : l ∈ cut.toList := by simpa using hl
    obtain ⟨hlt, -⟩ := h.behind l (mem_append_right _ hl') fl mem_cons_self
    refine ⟨?_, hrest⟩
    show c'.flStart = req.flStart
    omega
  · intro a ha
    exact hspan.sep (h.before a ha) (h.front_behind a ha fl mem_cons_self) htype'
  · intro _ r hr
    obtain ⟨hlt, hadj⟩ := h.head_sep r hr
    refine ⟨by omega, ?_⟩
    show c'.flEnd = req.flEnd ∨ Sep c' r
    rcases hspan.stop with hstop | hstop
    · rcases h.ends r (mem_cons_of_mem _ hr) with hend | ⟨h₁, h₂⟩
      · exact .inl (hstop.trans hend)
      · refine .inr ⟨hstop ▸ h₁, fun he => ?_⟩
        rw [hstop]
        exact h₂ (hspan.type_eq.symm.trans he)
    · refine .inr ⟨by omega, fun he => ?_⟩
      have := hadj (htype'.trans (hspan.type_eq.symm.trans he))
      omega
  · intro x t
    rw [h.map x t]
    show _ ↔ _ ∨ _ ∨ Holds (placed c') x t ∨ _
    rw [holds_placed_spans hspan (by omega) hhi htype' hlock x t, holds_cons]
    refine absorb fun hfl hx => ?_
    rw [holds_placed, ← hfl.2, htype']
    obtain ⟨h₁, h₂⟩ := hx
    exact ⟨⟨by omega, by omega⟩, rfl, hlock⟩

/-- The request takes its place in the list. -/
lemma WalkInv.place (h : WalkInv req orig w rest kept cut false) (hlock : req.flType ≠ .unlck)
    (hnear : ∀ r ∈ rest, req.flStart ≤ r.flStart) :
    WalkInv req orig (w.become req) rest kept cut true := by
  have hcaller := h.fresh rfl
  have hpassed : w.passed = kept ++ cut.toList := by simpa using h.passed
  refine { h with
    passed := ?_, callerAt := ?_, added := fun _ => rfl, unlocks := fun hu => absurd hu hlock,
    like := rfl, fresh := by simp, lower := hcaller ▸ h.lower, upper := hcaller ▸ h.upper,
    cuts := fun l hl => ⟨rfl, (h.cuts l hl).2⟩, before := fun a ha => hcaller ▸ h.before a ha,
    near := fun _ r hr => ⟨hnear r hr, .inl rfl⟩, map := hcaller ▸ h.map }
  · show w.passed ++ [req] = _
    rw [hpassed]
    rfl
  · show some w.passed.length = _
    rw [hpassed]
    simp

/-- A lock inside the request, of another type, is deleted. -/
lemma WalkInv.drop (h : WalkInv req orig w (fl :: rest) kept cut inList)
    (hstart : req.flStart ≤ fl.flStart) (hend : fl.flEnd ≤ req.flEnd) :
    WalkInv req orig w rest kept cut inList := by
  refine { h with
    own := h.own_tail, behind := h.behind_tail, sorted := h.sorted.tail,
    near := fun hin r hr => h.near hin r (mem_cons_of_mem _ hr),
    noWrap := h.noWrap_tail, map := fun x t => ?_ }
  rw [h.map x t, holds_cons]
  have hin : fl.Has x ∧ fl.flType = t → req.Has x := by
    rintro ⟨⟨h₁, h₂⟩, -⟩
    exact ⟨by omega, by omega⟩
  tauto

end Walk

end PsxLinux.Locks
