import PsxLinux.Locks.Runs

/-!
# The pass of `posix_lock_file` over a run

Wherever the pass stops, what follows it in `posix_lock_file` puts the list together to a run
again, and the map of that run is the old one with the range of the request overwritten
(`Yields`).
-/

namespace PsxLinux.Locks

open List

section Walk

variable {req fl : FileLock} {orig rest kept : List FileLock} {w : Walk} {cut : Option FileLock}
  {inList : Bool}

/-! ## The end of the pass -/

/-- What stands in front of the locks not looked at, when all is done. -/
def front (req : FileLock) (kept : List FileLock) (cut : Option FileLock) (c : FileLock) :
    List FileLock :=
  kept ++ cut.toList.map (trim req.flStart) ++ placed c

lemma modify_length (l : List FileLock) (a : FileLock) (m : List FileLock)
    (f : FileLock → FileLock) : (l ++ a :: m).modify l.length f = l ++ f a :: m := by
  induction l with
  | nil => rfl
  | cons b l ih => simpa using ih

lemma Own.trim {owner pid : ℕ} {l : FileLock} (h : Own owner pid l) {s : ℤ} (hlt : l.flStart < s)
    (hle : s ≤ offsetMax) : Own owner pid (trim s l) := by
  refine { h with ordered := ?_, bounded := ?_ }
  · show l.flStart ≤ s - 1
    omega
  · show s - 1 ≤ offsetMax
    omega

section Front

variable (h : WalkInv req orig w rest kept cut inList)
include h

lemma WalkInv.type_eq : w.caller.flType = req.flType := by rw [h.like]

lemma WalkInv.newFl_eq (hend : ¬ (w.added = false ∧ req.flType = .unlck)) :
    (if inList then [w.caller] else []) ++ (if w.added then [] else [w.caller]) =
      placed w.caller := by
  unfold placed
  rw [h.type_eq]
  by_cases hu : req.flType = .unlck
  · have hadd : w.added := by simpa [hu] using hend
    rw [if_pos hu, (h.unlocks hu).1, hadd]
    rfl
  · rw [if_neg hu, h.added hu]
    cases inList <;> rfl

/-- The lock that the request cuts is trimmed where it stands. -/
lemma WalkInv.trimLeft_eq :
    w.trimLeft = kept ++ cut.toList.map (trim req.flStart) ++
      if inList then [w.caller] else [] := by
  unfold Walk.trimLeft
  rw [h.left, h.passed]
  cases hc : cut with
  | none => rfl
  | some l =>
    obtain ⟨hs, -⟩ := h.cuts l (by rw [hc]; rfl)
    have hlower := h.lower
    have hupper := h.upper
    have hord := h.ordered
    have htrim : offAdd w.caller.flStart (-1) = req.flStart - 1 := by
      rw [offAdd_eq (by omega) (by omega), hs]
      rfl
    simp only [Option.map_some, Option.toList_some, htrim, append_assoc, map_cons, map_nil]
    exact modify_length kept l _ _

/-- The list in front of `*before`, with the new lock. -/
lemma WalkInv.assemble :
    (w.added = false ∧ req.flType = .unlck → w.passed = front req kept cut w.caller) ∧
    (¬ (w.added = false ∧ req.flType = .unlck) →
      w.trimLeft ++ (if w.added then [] else [w.caller]) = front req kept cut w.caller) := by
  constructor
  · rintro ⟨hadd, hu⟩
    obtain ⟨hin, hcut⟩ := h.unlocks hu
    rw [h.passed, hcut hadd, hin]
    simp [front, placed, h.type_eq, hu]
  · intro hend
    rw [h.trimLeft_eq, append_assoc, h.newFl_eq hend]
    rfl

lemma WalkInv.caller_own (hu : w.caller.flType ≠ .unlck) : Own req.flOwner req.flPid w.caller := by
  have hlike := h.like
  have hord := h.ordered
  have hlower := h.lower
  have hupper := h.upper
  refine ⟨by rw [hlike], by rw [hlike], by rw [hlike]; exact h.posix, hu, hlower.1, ?_, hupper.2⟩
  omega

lemma WalkInv.front_runOk : RunOk req.flOwner req.flPid (front req kept cut w.caller) := by
  refine RunOk.append ⟨?_, h.sep⟩ (runOk_placed h.caller_own) ?_
  · intro a ha
    rcases mem_append.mp ha with ha | ha
    · exact h.own a (by simp [ha])
    · obtain ⟨l, hl, rfl⟩ := mem_map.mp ha
      obtain ⟨-, hlt, -⟩ := h.cuts l (by simpa using hl)
      have hord := h.ordered
      have hupper := h.upper
      have hown := h.own l (by simp only [mem_append]; exact .inl (.inr hl))
      exact hown.trim hlt (by omega)
  · intro a ha b hb
    obtain ⟨rfl, -⟩ := mem_placed hb
    exact h.before a ha

lemma WalkInv.runOk {tail : List FileLock} (htail : RunOk req.flOwner req.flPid tail)
    (hfront : ∀ a ∈ kept ++ cut.toList.map (Locks.trim req.flStart), ∀ r ∈ tail, Sep a r)
    (hcaller : ∀ r ∈ tail, Sep w.caller r) :
    RunOk req.flOwner req.flPid (front req kept cut w.caller ++ tail) := by
  refine h.front_runOk.append htail fun a ha r hr => ?_
  rcases mem_append.mp ha with ha | ha
  · exact hfront a ha r hr
  · obtain ⟨rfl, -⟩ := mem_placed ha
    exact hcaller r hr

end Front

/-- A run, its map the one of `orig` with the range of the request overwritten. -/
def Result (req : FileLock) (orig run : List FileLock) : Prop :=
  RunOk req.flOwner req.flPid run ∧ Overwritten req orig run

/-- What follows the pass makes such a run of the list in front of `post`. -/
def Yields (req : FileLock) (orig post : List FileLock) (r : Walk × Bool × List FileLock) : Prop :=
  ∃ run, finishLocks r = run ++ post ∧ Result req orig run

variable {post : List FileLock}

/-- **The pass ends** before the first lock behind the request. -/
theorem WalkInv.finish (h : WalkInv req orig w rest kept cut inList)
    (hbehind : ∀ r ∈ rest, Sep w.caller r) :
    Yields req orig post (w, false, rest ++ post) := by
  refine ⟨front req kept cut w.caller ++ rest, ?_, ?_, ?_⟩
  · obtain ⟨h₁, h₂⟩ := h.assemble
    unfold finishLocks
    simp only [h.type_eq]
    by_cases hend : w.added = false ∧ req.flType = .unlck
    · rw [if_pos (by simp [hend]), h₁ hend, append_assoc]
    · rw [if_neg (by simpa using hend), h₂ hend, append_assoc]
  · exact h.runOk ⟨fun r hr => h.own r (mem_append_right _ hr), h.sorted⟩ h.front_behind hbehind
  · intro x t
    have hout : Holds rest x t → ¬ req.Has x := by
      rintro ⟨r, hr, ⟨h₁, -⟩, -⟩ ⟨-, h₂⟩
      have := (hbehind r hr).1
      have := h.upper
      omega
    rw [h.map x t]
    simp only [front, holds_append]
    tauto

section

variable (h : WalkInv req orig w (fl :: rest) kept cut inList)
include h

/-- The request ends where it asked to if it overlaps the next lock, of another type. -/
lemma WalkInv.end_eq (hover : fl.flStart ≤ w.caller.flEnd) : w.caller.flEnd = req.flEnd := by
  rcases h.ends fl mem_cons_self with he | hsep
  · exact he
  · have := hsep.1
    omega

/-- The next lock starts inside the request, or nothing is cut or placed yet. -/
lemma WalkInv.start_le (hstart : w.caller.flStart ≤ fl.flStart) : req.flStart ≤ fl.flStart := by
  cases inList with
  | false => exact h.fresh rfl ▸ hstart
  | true => exact (h.near rfl fl mem_cons_self).1

def trimStart (e : ℤ) (fl : FileLock) : FileLock := { fl with flStart := e + 1 }

lemma WalkInv.trimStart_tail
    (htype : w.caller.flType ≠ fl.flType) (hover : fl.flStart ≤ w.caller.flEnd)
    (hreach : w.caller.flEnd < fl.flEnd) :
    RunOk req.flOwner req.flPid (trimStart w.caller.flEnd fl :: rest) ∧
      ∀ r ∈ trimStart w.caller.flEnd fl :: rest, Sep w.caller r := by
  have hown := h.head_own
  have hnonneg := hown.nonneg
  refine ⟨⟨?_, ?_⟩, ?_⟩
  · intro r hr
    rcases mem_cons.mp hr with rfl | hr
    · refine { hown with nonneg := ?_, ordered := ?_ }
      · show 0 ≤ w.caller.flEnd + 1
        omega
      · show w.caller.flEnd + 1 ≤ fl.flEnd
        omega
    · exact h.own_tail r (mem_append_right _ hr)
  · exact pairwise_cons.mpr ⟨fun r hr => h.head_sep r hr, h.sorted.tail⟩
  · intro r hr
    rcases mem_cons.mp hr with rfl | hr
    · refine ⟨?_, fun he => absurd he htype⟩
      show w.caller.flEnd < w.caller.flEnd + 1
      omega
    · have := (h.head_sep r hr).1
      exact ⟨by omega, fun _ => by omega⟩

end

lemma Sep.trimStart {a : FileLock} {e : ℤ} (h : Sep a fl) (he : fl.flStart ≤ e + 1) :
    Sep a (trimStart e fl) := by
  obtain ⟨h₁, h₂⟩ := h
  refine ⟨?_, fun ht => ?_⟩
  · show a.flEnd < e + 1
    omega
  · have := h₂ ht
    show a.flEnd + 1 < e + 1
    omega

lemma WalkInv.setAdded (h : WalkInv req orig w rest kept cut inList) :
    WalkInv req orig { w with added := w.added || decide (w.caller.flType = LockType.unlck) }
      rest kept cut inList := by
  have htype := h.type_eq
  refine { h with added := fun hl => ?_, unlocks := fun hu => ⟨(h.unlocks hu).1, fun hf => ?_⟩ }
  · show (w.added || decide (w.caller.flType = .unlck)) = inList
    rw [h.added hl, htype]
    simp [hl]
  · have hf' : (w.added || decide (w.caller.flType = .unlck)) = false := hf
    rw [htype] at hf'
    simp [hu] at hf'

/-- The request lies inside a lock of another type, which breaks in two. -/
lemma WalkInv.finish_split (h : WalkInv req orig w (fl :: rest) kept none false)
    (htype : req.flType ≠ fl.flType) (hstart : fl.flStart < req.flStart)
    (hreach : req.flEnd < fl.flEnd) :
    Result req orig
      (kept ++ [trim req.flStart fl] ++ placed req ++ trimStart req.flEnd fl :: rest) := by
  have hcaller := h.fresh rfl
  have hord := h.ordered
  have hbound := h.head_own.bounded
  have hover : fl.flStart ≤ w.caller.flEnd := by rw [hcaller]; omega
  obtain ⟨htail, hbehind⟩ := h.trimStart_tail (by rw [hcaller]; exact htype) hover
    (by rw [hcaller]; exact hreach)
  rw [hcaller] at htail hbehind
  have hkept : RunOk req.flOwner req.flPid kept :=
    ⟨fun a ha => h.own a (by simp [ha]), by simpa using h.sep⟩
  have hfl : ∀ a ∈ kept, Sep a fl := fun a ha => h.behind a (by simpa using ha) fl mem_cons_self
  have hleft : RunOk req.flOwner req.flPid (kept ++ [trim req.flStart fl]) :=
    hkept.append (.singleton (h.head_own.trim hstart (by omega))) fun a ha b hb => by
      rw [mem_singleton.mp hb]
      exact hfl a ha
  have hmid : RunOk req.flOwner req.flPid (kept ++ [trim req.flStart fl] ++ placed req) := by
    refine hleft.append (runOk_placed fun hu => hcaller ▸ h.caller_own (hcaller.symm ▸ hu)) ?_
    intro a ha b hb
    obtain ⟨rfl, -⟩ := mem_placed hb
    rcases mem_append.mp ha with ha | ha
    · exact hcaller ▸ h.before a (by simpa using ha)
    · rw [mem_singleton.mp ha]
      refine ⟨?_, fun he => absurd he.symm htype⟩
      show b.flStart - 1 < b.flStart
      omega
  constructor
  · refine hmid.append htail fun a ha r hr => ?_
    rcases mem_append.mp ha with ha | ha
    · rcases mem_append.mp ha with ha | ha
      · rcases mem_cons.mp hr with rfl | hr
        · exact (hfl a ha).trimStart (by omega)
        · exact h.behind_tail a (by simpa using ha) r hr
      · rw [mem_singleton.mp ha]
        rcases mem_cons.mp hr with rfl | hr
        · refine ⟨?_, fun _ => ?_⟩
          · show req.flStart - 1 < req.flEnd + 1
            omega
          · show req.flStart - 1 + 1 < req.flEnd + 1
            omega
        · obtain ⟨h₁, h₂⟩ := h.head_sep r hr
          refine ⟨?_, fun _ => ?_⟩
          · show req.flStart - 1 < r.flStart
            omega
          · show req.flStart - 1 + 1 < r.flStart
            omega
    · obtain ⟨rfl, -⟩ := mem_placed ha
      exact hbehind r hr
  · intro x t
    rw [h.map x t, hcaller]
    have hparts : (trim req.flStart fl).Has x ∨ (trimStart req.flEnd fl).Has x ↔
        fl.Has x ∧ ¬ req.Has x := by
      simp only [FileLock.Has, trim, trimStart]
      omega
    have hout : Holds rest x t → ¬ req.Has x := by
      rintro ⟨r, hr, ⟨h₁, -⟩, -⟩ ⟨-, h₂⟩
      have := (h.head_sep r hr).1
      omega
    have ht₁ : (trim req.flStart fl).flType = fl.flType := rfl
    have ht₂ : (trimStart req.flEnd fl).flType = fl.flType := rfl
    simp only [holds_append, holds_cons, ht₁, ht₂]
    tauto

/-- **The pass ends** at a lock of another type that reaches over the end of the request. -/
theorem WalkInv.finish_right (h : WalkInv req orig w (fl :: rest) kept cut inList)
    (htype : w.caller.flType ≠ fl.flType) (hover : fl.flStart ≤ w.caller.flEnd)
    (hreach : w.caller.flEnd < fl.flEnd) :
    Yields req orig post ({ w with
      added := w.added || decide (w.caller.flType = LockType.unlck)
      left := if fl.flStart < w.caller.flStart then some w.passed.length else w.left },
      true, fl :: rest ++ post) := by
  have hadded := h.setAdded
  have hkeep : ¬ ((w.added || decide (w.caller.flType = LockType.unlck)) = false ∧
      req.flType = .unlck) := by
    rintro ⟨hf, hu⟩
    rw [h.type_eq] at hf
    simp [hu] at hf
  have hlower := h.lower
  have hupper := h.upper
  have hord := h.ordered
  have hbound := h.head_own.bounded
  have hnext : offAdd w.caller.flEnd 1 = w.caller.flEnd + 1 := offAdd_eq (by omega) (by omega)
  have hprev : offAdd w.caller.flStart (-1) = w.caller.flStart - 1 := by
    rw [offAdd_eq (by omega) (by omega)]
    rfl
  have hgo : ¬ (!(w.added || decide (w.caller.flType = LockType.unlck)) &&
      decide (w.caller.flType = LockType.unlck)) := by
    simp
  by_cases hs : fl.flStart < w.caller.flStart
  · -- the lock breaks in two
    have hlt : fl.flStart < req.flStart := by omega
    obtain ⟨rfl, rfl⟩ := h.untouched hlt
    have hcaller := h.fresh rfl
    have hpassed : w.passed = kept := by simpa using h.passed
    have hnew := hadded.newFl_eq hkeep
    rw [hcaller] at hreach htype
    refine ⟨_, ?_, h.finish_split htype hlt hreach⟩
    simp only [Bool.false_eq_true, if_false, nil_append] at hnew
    simp only [finishLocks, if_pos hs, if_true, hnext, hprev, hnew]
    rw [hpassed, hcaller]
    simp [trim, trimStart]
  · -- the request starts before it
    have hle := h.start_le (by omega)
    have hleft : w.left ≠ some w.passed.length := by
      rw [h.left, h.passed]
      cases cut with
      | none => simp
      | some l => simp
    obtain ⟨htail, hbehind⟩ := h.trimStart_tail htype hover hreach
    refine ⟨front req kept cut w.caller ++ trimStart w.caller.flEnd fl :: rest, ?_, ?_, ?_⟩
    · have hassemble := hadded.assemble.2 hkeep
      simp only [finishLocks, if_neg hgo, if_neg hs, if_neg hleft, hnext]
      exact (congrArg (· ++ trimStart w.caller.flEnd fl :: (rest ++ post)) hassemble).trans (by simp)
    · refine h.runOk htail (fun a ha r hr => ?_) hbehind
      have hfl := h.front_behind a ha
      rcases mem_cons.mp hr with rfl | hr
      · exact (hfl fl mem_cons_self).trimStart (by omega)
      · exact hfl r (mem_cons_of_mem _ hr)
    · intro x t
      rw [h.map x t]
      have hend := h.end_eq hover
      have hpart : (trimStart w.caller.flEnd fl).Has x ↔ fl.Has x ∧ ¬ req.Has x := by
        simp only [FileLock.Has, trimStart]
        omega
      have hout : Holds rest x t → ¬ req.Has x := by
        rintro ⟨r, hr, ⟨h₁, -⟩, -⟩ ⟨-, h₂⟩
        have := (h.head_sep r hr).1
        omega
      simp only [front, holds_append, holds_cons, hpart]
      exact (keep_tail hout).symm

/-! ## The pass -/

section Turn

variable (h : WalkInv req orig w (fl :: rest) kept cut inList)
include h

lemma WalkInv.sameOwner : locksSameOwner w.caller fl := by
  have hown := h.head_own
  rw [h.like]
  simp [locksSameOwner, hown.flOwner, hown.flPid]

/-- A lock that does not end before the request reaches up to it. -/
lemma WalkInv.reaches {d : ℤ} (hd : 0 ≤ d)
    (hend : w.caller.flStart - d ≤ fl.flEnd) : req.flStart - d ≤ fl.flEnd := by
  cases inList with
  | false => exact h.fresh rfl ▸ hend
  | true =>
    have := (h.near rfl fl mem_cons_self).1
    have := h.head_own.ordered
    omega

/-- The end of the request does not wrap at a lock of its type that reaches up to it. -/
lemma WalkInv.next_end (htype : fl.flType = req.flType) (hend : req.flStart - 1 ≤ fl.flEnd) :
    offAdd w.caller.flEnd 1 = w.caller.flEnd + 1 := by
  have hlower := h.lower
  have hupper := h.upper
  have hord := h.ordered
  have hown := h.head_own
  have hlt : w.caller.flEnd < offsetMax := by
    by_contra hge
    have hmax : req.flEnd = offsetMax := by
      rcases h.ends fl mem_cons_self with he | hsep
      · omega
      · have := hsep.1
        have := hown.bounded
        have := hown.ordered
        omega
    have := h.noWrap hmax fl mem_cons_self htype
    omega
  exact offAdd_eq (by omega) (by omega)

lemma WalkInv.all_behind (hsep : Sep w.caller fl) : ∀ r ∈ fl :: rest, Sep w.caller r := by
  intro r hr
  rcases mem_cons.mp hr with rfl | hr
  · exact hsep
  · have h₁ := hsep.1
    have h₂ := (h.head_sep r hr).1
    have h₃ := h.head_own.ordered
    exact ⟨by omega, fun _ => by omega⟩

-- the rest of the pass
variable (ih : ∀ {w : Walk} {kept : List FileLock} {cut : Option FileLock} {inList : Bool},
  WalkInv req orig w rest kept cut inList → Yields req orig post (processLocks w (rest ++ post)))
include ih

/-- One turn of the pass at a lock of the type of the request. -/
lemma WalkInv.turn_same (htype : w.caller.flType = fl.flType) :
    Yields req orig post (processLocks w (fl :: rest ++ post)) := by
  have hlower := h.lower
  have hupper := h.upper
  have hord := h.ordered
  have hown := h.head_own
  have hflord := hown.ordered
  have hreq : fl.flType = req.flType := htype.symm.trans h.type_eq
  have hprev : offAdd w.caller.flStart (-1) = w.caller.flStart - 1 := by
    rw [offAdd_eq (by omega) (by omega)]
    rfl
  rw [cons_append, processLocks, h.sameOwner]
  simp only [if_pos htype, hprev]
  by_cases hbefore : fl.flEnd < w.caller.flStart - 1
  · -- well before the request
    obtain ⟨rfl, rfl⟩ := h.untouched (by omega)
    rw [if_pos hbefore]
    exact ih (h.pass ⟨by omega, fun _ => by omega⟩)
  · rw [if_neg hbefore]
    have hreach := h.reaches (d := 1) (by omega) (by omega)
    rw [h.next_end hreq hreach]
    by_cases hafter : w.caller.flEnd + 1 < fl.flStart
    · -- well behind it
      rw [if_pos hafter]
      exact h.finish (h.all_behind ⟨by omega, fun _ => hafter⟩)
    · -- one lock for both
      rw [if_neg hafter]
      have hspan := spans w.caller fl
      have hlock : req.flType ≠ .unlck := hreq ▸ hown.locked
      have hset : ∀ c, (w.setCaller c).added = inList := fun _ => h.added hlock
      have hjoin := h.join hreq hreach (by omega) hspan
      simp only [hset]
      cases inList with
      | false =>
        have hsame : ∀ a b : ℤ, { fl with flStart := a, flEnd := b } =
            { w.caller with flStart := a, flEnd := b } := by
          intro a b
          simp only [h.fresh rfl]
          rw [← hown.flOwner, ← hown.flPid, ← hreq, h.posix, ← hown.posix]
        rw [hsame]
        exact ih hjoin
      | true => exact ih hjoin

/-- One turn of the pass at a lock of another type. -/
lemma WalkInv.turn_other (htype : w.caller.flType ≠ fl.flType) :
    Yields req orig post (processLocks w (fl :: rest ++ post)) := by
  have hlower := h.lower
  have hown := h.head_own
  have hord := hown.ordered
  have hreq : fl.flType ≠ req.flType := fun he => htype (h.type_eq.trans he.symm)
  rw [cons_append, processLocks, h.sameOwner]
  simp only [Bool.not_true, Bool.false_eq_true, if_false, if_neg htype]
  by_cases hbefore : fl.flEnd < w.caller.flStart
  · obtain ⟨rfl, rfl⟩ := h.untouched (by omega)
    rw [if_pos hbefore]
    exact ih (h.pass ⟨h.fresh rfl ▸ hbefore, fun he => absurd he hreq⟩)
  rw [if_neg hbefore]
  by_cases hafter : w.caller.flEnd < fl.flStart
  · rw [if_pos hafter]
    exact h.finish (h.all_behind ⟨hafter, fun he => absurd he htype⟩)
  rw [if_neg hafter]
  by_cases hreach : w.caller.flEnd < fl.flEnd
  · rw [if_pos hreach]
    exact h.finish_right htype (by omega) hreach
  rw [if_neg hreach]
  have hend := h.end_eq (by omega)
  by_cases hstart : w.caller.flStart ≤ fl.flStart
  · -- inside the request
    have hle := h.start_le hstart
    have hleft : (if fl.flStart < w.caller.flStart then some w.passed.length else w.left) =
        w.left := if_neg (by omega)
    have hdrop := h.setAdded.drop hle (by omega)
    rw [if_pos hstart, hleft]
    cases hadd : w.added || decide (w.caller.flType = LockType.unlck) with
    | true =>
      rw [hadd] at hdrop
      exact ih hdrop
    | false =>
      have hlock : req.flType ≠ .unlck := by
        intro hu
        rw [h.type_eq] at hadd
        simp [hu] at hadd
      have hin : inList = false := by
        rw [← h.added hlock]
        exact (Bool.or_eq_false_iff.mp hadd).1
      subst hin
      have hreplaced : { fl with
          flStart := w.caller.flStart, flEnd := w.caller.flEnd, flType := w.caller.flType } =
          req := by
        rw [h.fresh rfl, hown.flOwner, hown.flPid, hown.posix, ← h.posix]
      rw [hreplaced]
      refine ih (hdrop.place hlock fun r hr => ?_)
      have := (h.head_sep r hr).1
      omega
  · -- it starts before the request
    have hlt : fl.flStart < req.flStart := by omega
    obtain ⟨rfl, rfl⟩ := h.untouched hlt
    have hlow := h.reaches (d := 0) (by omega) (by omega)
    rw [if_neg hstart, if_pos (by omega)]
    exact ih (h.setAdded.cutOff hlt (by omega) (by omega) hreq fun hu => by simp [h.type_eq, hu])

end Turn

lemma processLocks_stop (hpost : ∀ fl ∈ post.head?, locksSameOwner w.caller fl = false) :
    processLocks w post = (w, false, post) := by
  cases post with
  | nil => rfl
  | cons fl post =>
    have hfl := hpost fl rfl
    rw [processLocks, hfl]
    rfl

/-- **The pass over a run** yields a run, with the range of the request overwritten. -/
theorem processLocks_spec
    (hpost : ∀ fl ∈ post.head?, ¬ (fl.flOwner = req.flOwner ∧ fl.flPid = req.flPid)) :
    ∀ (rest : List FileLock) {w : Walk} {kept : List FileLock} {cut : Option FileLock}
      {inList : Bool}, WalkInv req orig w rest kept cut inList →
      Yields req orig post (processLocks w (rest ++ post)) := by
  intro rest
  induction rest with
  | nil =>
    intro w kept cut inList h
    have hstop : ∀ fl ∈ post.head?, locksSameOwner w.caller fl = false := by
      intro fl hfl
      have hne := hpost fl hfl
      rw [h.like]
      by_contra hboth
      simp only [locksSameOwner, Bool.not_eq_false, Bool.and_eq_true, decide_eq_true_eq] at hboth
      exact hne ⟨hboth.1.symm, hboth.2.symm⟩
    rw [nil_append, processLocks_stop hstop]
    exact h.finish (by simp)
  | cons fl rest ih =>
    intro w kept cut inList h
    by_cases htype : w.caller.flType = fl.flType
    · exact h.turn_same ih htype
    · exact h.turn_other ih htype

end Walk

end PsxLinux.Locks
