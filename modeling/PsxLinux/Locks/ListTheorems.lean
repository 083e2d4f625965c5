import PsxLinux.Locks.WalkTheorems
import Mathlib.Data.List.TakeDrop

/-!
# The list of an inode

The list `i_flock` is a row of runs, one for each owner, behind the locks that are not POSIX
locks. A call of `posix_lock_file` that goes through changes the run of its caller, and the
test for conflicts before that keeps locks of different owners compatible.

The pass over the run goes wrong only where `caller->fl_end + 1` wraps: when the request ends
at `OFFSET_MAX` and its owner holds a lock of the same type that reaches up to it. `NoWrap` is
the condition that this does not happen.
-/

namespace PsxLinux.Locks

open Lib List

/-- The POSIX locks of this owner. -/
def FileLock.OwnedBy (owner pid : ℕ) (fl : FileLock) : Prop :=
  fl.flFlags = .posix ∧ fl.flOwner = owner ∧ fl.flPid = pid

/-- The list as it should be: each owner's POSIX locks stand together, sorted and apart, those
of one type not touching, and locks of different owners overlap only to read. -/
structure Sound (list : List FileLock) : Prop where
  runs : ∀ owner pid, ∃ pre run post, list = pre ++ run ++ post ∧
    (∀ fl ∈ run, fl.OwnedBy owner pid) ∧ (∀ fl ∈ pre ++ post, ¬ fl.OwnedBy owner pid) ∧
    run.Pairwise fun a b => a.flStart < b.flStart ∧ a.flEnd < b.flStart ∧
      (a.flType = b.flType → a.flEnd + 1 < b.flStart)
  exclusive : ∀ x ∈ list, ∀ y ∈ list, x.flFlags = .posix → y.flFlags = .posix →
    ¬ y.OwnedBy x.flOwner x.flPid → locksOverlap x y →
    x.flType = .rdlck ∧ y.flType = .rdlck

/-- The call goes through: it has its locks, and it unlocks or conflicts with no lock held. -/
def Call.Granted (list : List FileLock) (c : Call) : Prop :=
  c.allocated ∧ (c.caller.flType ≠ .unlck →
    ∀ fl ∈ list, fl.flFlags = .posix → posixLocksConflict c.caller fl = false)

/-- No sum wraps: a call that goes through and ends at `OFFSET_MAX` finds no lock of its owner
and type that reaches up to its start. -/
def NoWrap (list : List FileLock) (c : Call) : Prop :=
  c.Granted list → c.caller.flEnd = offsetMax →
    ∀ fl ∈ list, fl.OwnedBy c.caller.flOwner c.caller.flPid →
      fl.flType = c.caller.flType → fl.flEnd < c.caller.flStart - 1

/-! ## Rows of runs -/

def Foreign (x y : FileLock) : Prop := ¬ (y.flOwner = x.flOwner ∧ y.flPid = x.flPid)

/-- The list is a row of runs behind other locks. -/
structure Row (others : List FileLock) (runs : List (List FileLock)) : Prop where
  notPosix : ∀ fl ∈ others, fl.flFlags ≠ .posix
  runOk : ∀ run ∈ runs, ∃ owner pid, RunOk owner pid run
  foreign : runs.Pairwise fun run run' => ∀ x ∈ run, ∀ y ∈ run', Foreign x y
  exclusive : ∀ x ∈ runs.flatten, ∀ y ∈ runs.flatten, Foreign x y → ∀ z, x.Has z → y.Has z →
    x.flType = .rdlck ∧ y.flType = .rdlck

section Row

variable {others : List FileLock} {runs : List (List FileLock)}

lemma Row.own (h : Row others runs) {fl : FileLock} (hfl : fl ∈ runs.flatten) :
    Own fl.flOwner fl.flPid fl := by
  obtain ⟨run, hrun, hmem⟩ := mem_flatten.mp hfl
  obtain ⟨owner, pid, hok⟩ := h.runOk run hrun
  have hown := hok.own fl hmem
  rw [hown.flOwner, hown.flPid]
  exact hown

/-- The run of one owner, and the runs before and behind it. If it is empty it comes last. -/
lemma Row.split (h : Row others runs) (owner pid : ℕ) :
    ∃ before run behind, runs.flatten = (before ++ [run] ++ behind).flatten ∧
      Row others (before ++ [run] ++ behind) ∧ RunOk owner pid run ∧
      (∀ fl ∈ before.flatten ++ behind.flatten, ¬ (fl.flOwner = owner ∧ fl.flPid = pid)) ∧
      (run = [] → behind = []) := by
  by_cases hex : ∃ run ∈ runs, ∃ fl ∈ run, fl.flOwner = owner ∧ fl.flPid = pid
  · obtain ⟨run, hrun, fl, hfl, hown⟩ := hex
    obtain ⟨before, behind, rfl⟩ := append_of_mem hrun
    obtain ⟨owner', pid', hok⟩ := h.runOk run hrun
    have hfl' := hok.own fl hfl
    obtain rfl : owner' = owner := hfl'.flOwner.symm.trans hown.1
    obtain rfl : pid' = pid := hfl'.flPid.symm.trans hown.2
    have hforeign := h.foreign
    rw [pairwise_append] at hforeign
    obtain ⟨-, hback, hcross⟩ := hforeign
    have hrow : before ++ run :: behind = before ++ [run] ++ behind := by simp
    refine ⟨before, run, behind, by rw [hrow], hrow ▸ h, hok, ?_, ?_⟩
    · intro a ha heq
      rcases mem_append.mp ha with ha | ha
      · obtain ⟨r, hr, har⟩ := mem_flatten.mp ha
        exact hcross r hr run mem_cons_self a har fl hfl
          ⟨hfl'.flOwner.trans heq.1.symm, hfl'.flPid.trans heq.2.symm⟩
      · obtain ⟨r, hr, har⟩ := mem_flatten.mp ha
        exact rel_of_pairwise_cons hback hr fl hfl a har
          ⟨heq.1.trans hfl'.flOwner.symm, heq.2.trans hfl'.flPid.symm⟩
    · rintro rfl
      simp at hfl
  · have hrow : Row others (runs ++ [[]] ++ []) := by
      refine { h with runOk := ?_, foreign := ?_, exclusive := ?_ }
      · intro run hrun
        rcases (by simpa using hrun) with hrun | rfl
        · exact h.runOk run hrun
        · exact ⟨0, 0, by simp, Pairwise.nil⟩
      · rw [append_nil, pairwise_append]
        exact ⟨h.foreign, pairwise_singleton _ _, by simp⟩
      · simpa using h.exclusive
    refine ⟨runs, [], [], by simp, hrow, ⟨by simp, Pairwise.nil⟩, ?_, fun _ => rfl⟩
    intro a ha heq
    obtain ⟨r, hr, har⟩ := mem_flatten.mp (by simpa using ha)
    exact hex ⟨r, hr, a, har, heq⟩

/-- Another run of the same owner takes the place of a run. -/
lemma Row.replace {before behind : List (List FileLock)} {run run' : List FileLock}
    {owner pid : ℕ} (h : Row others (before ++ [run] ++ behind)) (hok : RunOk owner pid run')
    (hforeign : ∀ fl ∈ before.flatten ++ behind.flatten, ¬ (fl.flOwner = owner ∧ fl.flPid = pid))
    (hexcl : ∀ x ∈ run', ∀ y ∈ before.flatten ++ behind.flatten, ∀ z, x.Has z → y.Has z →
      x.flType = .rdlck ∧ y.flType = .rdlck) :
    Row others (before ++ [run'] ++ behind) := by
  have hout : ∀ x ∈ run', ∀ y ∈ before.flatten ++ behind.flatten, Foreign x y ∧ Foreign y x := by
    intro x hx y hy
    have hown := hok.own x hx
    have hne := hforeign y hy
    unfold Foreign
    rw [hown.flOwner, hown.flPid]
    exact ⟨hne, fun he => hne ⟨he.1.symm, he.2.symm⟩⟩
  have hmem : ∀ x, x ∈ (before ++ [run'] ++ behind).flatten ↔
      x ∈ run' ∨ x ∈ before.flatten ++ behind.flatten := by
    intro x
    simp only [flatten_append, mem_append, flatten_cons, flatten_nil, append_nil]
    tauto
  have hold : ∀ x ∈ before.flatten ++ behind.flatten, x ∈ (before ++ [run] ++ behind).flatten := by
    intro x hx
    simp only [flatten_append, mem_append] at hx ⊢
    tauto
  refine ⟨h.notPosix, ?_, ?_, ?_⟩
  · intro r hr
    rcases (by simpa using hr) with hr | rfl | hr
    · exact h.runOk r (by simp [hr])
    · exact ⟨owner, pid, hok⟩
    · exact h.runOk r (by simp [hr])
  · have hf := h.foreign
    rw [append_assoc, pairwise_append] at hf ⊢
    obtain ⟨h₁, h₂, h₃⟩ := hf
    refine ⟨h₁, pairwise_cons.mpr ⟨?_, (pairwise_cons.mp h₂).2⟩, ?_⟩
    · intro r hr x hx y hy
      exact (hout x hx y (mem_append_right _ (mem_flatten.mpr ⟨r, hr, hy⟩))).1
    · intro r hr r' hr' x hx y hy
      rcases mem_cons.mp hr' with rfl | hr'
      · exact (hout y hy x (mem_append_left _ (mem_flatten.mpr ⟨r, hr, hx⟩))).2
      · exact h₃ r hr r' (mem_cons_of_mem _ hr') x hx y hy
  · intro x hx y hy hxy z hxz hyz
    rcases (hmem x).mp hx with hx | hx
    · rcases (hmem y).mp hy with hy | hy
      · have h₁ := hok.own x hx
        have h₂ := hok.own y hy
        exact absurd ⟨h₂.flOwner.trans h₁.flOwner.symm, h₂.flPid.trans h₁.flPid.symm⟩ hxy
      · exact hexcl x hx y hy z hxz hyz
    · rcases (hmem y).mp hy with hy | hy
      · exact (hexcl y hy x hx z hyz hxz).symm
      · exact h.exclusive x (hold x hx) y (hold y hy) hxy z hxz hyz

end Row

/-! ## Calls -/

section Calls

variable {others : List FileLock} {runs : List (List FileLock)} {c : Call}

/-- The pass begins with the whole run before it. -/
lemma walkInv_init (c : Call) {run : List FileLock}
    (hok : RunOk c.caller.flOwner c.caller.flPid run)
    (hwrap : c.caller.flEnd = offsetMax → ∀ fl ∈ run, fl.flType = c.caller.flType →
      fl.flEnd < c.caller.flStart - 1) :
    WalkInv c.caller run ⟨[], c.caller, none, false, none⟩ run [] none false := by
  constructor
  case map =>
    intro x t
    simp [holds_placed]
  case own => simpa using hok.own
  case sorted => exact hok.sep
  case noWrap => exact hwrap
  case posix => exact c.posix
  case ordered => exact c.ordered
  case lower => exact ⟨c.nonneg, le_refl _⟩
  case upper => exact ⟨le_refl _, c.bounded⟩
  all_goals simp

/-- The locks in front of the caller's own. -/
lemma skipOthers_eq {pre post : List FileLock}
    (hpre : ∀ fl ∈ pre, ¬ fl.OwnedBy c.caller.flOwner c.caller.flPid)
    (hpost : ∀ fl ∈ post.head?, fl.OwnedBy c.caller.flOwner c.caller.flPid) :
    skipOthers c.caller (pre ++ post) = (pre, post) := by
  have htest : ∀ fl : FileLock, (decide (fl.flFlags ≠ .posix) || !locksSameOwner c.caller fl) ↔
      ¬ fl.OwnedBy c.caller.flOwner c.caller.flPid := by
    intro fl
    simp only [FileLock.OwnedBy, locksSameOwner, Bool.or_eq_true, decide_eq_true_eq,
      Bool.not_eq_true', Bool.and_eq_false_iff, decide_eq_false_iff_not]
    constructor
    · rintro (h | h) ⟨h₁, h₂, h₃⟩
      · exact h h₁
      · exact h.elim (fun h => h h₂.symm) (fun h => h h₃.symm)
    · intro h
      by_contra hno
      push Not at hno
      exact h ⟨hno.1, hno.2.1.symm, hno.2.2.symm⟩
  unfold skipOthers
  rw [span_eq_takeWhile_dropWhile]
  have hall : ∀ fl ∈ pre, (decide (fl.flFlags ≠ .posix) || !locksSameOwner c.caller fl) :=
    fun fl hfl => (htest fl).mpr (hpre fl hfl)
  rw [takeWhile_append_of_pos hall, dropWhile_append_of_pos hall]
  cases post with
  | nil => simp
  | cons fl post =>
    have hstop : ¬ (decide (fl.flFlags ≠ .posix) || !locksSameOwner c.caller fl) :=
      fun h => (htest fl).mp h (hpost fl rfl)
    rw [takeWhile_cons, dropWhile_cons, if_neg hstop, if_neg hstop, append_nil]

/-- Without a conflict, a lock of someone else that meets the request is read, as it is. -/
lemma read_of_no_conflict {y : FileLock} {z : ℤ} (hy : Own y.flOwner y.flPid y)
    (hforeign : ¬ (y.flOwner = c.caller.flOwner ∧ y.flPid = c.caller.flPid))
    (hno : posixLocksConflict c.caller y = false) (hlock : c.caller.flType ≠ .unlck)
    (hz : c.caller.Has z) (hyz : y.Has z) : c.caller.flType = .rdlck ∧ y.flType = .rdlck := by
  obtain ⟨h₁, h₂⟩ := hz
  obtain ⟨h₃, h₄⟩ := hyz
  have hover : locksOverlap c.caller y := by
    simp only [locksOverlap, Bool.and_eq_true, decide_eq_true_eq]
    exact ⟨by omega, by omega⟩
  have hsame : locksSameOwner c.caller y = false := by
    by_contra hs
    simp only [locksSameOwner, Bool.not_eq_false, Bool.and_eq_true, decide_eq_true_eq] at hs
    exact hforeign ⟨hs.1.symm, hs.2.symm⟩
  have hconf : locksConflict c.caller y = false := by
    simpa [posixLocksConflict, hy.posix, hsame, hover] using hno
  have hylock := hy.locked
  cases hct : c.caller.flType with
  | unlck => exact absurd hct hlock
  | wrlck => simp [locksConflict, hct] at hconf
  | rdlck =>
    simp only [locksConflict, hct, decide_eq_false_iff_not] at hconf
    refine ⟨rfl, ?_⟩
    cases hyt : y.flType with
    | rdlck => rfl
    | wrlck => exact absurd hyt hconf
    | unlck => exact absurd hyt hylock

/-- A call that goes through changes the caller's run, by what it asks for. -/
lemma granted_spec (h : Row others runs)
    (hno : c.caller.flType ≠ .unlck → ∀ fl ∈ runs.flatten, posixLocksConflict c.caller fl = false)
    (hwrap : c.caller.flEnd = offsetMax → ∀ fl ∈ runs.flatten,
      fl.OwnedBy c.caller.flOwner c.caller.flPid → fl.flType = c.caller.flType →
      fl.flEnd < c.caller.flStart - 1) :
    ∃ runs', (skipOthers c.caller (others ++ runs.flatten)).1 ++
        finishLocks (processLocks ⟨[], c.caller, none, false, none⟩
          (skipOthers c.caller (others ++ runs.flatten)).2) = others ++ runs'.flatten ∧
      Row others runs' := by
  obtain ⟨before, run, behind, hflat, hrow, hok, hforeign, hlast⟩ :=
    h.split c.caller.flOwner c.caller.flPid
  have hmem : ∀ x ∈ run, x ∈ runs.flatten := by
    intro x hx
    rw [hflat]
    simp [hx]
  have hother : ∀ x ∈ before.flatten ++ behind.flatten, x ∈ runs.flatten := by
    intro x hx
    rw [hflat]
    simp only [flatten_append, mem_append] at hx ⊢
    tauto
  have hsplit : others ++ runs.flatten = (others ++ before.flatten) ++ (run ++ behind.flatten) := by
    rw [hflat]
    simp
  have hskip : skipOthers c.caller (others ++ runs.flatten) =
      (others ++ before.flatten, run ++ behind.flatten) := by
    rw [hsplit]
    refine skipOthers_eq ?_ ?_
    · intro fl hfl howned
      rcases mem_append.mp hfl with hfl | hfl
      · exact h.notPosix fl hfl howned.1
      · exact hforeign fl (mem_append_left _ hfl) howned.2
    · intro fl hfl
      cases run with
      | nil =>
        rw [hlast rfl] at hfl
        simp at hfl
      | cons a run =>
        obtain rfl : a = fl := by simpa using hfl
        have hown := hok.own a mem_cons_self
        exact ⟨hown.posix, hown.flOwner, hown.flPid⟩
  have hinit := walkInv_init c hok fun he fl hfl ht => by
    have hown := hok.own fl hfl
    exact hwrap he fl (hmem fl hfl) ⟨hown.posix, hown.flOwner, hown.flPid⟩ ht
  obtain ⟨run', hfinish, hok', hover⟩ :=
    processLocks_spec (fun fl hfl => hforeign fl
      (mem_append_right _ (mem_of_mem_head? hfl))) run hinit
  refine ⟨before ++ [run'] ++ behind, ?_, hrow.replace hok' hforeign ?_⟩
  · rw [hskip]
    rw [hfinish]
    simp
  · -- what the run holds it held before, or the caller asked for it
    intro x hx y hy z hxz hyz
    rcases (hover z x.flType).mp ⟨x, hx, hxz, rfl⟩ with ⟨hz, htype, hlock⟩ | ⟨-, hold⟩
    · rw [htype] at hlock ⊢
      exact read_of_no_conflict (h.own (hother y hy)) (hforeign y hy)
        (hno hlock y (hother y hy)) hlock hz hyz
    · obtain ⟨x₀, hx₀, hxz₀, ht⟩ := hold
      have hown := hok.own x₀ hx₀
      rw [← ht]
      refine h.exclusive x₀ (hmem x₀ hx₀) y (hother y hy) ?_ z hxz₀ hyz
      unfold Foreign
      rw [hown.flOwner, hown.flPid]
      exact hforeign y hy

/-- **`posix_lock_file`** keeps the list a row of runs. -/
theorem posixLockFile_spec (h : Row others runs) (hwrap : NoWrap (others ++ runs.flatten) c) :
    ∃ runs', (posixLockFile (others ++ runs.flatten) c.caller c.wait c.allocated c.deadlock).2 =
      others ++ runs'.flatten ∧ Row others runs' := by
  unfold posixLockFile
  split_ifs with halloc hconf hwait hdead
  iterate 4 exact ⟨runs, rfl, h⟩
  · have hgranted : c.Granted (others ++ runs.flatten) := by
      refine ⟨by simpa using halloc, fun hlock fl hfl hposix => ?_⟩
      by_contra hc
      refine hconf ?_
      simp only [Bool.and_eq_true, decide_eq_true_eq, any_eq_true]
      exact ⟨hlock, fl, hfl, hposix, by simpa using hc⟩
    refine granted_spec h ?_ fun he fl hfl => hwrap hgranted he fl (mem_append_right _ hfl)
    exact fun hlock fl hfl => hgranted.2 hlock fl (mem_append_right _ hfl) (h.own hfl).posix

end Calls

/-! ## Sequences of calls -/

lemma Row.sound {others : List FileLock} {runs : List (List FileLock)} (h : Row others runs) :
    Sound (others ++ runs.flatten) := by
  constructor
  · intro owner pid
    obtain ⟨before, run, behind, hflat, -, hok, hforeign, -⟩ := h.split owner pid
    refine ⟨others ++ before.flatten, run, behind.flatten, ?_, ?_, ?_, ?_⟩
    · rw [hflat]
      simp
    · intro fl hfl
      have hown := hok.own fl hfl
      exact ⟨hown.posix, hown.flOwner, hown.flPid⟩
    · intro fl hfl howned
      simp only [mem_append, or_assoc] at hfl
      rcases hfl with hfl | hfl
      · exact h.notPosix fl hfl howned.1
      · exact hforeign fl (mem_append.mpr hfl) howned.2
    · refine hok.sep.imp_of_mem fun {a b} ha _ hsep => ?_
      have hord := (hok.own a ha).ordered
      exact ⟨by have := hsep.1; omega, hsep.1, hsep.2⟩
  · intro x hx y hy hxp hyp hforeign hover
    have hflat : ∀ fl ∈ others ++ runs.flatten, fl.flFlags = .posix → fl ∈ runs.flatten := by
      intro fl hfl hp
      exact (mem_append.mp hfl).resolve_left fun ho => h.notPosix fl ho hp
    have hx' := hflat x hx hxp
    have hy' := hflat y hy hyp
    have hxo := (h.own hx').ordered
    have hyo := (h.own hy').ordered
    simp only [locksOverlap, Bool.and_eq_true, decide_eq_true_eq] at hover
    refine h.exclusive x hx' y hy' (fun he => hforeign ⟨hyp, he⟩) (max x.flStart y.flStart) ?_ ?_
    · exact ⟨le_max_left _ _, max_le hxo hover.1⟩
    · exact ⟨le_max_right _ _, max_le hover.2 hyo⟩

/-- **POSIX locks.** In every sequence of calls, by any owners and with any outcomes, in which no
end of a range wraps, the list is as it should be after every call. -/
theorem locks_sound_of_noWrap {init list : List FileLock} (hinit : ∀ fl ∈ init, fl.flFlags ≠ .posix)
    {calls : List Call} {outcomes : List Outcome}
    (hrun : Exec step NoWrap init calls outcomes list) : Sound list := by
  have hrow : ∃ others runs, list = others ++ runs.flatten ∧ Row others runs := by
    refine hrun.invariant_state
      (P := fun list => ∃ others runs, list = others ++ runs.flatten ∧ Row others runs)
      ⟨init, [], by simp, hinit, by simp, Pairwise.nil, by simp⟩ ?_
    rintro _ c list' outs ⟨others, runs, rfl, hrow⟩ hwrap hstep
    obtain ⟨runs', heq, hrow'⟩ := posixLockFile_spec hrow hwrap
    cases hstep
    exact ⟨others, runs', heq, hrow'⟩
  obtain ⟨others, runs, rfl, hrow⟩ := hrow
  exact hrow.sound

/-- A call of the first process that does not wait. -/
def lockCall (t : LockType) (start stop : ℤ) (h : 0 ≤ start ∧ start ≤ stop ∧ stop ≤ offsetMax) :
    Call where
  caller := ⟨1, 1, .posix, t, start, stop⟩
  wait := false
  allocated := true
  deadlock := false
  posix := rfl
  nonneg := h.1
  ordered := h.2.1
  bounded := h.2.2

/-- Lock to the end of the file, then give back a part in the middle. -/
theorem locks_sound_of_noWrap_unlock :
    ∃ outcomes list, Exec step NoWrap []
      [lockCall .rdlck 0 offsetMax (by decide), lockCall .unlck 5 9 (by decide)] outcomes list ∧
      list = [⟨1, 1, .posix, .rdlck, 0, 4⟩, ⟨1, 1, .posix, .rdlck, 10, offsetMax⟩] ∧
      Sound list := by
  have hlock : Exec step NoWrap [] [lockCall .rdlck 0 offsetMax (by decide)] [.ok]
      [⟨1, 1, .posix, .rdlck, 0, offsetMax⟩] := by
    refine Exec.single ?_ (by decide +kernel)
    intro _ _ fl hfl
    simp at hfl
  have hunlock : Exec step NoWrap [⟨1, 1, .posix, .rdlck, 0, offsetMax⟩]
      [lockCall .unlck 5 9 (by decide)] [.ok]
      [⟨1, 1, .posix, .rdlck, 0, 4⟩, ⟨1, 1, .posix, .rdlck, 10, offsetMax⟩] := by
    refine Exec.single ?_ (by decide +kernel)
    intro _ he
    exact absurd he (by decide)
  have hrun := hlock.trans hunlock
  exact ⟨_, _, hrun, rfl, locks_sound_of_noWrap (by simp) hrun⟩

/-- Read from 0 to 10, then from 5 to the end: the locks overlap, and the later one comes
first. -/
theorem read_to_end_overlaps :
    ∃ calls outcomes list, Exec step anyStep [] calls outcomes list ∧ ¬ Sound list := by
  refine ⟨[lockCall .rdlck 0 10 (by decide), lockCall .rdlck 5 offsetMax (by decide)],
    exists_comm.1 (Exec.exists_of_decide (fun list _ => list =
      [⟨1, 1, .posix, .rdlck, 5, offsetMax⟩, ⟨1, 1, .posix, .rdlck, 0, 10⟩]) (by decide +kernel) ?_)⟩
  intro list _ _ hlist' hsound
  obtain ⟨pre, run, post, heq, -, hout, hsorted⟩ := hsound.runs 1 1
  have hall : ∀ fl ∈ list, fl.OwnedBy 1 1 := by
    rw [hlist']
    intro fl hfl
    rcases (by simpa using hfl) with rfl | rfl
    all_goals exact ⟨rfl, rfl, rfl⟩
  -- nothing stands outside the run
  have hpre : pre = [] := eq_nil_iff_forall_not_mem.mpr fun fl hfl =>
    hout fl (by simp [hfl]) (hall fl (by simp [heq, hfl]))
  have hpost : post = [] := eq_nil_iff_forall_not_mem.mpr fun fl hfl =>
    hout fl (by simp [hfl]) (hall fl (by simp [heq, hfl]))
  rw [hpre, hpost, nil_append, append_nil, hlist'] at heq
  rw [← heq] at hsorted
  have hfirst := rel_of_pairwise_cons hsorted (mem_singleton_self _)
  exact absurd hfirst.1 (by decide)

end PsxLinux.Locks
