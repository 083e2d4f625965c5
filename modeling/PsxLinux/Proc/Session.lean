import PsxLinux.Proc.RunTheorems

/-!
# Process groups and sessions

`sys_setpgid` and `sys_setsid` over the process tree. The numbers of tasks are their pids, so a task
is what `find_task_by_pid` finds. A fork copies the ids of the current task; the errors of a fork that
come before the new task is linked are an argument. The terminal of a session is left out.
-/

namespace PsxLinux.Proc.Session

open Lib Function

def EPERM : ℤ := 1
def ESRCH : ℤ := 3
def EACCES : ℤ := 13
def EINVAL : ℤ := 22

/-- The tasks with their groups and sessions. -/
structure Jobs extends Procs where
  pgrp : ℕ → ℕ
  session : ℕ → ℕ
  leader : ℕ → Bool
  didExec : ℕ → Bool

/-- `do_fork`; `alloc` is the pid of the new task or the error. -/
def doFork (s : Jobs) (cur : ℕ) (flags : CloneFlags) (alloc : Except ℕ ℕ) : Jobs × ℤ :=
  match alloc with
  | .error e => (s, -e)
  | .ok p =>
    ({ toProcs := s.toProcs.doFork cur flags (some p)
       pgrp := update s.pgrp p (s.pgrp cur)
       session := update s.session p (s.session cur)
       leader := update s.leader p false
       didExec := update s.didExec p false }, p)

def sysSetpgid (s : Jobs) (cur : ℕ) (pid pgid : ℤ) : Jobs × ℤ :=
  let pid := if pid = 0 then ↑cur else pid
  let pgid := if pgid = 0 then pid else pgid
  let p := pid.toNat
  let child : Bool := s.pPptr p = cur ∨ s.pOpptr p = cur
  if pgid < 0 then (s, -EINVAL)
  else if pid < 0 ∨ p ∉ s.tasks then (s, -ESRCH)
  else if child ∧ s.session p ≠ s.session cur then (s, -EPERM)
  else if child ∧ s.didExec p then (s, -EACCES)
  else if ¬ child ∧ p ≠ cur then (s, -ESRCH)
  else if s.leader p then (s, -EPERM)
  else if pgid ≠ pid ∧ ¬ ∃ tmp ∈ s.tasks, s.pgrp tmp = pgid ∧ s.session tmp = s.session cur then
    (s, -EPERM)
  else ({ s with pgrp := update s.pgrp p pgid.toNat }, 0)

def sysSetsid (s : Jobs) (cur : ℕ) : Jobs × ℤ :=
  if ∃ p ∈ s.tasks, s.pgrp p = cur then (s, -EPERM)
  else
    ({ s with
      leader := update s.leader cur true
      session := update s.session cur cur
      pgrp := update s.pgrp cur cur }, cur)

/-- The calls, and what happens to a task that is waited for. -/
inductive Act
  | fork (cur : ℕ) (flags : CloneFlags) (alloc : Except ℕ ℕ)
  | exec (cur : ℕ)
  | exit (cur : ℕ)
  | reap (p : ℕ)
  | setpgid (cur : ℕ) (pid pgid : ℤ)
  | setsid (cur : ℕ)

/-- A running task calls, and a zombie is reaped. A new pid is no pid, group or session of a task. -/
def Act.Enabled (s : Jobs) : Act → Prop
  | .fork cur _ alloc => (cur ∈ s.tasks ∧ s.zombie cur = false) ∧ ∀ p, alloc = .ok p →
      ∀ q ∈ s.tasks, p ≠ q ∧ p ≠ s.pgrp q ∧ p ≠ s.session q
  | .reap p => p ∈ s.tasks ∧ s.zombie p
  | .exec cur | .exit cur | .setpgid cur _ _ | .setsid cur => cur ∈ s.tasks ∧ s.zombie cur = false

/-- One call, with the value it returns. -/
def step (s : Jobs) : Act → Option (Jobs × List ℤ)
  | .fork cur flags alloc =>
    let r := doFork s cur flags alloc
    some (r.1, [r.2])
  | .exec cur => some ({ s with didExec := update s.didExec cur true }, [])
  | .exit cur => (s.exitNotify cur).map fun procs => ({ s with toProcs := procs }, [])
  | .reap p => some ({ s with toProcs := s.reapZombie p }, [])
  | .setpgid cur pid pgid =>
    let r := sysSetpgid s cur pid pgid
    some (r.1, [r.2])
  | .setsid cur =>
    let r := sysSetsid s cur
    some (r.1, [r.2])

/-! ## Confinement -/

/-- A group lies in one session, also the task whose pid is the number of the group, and a session
leader leads its group and its session. -/
structure Jobs.Confined (s : Jobs) : Prop where
  group : ∀ p ∈ s.tasks, ∀ q ∈ s.tasks, s.pgrp p = s.pgrp q → s.session p = s.session q
  first : ∀ p ∈ s.tasks, ∀ q ∈ s.tasks, p = s.pgrp q → s.session p = s.session q
  leader : ∀ p ∈ s.tasks, s.leader p → s.pgrp p = p ∧ s.session p = p

/-- What a call that returns `es` keeps; the task `gone` may be released. -/
structure Kept (s : Jobs) (gone : ℕ → Prop) (es : List ℤ) (t : Jobs) : Prop where
  confined : t.Confined
  leaders : ∀ p ∈ s.tasks, s.leader p → ¬ gone p → p ∈ t.tasks ∧ t.leader p
  failed : (∃ e ∈ es, e < 0) → t = s

variable {s t : Jobs} {cur p g : ℕ} {gone : ℕ → Prop}

lemma Jobs.Confined.refl (h : s.Confined) (es : List ℤ) : Kept s gone es s :=
  ⟨h, fun _ hp hl _ => ⟨hp, hl⟩, fun _ => rfl⟩

/-- Only the links change, and tasks go. -/
lemma Jobs.Confined.links (h : s.Confined) {procs : Procs} (hsub : procs.tasks ⊆ s.tasks)
    (hkeep : ∀ q ∈ s.tasks, ¬ gone q → q ∈ procs.tasks) :
    Kept s gone [] { s with toProcs := procs } where
  confined :=
    { group := fun p hp q hq => h.group p (hsub hp) q (hsub hq)
      first := fun p hp q hq => h.first p (hsub hp) q (hsub hq)
      leader := fun p hp => h.leader p (hsub hp) }
  leaders := fun p hp hl hg => ⟨hkeep p hp hg, hl⟩
  failed := by simp

/-- One task gets other ids, such that its new group and the group with its pid lie in its session. -/
lemma Jobs.Confined.change (h : s.Confined) {procs : Procs} {n : ℕ} {l : Bool} {d : ℕ → Bool}
    (hold : ∀ q ∈ procs.tasks, q ≠ p → q ∈ s.tasks)
    (hnew : ∀ q ∈ s.tasks, q ≠ p → s.pgrp q = g ∨ q = g ∨ p = s.pgrp q → s.session q = n)
    (hl : l → g = p ∧ n = p) :
    Jobs.Confined ⟨procs, update s.pgrp p g, update s.session p n, update s.leader p l, d⟩ where
  group := by
    intro a ha b hb
    by_cases hap : a = p <;> by_cases hbp : b = p
    all_goals grind [h.group a]
  first := by
    intro a ha b hb
    by_cases hap : a = p <;> by_cases hbp : b = p
    all_goals grind [h.first a]
  leader := by grind [h.leader]

lemma doFork_kept (h : s.Confined) {flags : CloneFlags} {alloc : Except ℕ ℕ}
    (hen : (Act.fork cur flags alloc).Enabled s) :
    Kept s gone [(doFork s cur flags alloc).2] (doFork s cur flags alloc).1 := by
  obtain ⟨⟨hcur, -⟩, hfresh⟩ := hen
  cases alloc with
  | error e => exact h.refl _
  | ok p =>
    have hp := hfresh p rfl
    have htasks : (s.toProcs.doFork cur flags (some p)).tasks = s.tasks ++ [p] := by
      simp only [Procs.doFork, Procs.setLinks]
      split_ifs <;> rfl
    refine ⟨h.change ?_ ?_ (by simp), ?_, by simp [doFork]⟩
    · intro q hq hqp
      simpa [htasks, hqp] using hq
    · rintro q hq - (hids | hids | hids)
      · exact h.group q hq cur hcur hids
      · exact h.first q hq cur hcur hids
      · exact absurd hids (hp q hq).2.1
    · intro q hq hl _
      exact ⟨by simp [doFork, htasks, hq], (update_of_ne (hp q hq).1.symm ..).trans hl⟩

/-- The group that a task joins is that of its pid or one of its session. -/
lemma sysSetpgid_kept (h : s.Confined) (pid pgid : ℤ) :
    Kept s gone [(sysSetpgid s cur pid pgid).2] (sysSetpgid s cur pid pgid).1 := by
  unfold sysSetpgid
  extract_lets pid pgid p child
  split_ifs with h₁ h₂ h₃ h₄ h₅ h₆ h₇
  iterate 7 exact h.refl _
  push Not at h₂ h₃ h₅ h₇
  have hsession : s.session p = s.session cur := by
    by_cases hc : child
    · exact h₃ hc
    · rw [h₅ hc]
  have hfirst : ∀ q ∈ s.tasks, p = s.pgrp q → s.session q = s.session p := fun q hq hids =>
    (h.first p h₂.2 q hq hids).symm
  refine ⟨?_, fun q hq hl _ => ⟨hq, hl⟩, by simp⟩
  rw [← update_eq_self p s.session, ← update_eq_self p s.leader]
  refine h.change (fun q hq _ => hq) ?_ (absurd · h₆)
  rintro q hq hqp (hids | hids | hids)
  · by_cases hown : pgid = pid
    · exact hfirst q hq (by rw [hids, hown])
    · obtain ⟨tmp, htmp, hpgrp, hsess⟩ := h₇ hown
      rw [hsession, ← hsess]
      exact h.group q hq tmp htmp (by omega)
  · obtain ⟨tmp, htmp, hpgrp, hsess⟩ := h₇ fun hown => hqp (by rw [hids, hown])
    rw [hsession, ← hsess]
    exact h.first q hq tmp htmp (by omega)
  · exact hfirst q hq hids

lemma sysSetsid_kept (h : s.Confined) (cur : ℕ) :
    Kept s gone [(sysSetsid s cur).2] (sysSetsid s cur).1 := by
  unfold sysSetsid
  split_ifs with hg
  · exact h.refl _
  · push Not at hg
    refine ⟨h.change (fun q hq _ => hq) ?_ (by simp), fun q hq hl _ => ⟨hq, ?_⟩, by simp⟩
    · rintro q hq hqp (hids | hids | hids)
      · exact absurd hids (hg q hq)
      · exact absurd hids hqp
      · exact absurd hids.symm (hg q hq)
    · show update s.leader cur true q
      by_cases hqc : q = cur <;> simp [hqc, hl]

lemma tasks_moveChildren {fuel : ℕ} {procs procs' : Procs}
    (h : Procs.moveChildren fuel procs cur = some procs') : procs'.tasks = procs.tasks := by
  induction fuel generalizing procs with
  | zero => cases h
  | succ fuel ih =>
    rw [Procs.moveChildren] at h
    split at h
    · cases h
      rfl
    · exact (ih h).trans rfl

/-- The release of a task takes it out of the list; the return to another parent does not. -/
lemma reapZombie_kept (h : s.Confined) (hp : p ∈ s.tasks) :
    Kept s (· = p) [] { s with toProcs := s.reapZombie p } := by
  have hkeep : ∀ q ∈ s.tasks, q ≠ p → q ∈ s.tasks.erase p := fun q hq hqp =>
    (List.mem_erase_of_ne hqp).2 hq
  unfold Procs.reapZombie
  split_ifs
  · refine h.links (List.append_subset.2 ⟨List.erase_subset, by simpa using hp⟩) ?_
    intro q hq hqp
    exact List.mem_append_left _ (hkeep q hq hqp)
  · exact h.links List.erase_subset hkeep

lemma step_kept {act : Act} {es : List ℤ} (h : s.Confined) (hen : act.Enabled s)
    (hstep : step s act = some (t, es)) : Kept s (fun p => act = .reap p) es t := by
  cases act with
  | fork cur flags alloc =>
    cases hstep
    exact doFork_kept h hen
  | exec cur =>
    cases hstep
    exact ⟨⟨h.group, h.first, h.leader⟩, fun p hp hl _ => ⟨hp, hl⟩, by simp⟩
  | exit cur =>
    obtain ⟨procs, hexit, ht⟩ := Option.map_eq_some_iff.1 hstep
    cases ht
    have htasks : procs.tasks = s.tasks := (tasks_moveChildren hexit).trans rfl
    exact h.links (fun q hq => htasks ▸ hq) fun q hq _ => htasks ▸ hq
  | reap p =>
    cases hstep
    simpa [eq_comm] using reapZombie_kept h hen.1
  | setpgid cur pid pgid =>
    cases hstep
    exact sysSetpgid_kept h pid pgid
  | setsid cur =>
    cases hstep
    exact sysSetsid_kept h cur

/-- **Process groups live inside one session.** From a state where it holds, two tasks of one group
are in one session, a task with the pid of a group is in the session of the group, and session leaders
lead their group; a leader stays one, with its ids, in every step but the one that reaps it; and a call
that returns an error changes nothing. -/
theorem groups_confined {s₀ s : Jobs} {acts : List Act} {es : List ℤ} (h₀ : s₀.Confined)
    (hrun : Exec step (fun s act => act.Enabled s) s₀ acts es s) :
    s.Confined ∧ ∀ act t fs, act.Enabled s → step s act = some (t, fs) →
      (∀ p ∈ s.tasks, s.leader p → act ≠ .reap p →
        p ∈ t.tasks ∧ t.leader p ∧ t.pgrp p = p ∧ t.session p = p) ∧
      ((∃ e ∈ fs, e < 0) → t = s) := by
  have hs : s.Confined :=
    hrun.invariant_state h₀ fun t act u fs ht hen hstep => (step_kept ht hen hstep).confined
  refine ⟨hs, fun act t fs hen hstep => ?_⟩
  have hkept := step_kept hs hen hstep
  refine ⟨fun p hp hl hne => ?_, hkept.failed⟩
  obtain ⟨hp', hl'⟩ := hkept.leaders p hp hl hne
  exact ⟨hp', hl', hkept.confined.leader p hp' hl'⟩

/-- After boot, with `init` in a group and a session of its own. -/
def bootJobs : Jobs := ⟨bootProcs, fun _ => 1, fun _ => 1, fun p => p == 1, fun _ => false⟩

/-- Task 2 starts a session and puts its child into a group of its own. -/
theorem groups_confined_child : ∃ s es, Exec step (fun s act => act.Enabled s) bootJobs
      [.fork 1 plainFork (.ok 2), .setsid 2, .fork 2 plainFork (.ok 3), .setpgid 2 3 0] es s ∧
    (es = [2, 2, 3, 0] ∧ s.pgrp 3 = 3 ∧ s.session 3 = 2) ∧ s.Confined := by
  refine Exec.exists_imp (P := fun s es => es = [2, 2, 3, 0] ∧ s.pgrp 3 = 3 ∧ s.session 3 = 2) ?_
    fun s es hrun hend => ⟨hend,
      (groups_confined ⟨fun _ _ _ _ _ => rfl, fun _ _ _ _ _ => rfl, ?_⟩ hrun).1⟩
  · refine ⟨_, _, .tail (.tail (.tail (.tail (.refl _) ⟨by decide, ?_⟩ rfl)
      ⟨by decide, by decide⟩ rfl) ⟨by decide, ?_⟩ rfl) ⟨by decide, by decide⟩ rfl, by decide⟩
    all_goals
      rintro p ⟨⟩
      decide
  · intro p _ hl
    obtain rfl : p = 1 := beq_iff_eq.1 hl
    exact ⟨rfl, rfl⟩

end PsxLinux.Proc.Session
