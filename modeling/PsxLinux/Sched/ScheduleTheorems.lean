import PsxLinux.Sched.Schedule

/-!
# What a pass through `schedule` selects

`Sys.Ok` relates the run queue to the states of the tasks and bounds their counters; every action keeps
it. A pass selects a task of the greatest weight, and the idle task only if the run queue is empty.
-/

namespace PsxLinux.Sched

open Function List Lib

/-! ## Weights -/

/-- A task that is not real-time. -/
structure Task.Ok (t : Task) : Prop where
  counter : 0 ≤ t.counter
  niceLow : -20 ≤ t.nice
  niceHigh : t.nice ≤ 19
  policy : t.policy = .other

/-- The idle task, as `cpu_idle` sets it up. -/
structure Task.IdleOk (t : Task) : Prop where
  counter : t.counter = -100
  nice : t.nice = 20
  policy : t.policy = .other
  yield : t.yield = false
  mm : t.mm = none
  state : t.state = .running

section Goodness
variable {t : Task} {mm : Nat}

lemma niceToTicks_pos {nice : Int} (h : nice ≤ 19) : 1 ≤ niceToTicks nice := by
  unfold niceToTicks
  omega

lemma goodness_yield (h : t.yield) : goodness t mm = -1 := if_pos h

lemma Task.Ok.goodness_zero (h : t.Ok) (hyield : t.yield = false) (hcounter : t.counter = 0) :
    goodness t mm = 0 := by
  unfold goodness
  rw [if_neg (by simp [hyield]), if_pos h.policy, if_pos hcounter]

lemma Task.Ok.goodness_pos (h : t.Ok) (hyield : t.yield = false) (hcounter : 0 < t.counter) :
    0 < goodness t mm := by
  unfold goodness
  rw [if_neg (by simp [hyield]), if_pos h.policy]
  have hnice := h.niceHigh
  split <;> omega

/-- The goodness of a task that yields, has used its time up, or has some left. -/
lemma Task.Ok.goodness_cases (h : t.Ok) : (t.yield ∧ goodness t mm = -1) ∨
    (t.yield = false ∧ t.counter = 0 ∧ goodness t mm = 0) ∨
    (t.yield = false ∧ 0 < t.counter ∧ 0 < goodness t mm) := by
  cases hyield : t.yield with
  | true => exact .inl ⟨rfl, goodness_yield hyield⟩
  | false =>
    rcases Int.lt_or_eq_of_le h.counter with hpos | hzero
    · exact .inr (.inr ⟨rfl, hpos, h.goodness_pos hyield hpos⟩)
    · exact .inr (.inl ⟨rfl, hzero.symm, h.goodness_zero hyield hzero.symm⟩)

lemma Task.Ok.goodness_ge (h : t.Ok) : -1 ≤ goodness t mm := by
  rcases @h.goodness_cases _ mm with ⟨-, hw⟩ | ⟨-, -, hw⟩ | ⟨-, -, hw⟩ <;> omega

/-- Every task is better than the idle task. -/
lemma Task.IdleOk.goodness (h : t.IdleOk) : goodness t mm = -99 := by
  unfold Sched.goodness
  rw [if_neg (by simp [h.yield]), if_pos h.policy, if_neg (by rw [h.counter]; decide), h.counter,
    h.nice, h.mm]
  simp

end Goodness

/-! ## The invariant -/

/-- The lists and tasks without regard to the running task. -/
structure Sys.Base (s : Sys) : Prop where
  nodup : s.all.Nodup
  noIdle : idle ∉ s.all
  queueNodup : s.runqueue.Nodup
  queueAll : ∀ p ∈ s.runqueue, p ∈ s.all
  queued : ∀ p ∈ s.all, p ≠ s.current → (p ∈ s.runqueue ↔ (s.tasks p).state = .running)
  current : s.current = idle ∨ s.current ∈ s.all
  task : ∀ p ∈ s.all, (s.tasks p).Ok
  idleTask : (s.tasks idle).IdleOk

/-- The running task, too, is on the run queue if and only if its state says so. -/
def Sys.Agrees (s : Sys) : Prop :=
  s.current ≠ idle → (s.current ∈ s.runqueue ↔ (s.tasks s.current).state = .running)

/-- The invariant. Outside `schedule` the running task is on the run queue whatever its state, and
the idle task knows when another task can run. -/
structure Sys.Ok (s : Sys) : Prop extends s.Base where
  outside : s.phase = .outside → s.current ≠ idle → s.current ∈ s.runqueue
  inside : s.phase ≠ .outside → s.Agrees
  idleAsked : s.current = idle → s.phase = .outside →
    s.runqueue = [] ∨ (s.tasks idle).needResched

namespace Sys

variable {s t : Sys} {p : Nat}

lemma Base.ne_idle (h : s.Base) (hp : p ∈ s.all) : p ≠ idle := by
  rintro rfl
  exact h.noIdle hp

lemma Base.queue_ne_idle (h : s.Base) (hp : p ∈ s.runqueue) : p ≠ idle :=
  h.ne_idle (h.queueAll p hp)

lemma Base.mem_all_current (h : s.Base) (hne : s.current ≠ idle) : s.current ∈ s.all :=
  h.current.resolve_left hne

section Frame
variable (tasks : Nat → Task) {mustSchedule : Bool}
  (hstate : ∀ p, (tasks p).state = (s.tasks p).state) (htask : ∀ p ∈ s.all, (tasks p).Ok)
  (hidle : (tasks idle).IdleOk)
include hstate htask hidle

lemma Base.frame (h : s.Base) {phase : Phase} :
    Base { s with tasks := tasks, phase := phase, mustSchedule := mustSchedule } := by
  refine ⟨h.nodup, h.noIdle, h.queueNodup, h.queueAll, ?_, h.current, htask, hidle⟩
  intro p hp hne
  exact (h.queued p hp hne).trans (Eq.congr_left (hstate p)).symm

lemma Ok.frame (h : s.Ok)
    (hasked : (s.tasks idle).needResched → (tasks idle).needResched) :
    Ok { s with tasks := tasks, mustSchedule := mustSchedule } := by
  refine ⟨h.toBase.frame tasks hstate htask hidle, h.outside, ?_, ?_⟩
  · intro hinside hne
    exact (h.inside hinside hne).trans (Eq.congr_left (hstate _)).symm
  · exact fun hcurrent houtside => (h.idleAsked hcurrent houtside).imp_right hasked

end Frame

variable {f : Task → Task}

lemma modify_tasks_self : (s.modify p f).tasks p = f (s.tasks p) :=
  update_self ..

lemma modify_tasks_of_ne {q : Nat} (h : q ≠ p) : (s.modify p f).tasks q = s.tasks q :=
  update_of_ne h ..

lemma modify_field {α : Type} (g : Task → α) (h : g (f (s.tasks p)) = g (s.tasks p)) (q : Nat) :
    g ((s.modify p f).tasks q) = g (s.tasks q) := by
  by_cases hq : q = p
  · rw [hq, modify_tasks_self, h]
  · rw [modify_tasks_of_ne hq]

/-- A change of one task. -/
lemma Base.modify_task (h : s.Base) (hf : (s.tasks p).Ok → (f (s.tasks p)).Ok) :
    ∀ q ∈ s.all, ((s.modify p f).tasks q).Ok := by
  intro q hq
  by_cases hqp : q = p
  · subst hqp
    rw [modify_tasks_self]
    exact hf (h.task q hq)
  · rw [modify_tasks_of_ne hqp]
    exact h.task q hq

lemma Base.modify_idle (h : s.Base) (hf : p = idle → (s.tasks p).IdleOk → (f (s.tasks p)).IdleOk) :
    ((s.modify p f).tasks idle).IdleOk := by
  by_cases hp : p = idle
  · subst hp
    exact hf rfl h.idleTask
  · rw [modify_tasks_of_ne (Ne.symm hp)]
    exact h.idleTask

lemma Base.needResched (h : s.Base) (p : Nat) (v : Bool) :
    (s.modify p fun t => { t with needResched := v }).Base := by
  refine h.frame (s.modify p fun t => { t with needResched := v }).tasks
    (modify_field Task.state rfl) (h.modify_task ?_) (h.modify_idle ?_)
  · exact fun ht => { ht with }
  · exact fun _ ht => { ht with }

/-- The state of a task changes: of the running one, or of one on the run queue that is woken. -/
lemma Base.setState (h : s.Base) (hne : p ≠ idle) {state : TaskState}
    (hp : p = s.current ∨ p ∈ s.runqueue ∧ state = .running) :
    (s.modify p fun t => { t with state := state }).Base := by
  refine ⟨h.nodup, h.noIdle, h.queueNodup, h.queueAll, ?_, h.current,
    h.modify_task fun ht => { ht with }, h.modify_idle fun hidle => absurd hidle hne⟩
  intro q hq (hqne : q ≠ s.current)
  by_cases hqp : q = p
  · subst hqp
    obtain ⟨hmem, rfl⟩ := hp.resolve_left hqne
    exact iff_of_true hmem (congrArg Task.state modify_tasks_self)
  · rw [modify_tasks_of_ne hqp]
    exact h.queued q hq hqne

/-! ## The selection -/

/-- The loop over the run queue finds the start or a task of the queue, and nothing is better. -/
lemma foldl_better (l : List Nat) (best : Int × Nat) :
    (l.foldl s.better best = best ∨
      (l.foldl s.better best).2 ∈ l ∧ (l.foldl s.better best).1 =
        goodness (s.tasks (l.foldl s.better best).2) s.activeMm) ∧
    best.1 ≤ (l.foldl s.better best).1 ∧
    ∀ p ∈ l, goodness (s.tasks p) s.activeMm ≤ (l.foldl s.better best).1 := by
  induction l generalizing best with
  | nil => exact ⟨.inl rfl, Int.le_refl _, nofun⟩
  | cons q l ih =>
    have hstep : s.better best q = best ∧ goodness (s.tasks q) s.activeMm ≤ best.1 ∨
        s.better best q = (goodness (s.tasks q) s.activeMm, q) ∧
          best.1 < goodness (s.tasks q) s.activeMm := by
      unfold better
      dsimp only
      split
      case isTrue hlt => exact .inr ⟨rfl, hlt⟩
      case isFalse hle => exact .inl ⟨rfl, Int.not_lt.1 hle⟩
    rw [foldl_cons]
    rcases hstep with ⟨heq, hle⟩ | ⟨heq, hlt⟩
    · obtain ⟨hmem, hbest, hall⟩ := ih best
      rw [heq]
      exact ⟨hmem.imp_right (.imp_left (mem_cons_of_mem _)), hbest,
        forall_mem_cons.2 ⟨Int.le_trans hle hbest, hall⟩⟩
    · obtain ⟨hmem, hbest, hall⟩ := ih (goodness (s.tasks q) s.activeMm, q)
      rw [heq]
      refine ⟨.inr ?_, Int.le_trans (Int.le_of_lt hlt) hbest, forall_mem_cons.2 ⟨hbest, hall⟩⟩
      rcases hmem with hsame | ⟨hin, hweight⟩
      · rw [hsame]
        exact ⟨mem_cons_self, rfl⟩
      · exact ⟨mem_cons_of_mem _ hin, hweight⟩

/-- What is picked: the idle task, if nothing is on the run queue, or a task of the run queue with the
best weight. -/
lemma Base.pick_cases (h : s.Base) (hagrees : s.Agrees) :
    (s.pick.2 = idle ∧ s.pick.1 < 0 ∧ s.runqueue = [] ∧
      (s.current = idle ∨ (s.tasks s.current).state ≠ .running)) ∨
    (s.pick.2 ∈ s.runqueue ∧ s.pick.1 = goodness (s.tasks s.pick.2) s.activeMm) := by
  obtain ⟨hmem, -, hall⟩ := @foldl_better s s.runqueue s.start
  change (s.pick = _ ∨ _ ∧ s.pick.1 = _) at hmem
  rcases hmem with hstart | hqueue
  · -- the start is left only if no task of the queue is better
    have hempty : s.pick.2 = idle → s.pick.1 < -1 → s.runqueue = [] := by
      intro _ hlow
      rw [eq_nil_iff_forall_not_mem]
      intro p hp
      have hge := @(h.task p (h.queueAll p hp)).goodness_ge _ s.activeMm
      have hle : goodness (s.tasks p) s.activeMm ≤ s.pick.1 := hall p hp
      omega
    rw [hstart] at hempty ⊢
    unfold start at hempty ⊢
    split_ifs at hempty ⊢ with hrunning
    · by_cases hidle : s.current = idle
      · left
        have hweight := @h.idleTask.goodness _ s.activeMm
        rw [hidle] at hempty ⊢
        rw [hweight] at hempty ⊢
        exact ⟨rfl, by decide, hempty rfl (by decide), .inl rfl⟩
      · right
        exact ⟨(hagrees hidle).2 hrunning, rfl⟩
    · left
      exact ⟨rfl, by decide, hempty rfl (by decide), .inr hrunning⟩
  · exact .inr hqueue

/-- Nothing on the run queue is better than what is picked. -/
lemma le_pick (hp : p ∈ s.runqueue) : goodness (s.tasks p) s.activeMm ≤ s.pick.1 :=
  (@foldl_better s s.runqueue s.start).2.2 p hp

/-- A positive weight is that of a task with time left. -/
lemma Base.pick_pos (h : s.Base) (hagrees : s.Agrees) (hpos : 0 < s.pick.1) :
    s.pick.2 ∈ s.runqueue ∧ 0 < (s.tasks s.pick.2).counter := by
  rcases h.pick_cases hagrees with ⟨-, hneg, -⟩ | ⟨hmem, hweight⟩
  · omega
  · refine ⟨hmem, ?_⟩
    have hok := h.task _ (h.queueAll _ hmem)
    rcases @hok.goodness_cases _ s.activeMm with ⟨-, hw⟩ | ⟨-, -, hw⟩ | ⟨-, hcounter, -⟩
    · omega
    · omega
    · exact hcounter

/-! ## One pass -/

/-- The switch to the task that was picked. -/
lemma Base.switchTo (h : s.Base) (hagrees : s.Agrees) : (s.switchTo s.pick.2).Ok := by
  have hnext : s.pick.2 = idle ∧ s.runqueue = [] ∨ s.pick.2 ∈ s.runqueue := by
    rcases h.pick_cases hagrees with ⟨hidle, -, hempty, -⟩ | ⟨hmem, -⟩
    · exact .inl ⟨hidle, hempty⟩
    · exact .inr hmem
  generalize s.pick.2 = next at hnext ⊢
  have hmem : next ≠ idle → next ∈ s.runqueue := fun hne => hnext.resolve_left fun hidle => hne hidle.1
  have hempty : next = idle → s.runqueue = [] := by
    rintro rfl
    exact hnext.elim And.right fun hmem => absurd rfl (h.queue_ne_idle hmem)
  unfold Sys.switchTo
  dsimp only
  split_ifs with hsame
  · subst hsame
    exact ⟨{ h with }, fun _ => hmem, absurd rfl, fun hidle _ => .inl (hempty hidle)⟩
  · -- the previous task is an ordinary one now, and its flag is gone
    have htasks : ∀ q ∈ s.all, ((s.modify s.current fun t => { t with yield := false }).tasks q).Ok :=
      h.modify_task fun ht => { ht with }
    have hidleTask : ((s.modify s.current fun t => { t with yield := false }).tasks idle).IdleOk :=
      h.modify_idle fun _ ht => ⟨ht.1, ht.2, ht.3, rfl, ht.5, ht.6⟩
    refine ⟨⟨h.nodup, h.noIdle, h.queueNodup, h.queueAll, ?_, ?_, htasks, hidleTask⟩, fun _ => hmem,
      absurd rfl, fun hidle _ => .inl (hempty hidle)⟩
    · intro q hq _
      refine Iff.trans ?_ (Eq.congr_left (modify_field Task.state rfl q)).symm
      by_cases hcur : q = s.current
      · rw [hcur]
        exact hagrees (hcur ▸ h.ne_idle hq)
      · exact h.queued q hq hcur
    · rcases hnext with ⟨hidle, -⟩ | hmem
      · exact .inl hidle
      · exact .inr (h.queueAll _ hmem)

lemma Base.repeatSchedule (h : s.Base) (hagrees : s.Agrees) : s.repeatSchedule.1.Ok := by
  unfold Sys.repeatSchedule
  dsimp only
  split_ifs
  · refine ⟨{ h with }, ?_, fun _ => hagrees, ?_⟩
    · exact fun houtside => by cases houtside
    · exact fun _ houtside => by cases houtside
  · exact h.switchTo hagrees

lemma Base.policy_current (h : s.Base) : (s.tasks s.current).policy = .other := by
  rcases h.current with hidle | hmem
  · rw [hidle]
    exact h.idleTask.policy
  · exact (h.task _ hmem).policy

/-- No task is moved to the end of the queue. -/
lemma Base.moveRrLast (h : s.Base) : s.moveRrLast = s := by
  unfold Sys.moveRrLast
  rw [if_neg]
  rintro ⟨hrr, -⟩
  rw [h.policy_current] at hrr
  cases hrr

/-- What is the same before and after a task is taken off the run queue. -/
structure Prepared (s t : Sys) : Prop where
  base : t.Base
  agrees : t.Agrees
  all : t.all = s.all
  current : t.current = s.current
  activeMm : t.activeMm = s.activeMm
  counter : ∀ p, (t.tasks p).counter = (s.tasks p).counter
  nice : ∀ p, (t.tasks p).nice = (s.tasks p).nice
  yield : ∀ p, (t.tasks p).yield = (s.tasks p).yield
  queue : ∀ p, p ≠ s.current → (p ∈ t.runqueue ↔ p ∈ s.runqueue)

lemma Base.dequeue (h : s.Base) (hstate : (s.tasks s.current).state ≠ .running) :
    Prepared s { s with runqueue := s.runqueue.erase s.current } := by
  have hqueue : ∀ p, p ≠ s.current → (p ∈ s.runqueue.erase s.current ↔ p ∈ s.runqueue) :=
    fun p hne => mem_erase_of_ne hne
  refine ⟨⟨h.nodup, h.noIdle, h.queueNodup.erase _, ?_, ?_, h.current, h.task, h.idleTask⟩, ?_, rfl,
    rfl, rfl, fun _ => rfl, fun _ => rfl, fun _ => rfl, hqueue⟩
  · intro p hp
    exact h.queueAll p (mem_of_mem_erase hp)
  · intro p hp hne
    exact (hqueue p hne).trans (h.queued p hp hne)
  · intro _
    refine iff_of_false ?_ hstate
    exact h.queueNodup.not_mem_erase

/-- A task with a pending signal stays. -/
lemma Base.setRunning (h : s.Base) (hmem : s.current ∈ s.runqueue) :
    Prepared s (s.modify s.current fun t => { t with state := .running }) := by
  have hne : s.current ≠ idle := h.queue_ne_idle hmem
  refine ⟨h.setState hne (.inl rfl), ?_, rfl, rfl, rfl, modify_field Task.counter rfl,
    modify_field Task.nice rfl, modify_field Task.yield rfl, fun _ _ => Iff.rfl⟩
  intro _
  exact iff_of_true hmem (congrArg Task.state modify_tasks_self)

section

variable (h : s.Ok) (hphase : s.phase = .outside) (signalPending : Bool)
include h hphase signalPending

lemma Ok.dequeuePrev : Prepared s (s.dequeuePrev signalPending) := by
  have hstay : (s.tasks s.current).state = .running → Prepared s s := fun hstate =>
    ⟨h.toBase, fun hne => iff_of_true (h.outside hphase hne) hstate, rfl, rfl, rfl, fun _ => rfl,
      fun _ => rfl, fun _ => rfl, fun _ _ => Iff.rfl⟩
  have hne : (s.tasks s.current).state ≠ .running → s.current ≠ idle := by
    intro hstate hidle
    rw [hidle, h.idleTask.state] at hstate
    exact hstate rfl
  unfold Sys.dequeuePrev
  split
  · exact hstay ‹_›
  · have hstate : (s.tasks s.current).state ≠ .running := by simp [*]
    split
    · exact h.toBase.setRunning (h.outside hphase (hne hstate))
    · exact h.toBase.dequeue hstate
  · exact h.toBase.dequeue ‹_›

/-- **The first half of a pass.** -/
theorem Ok.prepare :
    Prepared s (s.prepare signalPending) ∧ (s.prepare signalPending).mustSchedule = false := by
  have hclear : ({ s with mustSchedule := false } : Sys).Ok :=
    h.frame s.tasks (fun _ => rfl) h.task h.idleTask id
  have hprep := hclear.dequeuePrev hphase signalPending
  unfold Sys.prepare
  dsimp only
  rw [hclear.toBase.moveRrLast]
  generalize hu : Sys.dequeuePrev _ signalPending = u at hprep
  refine ⟨⟨hprep.base.needResched _ _, ?_, hprep.all, hprep.current, hprep.activeMm, ?_, ?_, ?_,
    hprep.queue⟩, ?_⟩
  · intro hne
    exact (hprep.agrees hne).trans (Eq.congr_left (modify_field Task.state rfl _)).symm
  · exact fun p => (modify_field Task.counter rfl p).trans (hprep.counter p)
  · exact fun p => (modify_field Task.nice rfl p).trans (hprep.nice p)
  · exact fun p => (modify_field Task.yield rfl p).trans (hprep.yield p)
  · rw [← hu]
    unfold Sys.dequeuePrev
    split
    · rfl
    · split <;> rfl
    · rfl

/-- **`schedule`** keeps the invariant. -/
lemma Ok.schedule : (s.schedule signalPending).1.Ok := by
  obtain ⟨hprep, -⟩ := h.prepare hphase signalPending
  exact hprep.base.repeatSchedule hprep.agrees

end

/-! ## The other actions -/

lemma Ok.setYield (h : s.Ok) (hne : s.current ≠ idle) (v : Bool) :
    (s.modify s.current fun t => { t with yield := v }).Ok := by
  refine h.frame (s.modify s.current fun t => { t with yield := v }).tasks
    (modify_field Task.state rfl) (h.toBase.modify_task ?_) (h.toBase.modify_idle ?_) ?_
  · exact fun ht => { ht with }
  · exact fun hidle => absurd hidle hne
  · rw [modify_tasks_of_ne (Ne.symm hne)]
    exact id

/-- **The recalculation** keeps the invariant. -/
lemma Ok.recalculate (h : s.Ok) (hphase : s.phase = .recalculate) : s.recalculate.Ok := by
  have hinside : s.phase ≠ .outside := by simp [hphase]
  have htasks : ∀ p, s.recalculate.tasks p = if p ∈ s.all then
      { s.tasks p with counter := (s.tasks p).counter / 2 + niceToTicks (s.tasks p).nice }
      else s.tasks p := fun _ => rfl
  have hstate : ∀ p, (s.recalculate.tasks p).state = (s.tasks p).state := by
    intro p
    rw [htasks]
    split <;> rfl
  refine ⟨h.toBase.frame s.recalculate.tasks hstate ?_ ?_, ?_, ?_, ?_⟩
  · intro p hp
    obtain ⟨hcounter, hlow, hhigh, hpolicy⟩ := h.task p hp
    rw [htasks, if_pos hp]
    refine ⟨?_, hlow, hhigh, hpolicy⟩
    have hticks := niceToTicks_pos hhigh
    dsimp only
    omega
  · rw [htasks, if_neg h.noIdle]
    exact h.idleTask
  · exact fun houtside => by cases houtside
  · intro _ hne
    exact (h.inside hinside hne).trans (Eq.congr_left (hstate _)).symm
  · exact fun _ houtside => by cases houtside

/-- A tick ends the time slice or shortens it. -/
lemma charge_cases (t : Task) :
    (t.counter ≤ 1 ∧ charge t = { t with counter := 0, needResched := true }) ∨
    (1 < t.counter ∧ charge t = { t with counter := t.counter - 1 }) := by
  unfold charge
  split
  · exact .inl ⟨by omega, rfl⟩
  · exact .inr ⟨by omega, rfl⟩

/-- **A tick** keeps the invariant. -/
lemma Ok.updateProcessTimes (h : s.Ok) : s.updateProcessTimes.Ok := by
  unfold Sys.updateProcessTimes
  split_ifs with hidle
  · exact h.frame s.tasks (fun _ => rfl) h.task h.idleTask id
  · refine h.frame (s := s) (s.modify s.current _).tasks (modify_field Task.state ?_)
      (h.toBase.modify_task ?_) (h.toBase.modify_idle fun hcur => absurd hcur hidle) ?_
    · rcases charge_cases (s.tasks s.current) with ⟨-, heq⟩ | ⟨-, heq⟩ <;> rw [heq]
    · rintro ⟨hcounter, hlow, hhigh, hpolicy⟩
      rcases charge_cases (s.tasks s.current) with ⟨-, heq⟩ | ⟨hmany, heq⟩
      · rw [heq]
        exact ⟨Int.le_refl _, hlow, hhigh, hpolicy⟩
      · rw [heq]
        exact ⟨by dsimp only; omega, hlow, hhigh, hpolicy⟩
    · rw [modify_tasks_of_ne (Ne.symm hidle)]
      exact id

lemma Ok.setState (h : s.Ok) (hphase : s.phase = .outside) (hne : s.current ≠ idle)
    (state : TaskState) : (s.modify s.current fun t => { t with state := state }).Ok :=
  ⟨h.toBase.setState hne (.inl rfl), h.outside, absurd hphase, fun hidle => absurd hidle hne⟩

abbrev woken (s : Sys) (p : Nat) : Sys := s.modify p fun t => { t with state := .running }

lemma Ok.wake_queued (h : s.Ok) (hp : p ∈ s.runqueue) : (s.woken p).Ok := by
  have hne := h.toBase.queue_ne_idle hp
  have hrunning : ((s.woken p).tasks p).state = .running :=
    congrArg Task.state modify_tasks_self
  refine ⟨h.toBase.setState hne (.inr ⟨hp, rfl⟩), h.outside, ?_, ?_⟩
  · intro hinside hcur
    by_cases hqp : s.current = p
    · exact iff_of_true (hqp ▸ hp) (hqp ▸ hrunning)
    · refine (h.inside hinside hcur).trans ?_
      exact (Eq.congr_left (congrArg Task.state (modify_tasks_of_ne hqp))).symm
  · rw [modify_tasks_of_ne (Ne.symm hne)]
    exact h.idleAsked

/-- A wake-up that puts the task on the run queue. The idle task is asked to call `schedule`. -/
lemma Ok.wake_unqueued (h : s.Ok) (hp : p ∈ s.all) (hqueue : p ∉ s.runqueue) :
    (((s.woken p).addToRunqueue p).rescheduleIdle p).Ok := by
  have hne := h.toBase.ne_idle hp
  -- the woken task joins the run queue, the others stay where they are
  have hjoin : ∀ q, (q ∈ s.runqueue ↔ (s.tasks q).state = .running) →
      (q ∈ p :: s.runqueue ↔ ((s.woken p).tasks q).state = .running) := by
    intro q hq
    rw [mem_cons]
    by_cases hqp : q = p
    · exact iff_of_true (.inl hqp) (hqp ▸ congrArg Task.state modify_tasks_self)
    · rw [modify_tasks_of_ne hqp, or_iff_right hqp]
      exact hq
  have hbase : ((s.woken p).addToRunqueue p).Base := by
    have htask : ∀ q ∈ s.all, ((s.woken p).tasks q).Ok :=
      h.toBase.modify_task fun ht => { ht with }
    have hidleTask : ((s.woken p).tasks idle).IdleOk :=
      h.toBase.modify_idle fun hidle => absurd hidle hne
    exact ⟨h.nodup, h.noIdle, nodup_cons.2 ⟨hqueue, h.queueNodup⟩,
      forall_mem_cons.2 ⟨hp, h.queueAll⟩, fun q hq hqne => hjoin q (h.queued q hq hqne), h.current,
      htask, hidleTask⟩
  have houtside : s.phase = .outside → s.current ≠ idle → s.current ∈ p :: s.runqueue :=
    fun hphase hcur => mem_cons_of_mem _ (h.outside hphase hcur)
  have hinside : s.phase ≠ .outside → ((s.woken p).addToRunqueue p).Agrees := by
    intro hphase hcur
    exact hjoin _ (h.inside hphase hcur)
  unfold rescheduleIdle
  split_ifs with hpreempt
  · refine ⟨hbase.needResched _ _, houtside, ?_, ?_⟩
    · intro hphase hcur
      exact (hinside hphase hcur).trans (Eq.congr_left (modify_field Task.state rfl _)).symm
    · intro (hidle : s.current = idle) _
      right
      rw [← hidle]
      exact congrArg Task.needResched modify_tasks_self
  · refine ⟨hbase, houtside, hinside, ?_⟩
    -- the idle task is far below every weight
    intro (hidle : s.current = idle) _
    exfalso
    apply hpreempt
    have hlow := @hbase.idleTask.goodness _ s.activeMm
    have hhigh := @(hbase.task p hp).goodness_ge _ s.activeMm
    unfold preemptionGoodness
    change goodness _ s.activeMm - goodness (((s.woken p).addToRunqueue p).tasks s.current) s.activeMm > 1
    rw [hidle]
    omega

/-- **`wake_up_process`.** -/
theorem Ok.wakeUpProcess (h : s.Ok) (hp : p ∈ s.all) : (s.wakeUpProcess p).Ok := by
  unfold Sys.wakeUpProcess
  dsimp only
  split_ifs with hqueue
  · exact h.wake_queued hqueue
  · exact h.wake_unqueued hp hqueue

/-- The state of `do_fork` before the new task is woken. -/
def forked (s : Sys) (p : Nat) (mm : Option Nat) : Sys :=
  ({ s with
    tasks := update s.tasks p (childShare (s.tasks s.current) mm)
    all := s.all ++ [p] }).modify s.current parentShare

lemma doFork_eq (mm : Option Nat) : s.doFork p mm = (s.forked p mm).wakeUpProcess p := rfl

section Fork
variable {mm : Option Nat}

lemma forked_child (hp : p ≠ s.current) :
    (s.forked p mm).tasks p = childShare (s.tasks s.current) mm := by
  refine (update_of_ne hp ..).trans ?_
  exact update_self ..

lemma forked_current (hp : p ≠ s.current) :
    (s.forked p mm).tasks s.current = parentShare (s.tasks s.current) := by
  refine (update_self ..).trans ?_
  exact congrArg parentShare (update_of_ne (Ne.symm hp) ..)

lemma forked_other {q : Nat} (hq : q ≠ p) (hcur : q ≠ s.current) :
    (s.forked p mm).tasks q = s.tasks q := by
  refine (update_of_ne hcur ..).trans ?_
  exact update_of_ne hq ..

section

variable (h : s.Ok) (hphase : s.phase = .outside) (hne : s.current ≠ idle) (hp : p ∉ s.all)
  (hidle : p ≠ idle)
include h hphase hne hp hidle

lemma Ok.forked : (s.forked p mm).Ok := by
  have hcur := h.toBase.mem_all_current hne
  have hpcur : p ≠ s.current := fun heq => hp (heq ▸ hcur)
  have hpqueue : p ∉ s.runqueue := fun hmem => hp (h.queueAll p hmem)
  obtain ⟨hcounter, hlow, hhigh, hpolicy⟩ := h.task _ hcur
  have hhalf : 0 ≤ (s.tasks s.current).counter / 2 := Int.ediv_nonneg hcounter (by decide)
  have hupper : 0 ≤ ((s.tasks s.current).counter + 1) / 2 :=
    Int.ediv_nonneg (by omega) (by decide)
  have hmem : ∀ q, q ∈ (s.forked p mm).all ↔ q ∈ s.all ∨ q = p := fun q =>
    mem_append.trans (by rw [mem_singleton])
  refine ⟨⟨?_, ?_, h.queueNodup, ?_, ?_, .inr ((hmem _).2 (.inl hcur)), ?_, ?_⟩, h.outside,
    absurd hphase, fun hcurIdle => absurd hcurIdle hne⟩
  · refine nodup_append.2 ⟨h.nodup, pairwise_singleton _ _, ?_⟩
    rintro q hq _ hq' rfl
    exact hp (mem_singleton.1 hq' ▸ hq)
  · rw [hmem]
    exact fun hor => hor.elim h.noIdle fun heq => hidle heq.symm
  · intro q hq
    exact (hmem q).2 (.inl (h.queueAll q hq))
  · intro q hq (hqcur : q ≠ s.current)
    by_cases hqp : q = p
    · subst hqp
      refine iff_of_false hpqueue ?_
      rw [forked_child hpcur]
      simp [childShare]
    · rw [forked_other hqp hqcur]
      exact h.queued q (((hmem q).1 hq).resolve_right hqp) hqcur
  · intro q hq
    by_cases hqp : q = p
    · subst hqp
      rw [forked_child hpcur]
      exact ⟨hupper, hlow, hhigh, hpolicy⟩
    · by_cases hqcur : q = s.current
      · rw [hqcur, forked_current hpcur]
        exact ⟨hhalf, hlow, hhigh, hpolicy⟩
      · rw [forked_other hqp hqcur]
        exact h.task q (((hmem q).1 hq).resolve_right hqp)
  · rw [forked_other (Ne.symm hidle) (Ne.symm hne)]
    exact h.idleTask

/-- **`do_fork`** keeps the invariant. -/
lemma Ok.doFork : (s.doFork p mm).Ok := by
  exact (h.forked hphase hne hp hidle).wakeUpProcess (mem_append_right _ (by simp))

end

end Fork

/-- **A zombie is released.** -/
lemma Ok.releaseTask (h : s.Ok) (hphase : s.phase = .outside) (hne : s.current ≠ idle)
    (hp : p ∈ s.all) (hpne : p ≠ s.current) (hzombie : (s.tasks p).state = .zombie) :
    (s.releaseTask p).Ok := by
  have hpqueue : p ∉ s.runqueue := by
    rw [h.queued p hp hpne, hzombie]
    simp
  have hcur := h.toBase.mem_all_current hne
  have hmem : ∀ q, q ∈ s.all.erase p → q ∈ s.all := fun q => mem_of_mem_erase
  have hok : ∀ q ∈ s.all, ((s.modify s.current (retrieve (s.tasks p).counter)).tasks q).Ok := by
    refine h.toBase.modify_task ?_
    rintro ⟨hcounter, hlow, hhigh, hpolicy⟩
    refine ⟨?_, hlow, hhigh, hpolicy⟩
    have hchild := (h.task p hp).counter
    unfold retrieve
    dsimp only
    split
    · decide
    · omega
  have hidleTask : ((s.modify s.current (retrieve (s.tasks p).counter)).tasks idle).IdleOk :=
    h.toBase.modify_idle fun hidle => absurd hidle hne
  refine ⟨⟨h.nodup.erase p, fun hidle => h.noIdle (hmem _ hidle), h.queueNodup, ?_, ?_, ?_, ?_,
    hidleTask⟩, h.outside, absurd hphase, fun hidle => absurd hidle hne⟩
  · intro q hq
    refine (mem_erase_of_ne ?_).2 (h.queueAll q hq)
    rintro rfl
    exact hpqueue hq
  · intro q hq (hqcur : q ≠ s.current)
    have hsame : ((s.modify s.current (retrieve (s.tasks p).counter)).tasks q).state =
        (s.tasks q).state := congrArg Task.state (modify_tasks_of_ne hqcur)
    refine (h.queued q (hmem q hq) hqcur).trans ?_
    exact (Eq.congr_left hsame).symm
  · exact .inr ((mem_erase_of_ne (Ne.symm hpne)).2 hcur)
  · exact fun q hq => hok q (hmem q hq)

end Sys

/-- **One action** keeps the invariant. -/
theorem step_ok {s t : Sys} {act : Act} {es : List Event} (h : s.Ok) (henabled : act.Enabled s)
    (hstep : step s act = some (t, es)) : t.Ok := by
  cases act <;> obtain ⟨rfl, -⟩ := some_pair_inj hstep
  case tick => exact h.updateProcessTimes
  case schedule signalPending => exact h.schedule henabled signalPending
  case recalculate => exact h.recalculate henabled
  case again =>
    have hphase : s.phase = .again := henabled
    exact h.toBase.repeatSchedule (h.inside (by simp [hphase]))
  case setState state => exact h.setState henabled.1 henabled.2.1 state
  case wake p => exact h.wakeUpProcess henabled.1
  case fork p mm =>
    obtain ⟨hphase, hne, hp, hidle⟩ := henabled
    exact h.doFork hphase hne hp hidle
  case release p =>
    obtain ⟨hphase, hne, hp, hpne, hzombie⟩ := henabled
    exact h.releaseTask hphase hne hp hpne hzombie
  case yield signalPending =>
    obtain ⟨hphase, hne⟩ := henabled
    exact (h.setYield hne true).schedule hphase signalPending

end PsxLinux.Sched
