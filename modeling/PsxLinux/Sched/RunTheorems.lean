import PsxLinux.Sched.FairnessTheorems

/-!
# Runs of the scheduler

The bound on the time a task waits, over every run in which no fork copies the flag of a yield; and
what holds in every run: the idle task is selected only if no other task can run, no counter is
negative, and counters are recalculated at most once before a task is selected if no tick comes
between.
-/

namespace PsxLinux.Sched

open Lib List

/-- The state a run begins in: outside `schedule`, no task has yielded. -/
structure Sys.Initial (s : Sys) : Prop extends s.Ok where
  phaseOutside : s.phase = .outside
  noYield : ∀ p ∈ s.all, (s.tasks p).yield = false

variable {s₀ s t : Sys} {act : Act} {acts : List Act} {es fs : List Event}

lemma ok_of_exec (h : s.Ok) (hrun : Exec step (fun s act => act.Enabled s) s acts es t) : t.Ok :=
  hrun.invariant_state h fun _ _ _ _ ht henabled hstep => step_ok ht henabled hstep

/-! ## The idle task -/

/-- A pass that selects the idle task finds nothing to run. -/
lemma Sys.Base.selected_idle {u : Sys} (h : u.Base) (hagrees : u.Agrees)
    (hidle : .selected idle ∈ u.repeatSchedule.2) : ∀ p ∈ u.repeatSchedule.1.all,
      (u.repeatSchedule.1.tasks p).state ≠ .running := by
  unfold Sys.repeatSchedule at hidle ⊢
  dsimp only at hidle ⊢
  split_ifs at hidle ⊢
  · cases hidle
  · have hpick : u.pick.2 = idle := (Event.selected.inj (mem_singleton.1 hidle)).symm
    obtain ⟨hall, -, -, -, -, hstate, -, -⟩ := @Sys.switchTo_fields u u.pick.2
    rcases h.pick_cases hagrees with ⟨-, -, hempty, hprev⟩ | ⟨hmem, -⟩
    · intro p hp
      rw [hall] at hp
      rw [hstate]
      by_cases hcur : p = u.current
      · rw [hcur]
        exact hprev.resolve_left fun hcurIdle => h.ne_idle hp (hcur.trans hcurIdle)
      · intro hrunning
        have hqueue := (h.queued p hp hcur).2 hrunning
        rw [hempty] at hqueue
        cases hqueue
    · exact absurd hpick (h.queue_ne_idle hmem)

lemma Sys.Ok.schedule_idle (h : s.Ok) (hphase : s.phase = .outside) (signalPending : Bool)
    (hidle : .selected idle ∈ (s.schedule signalPending).2) :
    ∀ p ∈ (s.schedule signalPending).1.all,
      ((s.schedule signalPending).1.tasks p).state ≠ .running := by
  obtain ⟨hprep, -⟩ := h.prepare hphase signalPending
  exact hprep.base.selected_idle hprep.agrees hidle

lemma step_idle (h : s.Ok) (henabled : act.Enabled s) (hstep : step s act = some (t, es))
    (hidle : .selected idle ∈ es) : ∀ p ∈ t.all, (t.tasks p).state ≠ .running := by
  cases act with
  | schedule signalPending =>
    obtain ⟨rfl, rfl⟩ := some_pair_inj hstep
    exact h.schedule_idle henabled signalPending hidle
  | again =>
    obtain ⟨rfl, rfl⟩ := some_pair_inj hstep
    have hphase : s.phase = .again := henabled
    exact h.toBase.selected_idle (h.inside (by simp [hphase])) hidle
  | yield signalPending =>
    obtain ⟨rfl, rfl⟩ := some_pair_inj hstep
    obtain ⟨hphase, hne⟩ := henabled
    exact (h.setYield hne true).schedule_idle hphase signalPending hidle
  | tick | recalculate | setState | wake | fork | release =>
    cases hstep
    simp at hidle

/-! ## Recalculations -/

/-- How often counters have been recalculated since a tick or a selection: not yet, or once, and then
every task has time left until the selection. -/
def Recalculated (s : Sys) (es : List Event) : Prop :=
  es.count .recalculated = 0 ∨
  es.count .recalculated = 1 ∧ s.phase = .again ∧ ∀ p ∈ s.all, 0 < (s.tasks p).counter

lemma Sys.Base.pick_ne_zero (h : s.Base) (hagrees : s.Agrees)
    (hpos : ∀ p ∈ s.all, 0 < (s.tasks p).counter) : s.pick.1 ≠ 0 := by
  rcases h.pick_cases hagrees with ⟨-, hneg, -⟩ | ⟨hmem, hweight⟩
  · omega
  · have hall := h.queueAll _ hmem
    rcases @(h.task _ hall).goodness_cases _ s.activeMm with ⟨-, hw⟩ | ⟨-, hzero, -⟩ | ⟨-, -, hw⟩
    · omega
    · have hleft := hpos _ hall
      omega
    · omega

lemma repeatSchedule_count (u : Sys) : u.repeatSchedule.2.count .recalculated = 0 := by
  unfold Sys.repeatSchedule
  dsimp only
  split_ifs <;> simp

lemma step_recalculated (h : s.Ok) (henabled : act.Enabled s) (hstep : step s act = some (t, fs))
    (htick : .tick ∉ fs) (hsel : ∀ p, .selected p ∉ fs) (hrec : Recalculated s es) :
    Recalculated t (es ++ fs) := by
  -- nothing else happens before the first recalculation, or in its window
  have hnone : fs.count .recalculated = 0 → s.phase ≠ .again → Recalculated t (es ++ fs) := by
    intro hfs hphase
    left
    rcases hrec with hes | ⟨-, hagain, -⟩
    · rw [count_append, hfs, hes]
    · exact absurd hagain hphase
  cases act with
  | tick =>
    cases hstep
    simp at htick
  | recalculate =>
    cases hstep
    have hphase : s.phase = .recalculate := henabled
    rcases hrec with hzero | ⟨-, hagain, -⟩
    · right
      refine ⟨by rw [count_append, hzero]; rfl, rfl, fun p hp => ?_⟩
      have hnonneg := (h.task p hp).counter
      have hshare := h.toBase.share_pos hp
      have hcounter : (s.recalculate.tasks p).counter =
          (s.tasks p).counter / 2 + niceToTicks (s.tasks p).nice :=
        congrArg Task.counter (if_pos hp)
      omega
    · rw [hphase] at hagain
      cases hagain
  | wake p =>
    cases hstep
    rw [append_nil]
    obtain ⟨hsame, hphase, -⟩ := @Sys.wakeUpProcess_fields s p
    unfold Recalculated
    simp only [hsame.all, hphase, hsame.counter]
    exact hrec
  | again =>
    obtain rfl : s.repeatSchedule.2 = fs := congrArg Prod.snd (Option.some.inj hstep)
    have hphase : s.phase = .again := henabled
    have hagrees := h.inside (by simp [hphase])
    rcases hrec with hzero | ⟨-, -, hpos⟩
    · left
      rw [count_append, hzero, repeatSchedule_count]
    · have hselected : .selected s.pick.2 ∈ s.repeatSchedule.2 := by
        unfold Sys.repeatSchedule
        rw [if_neg (h.toBase.pick_ne_zero hagrees hpos)]
        exact mem_singleton_self _
      exact absurd hselected (hsel _)
  | schedule signalPending =>
    obtain ⟨rfl, rfl⟩ := some_pair_inj hstep
    have hphase : s.phase = .outside := henabled
    exact hnone (repeatSchedule_count _) (by simp [hphase])
  | yield signalPending =>
    obtain ⟨rfl, rfl⟩ := some_pair_inj hstep
    exact hnone (repeatSchedule_count _) (by simp [henabled.1])
  | setState | fork | release =>
    cases hstep
    exact hnone (by simp) (by simp [henabled.1])

/-- Before a selection and without a tick counters are recalculated at most once. -/
lemma recalculated_le_one (h : s.Ok) (hrun : Exec step (fun s act => act.Enabled s) s acts es t)
    (htick : .tick ∉ es) (hsel : ∀ p, .selected p ∉ es) : es.count .recalculated ≤ 1 := by
  have hrec : t.Ok ∧ (.tick ∉ es → (∀ p, .selected p ∉ es) → Recalculated t es) := by
    refine hrun.invariant (P := fun t es => t.Ok ∧
      (.tick ∉ es → (∀ p, .selected p ∉ es) → Recalculated t es)) ⟨h, fun _ _ => .inl rfl⟩ ?_
    rintro u es act v fs ⟨hu, hrec⟩ henabled hstep
    refine ⟨step_ok hu henabled hstep, fun htick hsel => ?_⟩
    simp only [mem_append, not_or] at htick hsel
    exact step_recalculated hu henabled hstep htick.2 (fun p => (hsel p).2)
      (hrec htick.1 fun p => (hsel p).1)
  rcases hrec.2 htick hsel with hzero | ⟨hone, -⟩ <;> omega

/-! ## The wait -/

/-- What has been paid for since the state `s`, in which `w` began to wait: everything by the counters
of that time, or, after a recalculation, by the shares as well. -/
structure Paid (w : Nat) (s t : Sys) (es : List Event) : Prop where
  waits : t.Waits w
  forked : 0 ≤ forkedShares es
  shares : t.shares ≤ s.shares + forkedShares es
  bound :
    (es.count .tick : Int) + t.total + t.credit ≤ s.total + 1 + forkedShares es +
      (if t.phase = .recalculate then 1 else 0) ∨
    0 < (t.tasks w).counter ∧ t.phase ≠ .recalculate ∧
      (es.count .tick : Int) + t.total + t.credit ≤ s.total + 2 + forkedShares es +
        (s.shares + forkedShares es)

variable {w : Nat}

lemma Paid.refl (hw : s.Waits w) : Paid w s s [] := by
  have hcredit := @Sys.credit_le s
  refine ⟨hw, Int.le_refl _, Int.le_of_eq (Int.add_zero _).symm, .inl ?_⟩
  simp only [forkedShares, count_nil, map_nil, sum_nil]
  split <;> omega

lemma Paid.step {u : Sys} (hpaid : Paid w s t es) (hprog : Sys.Progress w t u fs)
    (hforked : 0 ≤ forkedShares fs) : Paid w s u (es ++ fs) := by
  obtain ⟨hwaits, hshares, hcost⟩ := hprog
  refine ⟨hwaits, ?_, ?_, ?_⟩
  · have hold := hpaid.forked
    rw [forkedShares_append]
    omega
  · have hold := hpaid.shares
    rw [forkedShares_append]
    omega
  · rw [forkedShares_append, count_append]
    rcases hcost with ⟨hcounter, hstays, hphase, hcost⟩ | ⟨hphase, hagain, hpos, hcost⟩
    · rcases hpaid.bound with hbound | ⟨hpos, hnot, hbound⟩
      · left
        by_cases hold : t.phase = .recalculate
        · rw [if_neg fun hboth => hboth.2 hold] at hcost
          rw [if_pos (hstays hold)]
          omega
        · rw [if_neg hold] at hbound
          simp only [hold, ne_eq, not_false_eq_true, and_true] at hcost
          omega
      · right
        have hrec : u.phase ≠ .recalculate := fun heq =>
          (hphase heq).elim hnot fun hzero => by omega
        rw [if_neg fun hboth => hrec hboth.1] at hcost
        exact ⟨by omega, hrec, by omega⟩
    · have hold := hpaid.shares
      rcases hpaid.bound with hbound | ⟨-, hnot, -⟩
      · right
        exact ⟨hpos, by simp [hagain], by omega⟩
      · exact absurd hphase hnot

lemma step_forked (h : s.Ok) (henabled : act.Enabled s) (hstep : step s act = some (t, es)) :
    0 ≤ forkedShares es := by
  have hpass : ∀ u : Sys, 0 ≤ forkedShares u.repeatSchedule.2 := by
    intro u
    unfold Sys.repeatSchedule
    dsimp only
    split_ifs <;> exact Int.le_refl _
  cases act with
  | schedule | again | yield =>
    obtain ⟨-, rfl⟩ := some_pair_inj hstep
    exact hpass _
  | fork p mm =>
    cases hstep
    have hshare := h.toBase.share_pos (h.toBase.mem_all_current henabled.2.1)
    simp only [forkedShares, Event.share, map_cons, map_nil, sum_cons, sum_nil]
    omega
  | tick | recalculate | setState | wake | release =>
    cases hstep
    exact Int.le_refl _

lemma paid_of_exec (h : s.Ok) (hflags : s.FlagOk) (hw : s.Waits w)
    (hrun : Exec step (fun s act => act.Enabled s ∧ act.FlagClear s) s acts es t)
    (hsel : .selected w ∉ es) : t.Ok ∧ Paid w s t es := by
  have hinv : t.Ok ∧ t.FlagOk ∧ (.selected w ∉ es → Paid w s t es) := by
    refine hrun.invariant (P := fun t es => t.Ok ∧ t.FlagOk ∧ (.selected w ∉ es → Paid w s t es))
      ⟨h, hflags, fun _ => .refl hw⟩ ?_
    rintro u es act v fs ⟨hu, hflagsU, hpaid⟩ ⟨henabled, hclear⟩ hstep
    refine ⟨step_ok hu henabled hstep, step_flagOk hu hflagsU henabled hclear hstep, fun hsel => ?_⟩
    rw [mem_append, not_or] at hsel
    have hpaidU := hpaid hsel.1
    apply hpaidU.step _ (step_forked hu henabled hstep)
    exact step_progress hu hflagsU hpaidU.waits henabled hstep hsel.2
  exact ⟨hinv.1, hinv.2.2 hsel⟩

lemma Paid.ticks_le (hpaid : Paid w s t es) (hs : s.Base) (hw : s.Waits w) (ht : t.Base) :
    (es.count .tick : Int) ≤ 2 * s.total + 2 * (s.shares + forkedShares es) := by
  have hstart := hs.total_nonneg
  have hshares := hs.shares_pos hw.mem
  have hforked := hpaid.forked
  have htotal := ht.total_nonneg
  have hcredit := @Sys.credit_nonneg t
  rcases hpaid.bound with hbound | ⟨hpos, -, hbound⟩
  · split_ifs at hbound <;> omega
  · -- the waiting task itself still has time
    have hleft := ht.counter_le_total hpaid.waits.mem
    omega

/-- **The scheduler is fair.** In every run no counter of a task is negative, the idle task is selected
only if no other task can run, and from no state on counters are recalculated more than once before a
tick or a selection. In every run in which no fork copies the flag of a yield, a task that can run and
does not, and is not selected, has waited for at most twice the sum of all counters when the wait began
and twice the sum of `NICE_TO_TICKS` over the tasks of that time and those created since. -/
theorem scheduler_fair (h₀ : s₀.Initial) :
    (∀ acts es s, Exec step (fun s act => act.Enabled s) s₀ acts es s →
      (∀ p ∈ s.all, 0 ≤ (s.tasks p).counter) ∧
      (∀ act t fs, act.Enabled s → step s act = some (t, fs) → .selected idle ∈ fs →
        ∀ p ∈ t.all, (t.tasks p).state ≠ .running) ∧
      ∀ acts fs t, Exec step (fun s act => act.Enabled s) s acts fs t → .tick ∉ fs →
        (∀ p, .selected p ∉ fs) → fs.count .recalculated ≤ 1) ∧
    ∀ acts es s, Exec step (fun s act => act.Enabled s ∧ act.FlagClear s) s₀ acts es s →
      ∀ w ∈ s.all, w ≠ s.current → (s.tasks w).state = .running →
        ∀ acts fs t, Exec step (fun s act => act.Enabled s ∧ act.FlagClear s) s acts fs t →
          .selected w ∉ fs →
          (t.tasks w).state = .running ∧
          (fs.count .tick : Int) ≤ 2 * s.total + 2 * (s.shares + forkedShares fs) := by
  constructor
  · intro acts es s hrun
    have hok := ok_of_exec h₀.toOk hrun
    refine ⟨fun p hp => (hok.task p hp).counter, ?_, ?_⟩
    · intro act t fs henabled hstep hidle
      exact step_idle hok henabled hstep hidle
    · intro acts fs t hrun' htick hsel
      exact recalculated_le_one hok hrun' htick hsel
  · intro acts es s hrun w hmem hcur hrunning acts' fs t hwait hsel
    have hflags₀ : s₀.FlagOk := by
      intro p hp hflag
      exact absurd ((h₀.noYield p hp).symm.trans hflag) (by decide)
    obtain ⟨hok, hflags⟩ : s.Ok ∧ s.FlagOk := by
      refine hrun.invariant_state (P := fun s => s.Ok ∧ s.FlagOk) ⟨h₀.toOk, hflags₀⟩ ?_
      rintro u act v fs ⟨hu, hflagsU⟩ ⟨henabled, hclear⟩ hstep
      exact ⟨step_ok hu henabled hstep, step_flagOk hu hflagsU henabled hclear hstep⟩
    have hw : s.Waits w := ⟨hmem, hcur, hrunning⟩
    obtain ⟨ht, hpaid⟩ := paid_of_exec hok hflags hw hwait hsel
    exact ⟨hpaid.waits.running, hpaid.ticks_le hok.toBase hw ht.toBase⟩

/-- An ordinary task, and the idle task. -/
def niceTask (state : TaskState) : Task := ⟨1, 19, .other, false, 0, state, false, some 7⟩

def idleTask : Task := ⟨-100, 20, .other, false, 0, .running, false, none⟩

/-- Task 1 runs; the task 2 sleeps if it is there. -/
def oneRunning (all : List Nat) : Sys where
  tasks := fun p => if p = idle then idleTask
    else niceTask (if p = 1 then .running else .interruptible)
  all := all
  runqueue := [1]
  current := 1
  activeMm := 7
  phase := .outside
  mustSchedule := false

lemma oneRunning_initial {all : List Nat} (hnodup : all.Nodup) (hidle : idle ∉ all)
    (hone : 1 ∈ all) : (oneRunning all).Initial := by
  have hne : ∀ p ∈ all, p ≠ idle := by
    rintro p hp rfl
    exact hidle hp
  refine ⟨⟨⟨hnodup, hidle, pairwise_singleton _ _, ?_, ?_, .inr hone, ?_, ?_⟩, ?_, ?_, ?_⟩, rfl, ?_⟩
  · intro p hp
    rw [mem_singleton.1 hp]
    exact hone
  · intro p hp (hcur : p ≠ 1)
    refine iff_of_false (fun hmem => hcur (mem_singleton.1 hmem)) ?_
    simp [oneRunning, hne p hp, hcur, niceTask]
  · intro p hp
    simp only [oneRunning, if_neg (hne p hp)]
    exact ⟨Int.zero_le_ofNat 1, by simp [niceTask], by simp [niceTask], rfl⟩
  · exact ⟨rfl, rfl, rfl, rfl, rfl, rfl⟩
  · exact fun _ _ => mem_singleton_self _
  · exact absurd rfl
  · intro (hcur : 1 = idle)
    exact absurd hcur (by decide)
  · intro p hp
    simp only [oneRunning, if_neg (hne p hp)]
    rfl

/-- Task 1 wakes the task 2, uses up its counter and gives way. -/
theorem scheduler_fair_woken : ∃ s t fs, Exec step (fun s act => act.Enabled s ∧ act.FlagClear s)
      (oneRunning [1, 2]) [.wake 2] [] s ∧
    Exec step (fun s act => act.Enabled s ∧ act.FlagClear s) s [.tick] fs t ∧
    fs = [.tick] ∧ (fs.count .tick : Int) ≤ 2 * s.total + 2 * (s.shares + forkedShares fs) ∧
    (t.schedule false).2 = [.selected 2] := by
  have hbefore : Exec step (fun s act => act.Enabled s ∧ act.FlagClear s) (oneRunning [1, 2]) [.wake 2]
      [] _ := .tail (.refl _) ⟨by decide, trivial⟩ rfl
  have hwait : Exec step (fun s act => act.Enabled s ∧ act.FlagClear s)
      ((oneRunning [1, 2]).wakeUpProcess 2) [.tick] [.tick] _ :=
    .tail (.refl _) ⟨by decide, trivial⟩ rfl
  have hinitial : (oneRunning [1, 2]).Initial :=
    oneRunning_initial (by decide) (by decide) (by decide)
  refine ⟨_, _, _, hbefore, hwait, rfl, ?_, by decide⟩
  exact ((scheduler_fair hinitial).2 _ _ _ hbefore 2 (by decide) (by decide) (by decide) _ _ _ hwait
    (by simp)).2

/-- Task 1 has yielded while it was alone, which left its flag set, and has forked the task 2, which
got the flag. -/
def yieldForked : Sys :=
  (((oneRunning [1]).modify 1 fun t => { t with yield := true }).schedule false).1.doFork 2 (some 7)

/-- Then task 1 is selected again and again, longer than the bound allows. -/
theorem yield_starves :
    (∃ es, Exec step (fun s act => act.Enabled s) (oneRunning [1])
      [.yield false, .fork 2 (some 7)] es yieldForked) ∧
    (2 ∈ yieldForked.all ∧ 2 ≠ yieldForked.current ∧ (yieldForked.tasks 2).state = .running) ∧
    ∃ t fs, Exec step (fun s act => act.Enabled s) yieldForked
        (replicate 7 [Act.tick, Act.schedule false]).flatten fs t ∧
      (t.tasks 2).state = .running ∧ .selected 2 ∉ fs ∧
      ¬ (fs.count .tick : Int) ≤
        2 * yieldForked.total + 2 * (yieldForked.shares + forkedShares fs) := by
  refine ⟨⟨_, .tail (.tail (.refl _) (by decide) rfl) (by decide) rfl⟩, by decide, ?_⟩
  exact Exec.exists_of_decide _ (by decide +kernel) fun _ _ _ => id

end PsxLinux.Sched
