import PsxLinux.Sched.ScheduleTheorems
import Mathlib.Algebra.Order.BigOperators.Group.List

/-!
# No task starves

The time a task waits is paid for. Every tick takes one from the counters of all tasks, or uses up the
one tick for which a running task without time left may go on. A recalculation gives every task its
`NICE_TO_TICKS`, and after it the waiting task has time left, so that no other recalculation comes
before it is selected.

This needs that the flag `SCHED_YIELD` stands on the running task only. A yield with no other runnable
task leaves it set, and a fork copies it.
-/

namespace PsxLinux.Sched

open Lib List Sys

/-! ## Sums over lists -/

section Sum
variable {α : Type} {l : List α} {f g : α → Int} {a : α}
variable {u : Sys} {es : List Event}

lemma sum_map_nonneg (h : ∀ q ∈ l, 0 ≤ f q) : 0 ≤ (l.map f).sum :=
  sum_nonneg (forall_mem_map.2 h)

variable [DecidableEq α]

lemma sum_map_change (hnodup : l.Nodup) (ha : a ∈ l) (hsame : ∀ q ∈ l, q ≠ a → g q = f q) :
    (l.map g).sum = (l.map f).sum + (g a - f a) := by
  have hrest : (l.erase a).map g = (l.erase a).map f := by
    refine map_congr_left fun q hq => ?_
    obtain ⟨hne, hmem⟩ := hnodup.mem_erase_iff.1 hq
    exact hsame q hmem hne
  have hf := sum_map_erase f ha
  have hg := sum_map_erase g ha
  rw [hrest] at hg
  omega

lemma le_sum_map (h : ∀ q ∈ l, 0 ≤ f q) (ha : a ∈ l) : f a ≤ (l.map f).sum := by
  have hf := sum_map_erase f ha
  have hrest : 0 ≤ ((l.erase a).map f).sum :=
    sum_map_nonneg fun q hq => h q (mem_of_mem_erase hq)
  omega

end Sum

/-! ## The potential -/

/-- What a recalculation gives to a task that is created. -/
def Event.share : Event → Int
  | .forked nice => niceToTicks nice
  | _ => 0

def forkedShares (es : List Event) : Int := (es.map Event.share).sum

lemma forkedShares_append (es fs : List Event) :
    forkedShares (es ++ fs) = forkedShares es + forkedShares fs := by
  unfold forkedShares
  rw [map_append, sum_append]

namespace Sys

def total (s : Sys) : Int := (s.all.map fun p => (s.tasks p).counter).sum

def shares (s : Sys) : Int := (s.all.map fun p => niceToTicks (s.tasks p).nice).sum

/-- The running task can go on for a tick that nobody pays for. -/
def credit (s : Sys) : Int :=
  if s.mustSchedule then 0
  else if s.current = idle ∨ (s.tasks s.current).counter = 0 then 1 else 0

def FlagOk (s : Sys) : Prop := ∀ p ∈ s.all, (s.tasks p).yield → p = s.current

variable {s t : Sys} {p w : Nat}

lemma credit_nonneg : 0 ≤ s.credit := by
  unfold credit
  split
  · exact Int.le_refl _
  · split <;> decide

lemma credit_le : s.credit ≤ 1 := by
  unfold credit
  split
  · decide
  · split <;> decide

lemma credit_eq_zero (hne : s.current ≠ idle) (hcounter : 0 < (s.tasks s.current).counter) :
    s.credit = 0 := by
  unfold credit
  rw [if_neg (not_or.2 ⟨hne, by omega⟩), ite_self]

/-- The credit can be lost by gaining time. -/
lemma credit_le_credit (hmust : t.mustSchedule = s.mustSchedule) (hcurrent : t.current = s.current)
    (hcounter : s.current ≠ idle → 0 ≤ (s.tasks s.current).counter ∧
      (s.tasks s.current).counter ≤ (t.tasks s.current).counter) : t.credit ≤ s.credit := by
  unfold credit
  rw [hmust, hcurrent]
  split_ifs with h₁ h₂ h₃ h₃
  · exact Int.le_refl _
  · exact Int.le_refl _
  · exfalso
    refine h₃ (h₂.imp_right fun hzero => ?_)
    by_cases hne : s.current = idle
    · exact absurd (.inl hne) h₃
    · omega
  · decide
  · exact Int.le_refl _

lemma Base.total_nonneg (h : s.Base) : 0 ≤ s.total := sum_map_nonneg fun q hq => (h.task q hq).counter

lemma Base.counter_le_total (h : s.Base) (hp : p ∈ s.all) : (s.tasks p).counter ≤ s.total :=
  le_sum_map (fun q hq => (h.task q hq).counter) hp

/-- Every task's share is at least one tick. -/
lemma Base.share_pos (h : s.Base) (hp : p ∈ s.all) : 1 ≤ niceToTicks (s.tasks p).nice :=
  niceToTicks_pos (h.task p hp).niceHigh

lemma Base.shares_pos (h : s.Base) (hp : p ∈ s.all) : 1 ≤ s.shares := by
  have hle : niceToTicks (s.tasks p).nice ≤ s.shares :=
    le_sum_map (fun q hq => by have := h.share_pos hq; omega) hp
  have hpos := h.share_pos hp
  omega

lemma total_congr (hall : t.all = s.all)
    (hcounter : ∀ p ∈ s.all, (t.tasks p).counter = (s.tasks p).counter) : t.total = s.total := by
  unfold total
  rw [hall, map_congr_left hcounter]

lemma shares_congr (hall : t.all = s.all)
    (hnice : ∀ p ∈ s.all, (t.tasks p).nice = (s.tasks p).nice) : t.shares = s.shares := by
  unfold shares
  rw [hall, map_congr_left fun p hp => congrArg niceToTicks (hnice p hp)]

/-- The same tasks have the same time, and the same one runs. -/
structure SameLoad (s t : Sys) : Prop where
  all : t.all = s.all
  current : t.current = s.current
  counter : ∀ p, (t.tasks p).counter = (s.tasks p).counter
  nice : ∀ p, (t.tasks p).nice = (s.tasks p).nice

namespace SameLoad

lemma refl (s : Sys) : SameLoad s s := ⟨rfl, rfl, fun _ => rfl, fun _ => rfl⟩

lemma trans (h : SameLoad s t) (h' : SameLoad t u) : SameLoad s u :=
  ⟨h'.all.trans h.all, h'.current.trans h.current, fun p => (h'.counter p).trans (h.counter p),
    fun p => (h'.nice p).trans (h.nice p)⟩

lemma modify {f : Task → Task} (hcounter : ∀ t, (f t).counter = t.counter := by exact fun _ => rfl)
    (hnice : ∀ t, (f t).nice = t.nice := by exact fun _ => rfl) : SameLoad s (s.modify p f) :=
  ⟨rfl, rfl, modify_field Task.counter (hcounter _), modify_field Task.nice (hnice _)⟩

lemma total (h : SameLoad s t) : t.total = s.total := total_congr h.all fun p _ => h.counter p

lemma shares (h : SameLoad s t) : t.shares = s.shares := shares_congr h.all fun p _ => h.nice p

end SameLoad

/-! ## A task that waits -/

/-- The task can run and does not. -/
structure Waits (w : Nat) (s : Sys) : Prop where
  mem : w ∈ s.all
  notCurrent : w ≠ s.current
  running : (s.tasks w).state = .running

lemma Waits.queued (hw : Waits w s) (h : s.Base) : w ∈ s.runqueue :=
  (h.queued w hw.mem hw.notCurrent).2 hw.running

lemma Waits.yield (hw : Waits w s) (h : s.FlagOk) : (s.tasks w).yield = false := by
  cases hyield : (s.tasks w).yield with
  | false => rfl
  | true => exact absurd (h w hw.mem hyield) hw.notCurrent

/-- What an action does while `w` waits and is not selected. It takes from the counters what ticks
and forks account for, apart from one tick in the window of a recalculation that begins; or it is the
recalculation. -/
structure Progress (w : Nat) (s t : Sys) (es : List Event) : Prop where
  waits : Waits w t
  shares : t.shares ≤ s.shares + forkedShares es
  cost :
    ((t.tasks w).counter = (s.tasks w).counter ∧ (s.phase = .recalculate → t.phase = .recalculate) ∧
      (t.phase = .recalculate → s.phase = .recalculate ∨ (s.tasks w).counter = 0) ∧
      (es.count .tick : Int) + t.total + t.credit ≤ s.total + s.credit + forkedShares es +
        if t.phase = .recalculate ∧ s.phase ≠ .recalculate then 1 else 0) ∨
    (s.phase = .recalculate ∧ t.phase = .again ∧ 0 < (t.tasks w).counter ∧
      (es.count .tick : Int) + t.total + t.credit ≤ s.total + s.credit + s.shares)

/-- A step that leaves counters and shares alone delays no waiting task. -/
lemma Waits.quiet (hw : Waits w s) (hsame : SameLoad s t) (hphase : t.phase = s.phase)
    (hmust : t.mustSchedule = s.mustSchedule) (hrunning : (t.tasks w).state = .running) :
    Progress w s t [] := by
  have hcredit : t.credit = s.credit := by
    unfold credit
    rw [hmust, hsame.current, hsame.counter]
  refine ⟨⟨hsame.all ▸ hw.mem, hsame.current ▸ hw.notCurrent, hrunning⟩, ?_,
    .inl ⟨hsame.counter w, ?_, ?_, ?_⟩⟩
  · rw [hsame.shares]
    simp [forkedShares]
  · rw [hphase]
    exact id
  · rw [hphase]
    exact .inl
  · rw [hsame.total, hcredit, hphase]
    simp [forkedShares]

lemma wakeUpProcess_cases : ∃ v : Bool → Bool,
    s.wakeUpProcess p = s.woken p ∨
    s.wakeUpProcess p = ((s.woken p).addToRunqueue p).modify
      s.current fun t => { t with needResched := v t.needResched } := by
  unfold wakeUpProcess rescheduleIdle
  dsimp only
  split_ifs
  · exact ⟨id, .inl rfl⟩
  · exact ⟨fun _ => true, .inr rfl⟩
  · refine ⟨id, .inr ?_⟩
    unfold woken modify addToRunqueue
    simp

/-- A wake-up changes states, `need_resched` and the run queue only. -/
lemma wakeUpProcess_fields : SameLoad s (s.wakeUpProcess p) ∧
    (s.wakeUpProcess p).phase = s.phase ∧ (s.wakeUpProcess p).mustSchedule = s.mustSchedule ∧
    (∀ q, ((s.wakeUpProcess p).tasks q).yield = (s.tasks q).yield) ∧
    ∀ q, (s.tasks q).state = .running → ((s.wakeUpProcess p).tasks q).state = .running := by
  have hstate : ∀ q, (s.tasks q).state = .running → ((s.woken p).tasks q).state = .running := by
    intro q hq
    by_cases hqp : q = p
    · rw [hqp, modify_tasks_self]
    · rw [modify_tasks_of_ne hqp]
      exact hq
  have hyield : ∀ q, ((s.woken p).tasks q).yield = (s.tasks q).yield := modify_field Task.yield rfl
  have hsame : SameLoad s (s.woken p) := .modify
  obtain ⟨v, heq | heq⟩ := @wakeUpProcess_cases s p
  · rw [heq]
    exact ⟨hsame, rfl, rfl, hyield, hstate⟩
  · rw [heq]
    refine ⟨hsame.trans ⟨rfl, rfl, modify_field Task.counter rfl, modify_field Task.nice rfl⟩, rfl,
      rfl, ?_, ?_⟩
    · exact fun q => (modify_field Task.yield rfl q).trans (hyield q)
    · exact fun q hq => (modify_field Task.state rfl q).trans (hstate q hq)

lemma Waits.wake (hw : Waits w s) (p : Nat) : Progress w s (s.wakeUpProcess p) [] := by
  obtain ⟨hsame, hphase, hmust, -, hstate⟩ := @wakeUpProcess_fields s p
  exact hw.quiet hsame hphase hmust (hstate w hw.running)

lemma Waits.setState (hw : Waits w s) (state : TaskState) :
    Progress w s (s.modify s.current fun t => { t with state := state }) [] := by
  refine hw.quiet .modify rfl rfl ?_
  rw [modify_tasks_of_ne hw.notCurrent]
  exact hw.running

lemma charge_keeps (t : Task) : (charge t).nice = t.nice ∧ (charge t).yield = t.yield := by
  rcases charge_cases t with ⟨-, heq⟩ | ⟨-, heq⟩
  all_goals
    rw [heq]
    exact ⟨rfl, rfl⟩

/-- A tick in the idle task, which was asked to call `schedule`, or is in it. -/
lemma Waits.tick_idle (hw : Waits w s) (h : s.Ok) (hmust : s.mustSchedule = false)
    (hidle : s.current = idle) : Progress w s s.updateProcessTimes [.tick] := by
  have hasked : (s.mustSchedule || (s.tasks s.current).needResched ||
      decide (s.phase ≠ .outside)) := by
    by_cases hphase : s.phase = .outside
    · have hasked := (h.idleAsked hidle hphase).resolve_left (ne_nil_of_mem (hw.queued h.toBase))
      rw [hidle, hasked]
      simp
    · simp [hphase]
  have heq : s.updateProcessTimes = { s with mustSchedule := true } := by
    unfold updateProcessTimes
    rw [if_pos hidle, hasked]
  rw [heq]
  have hcredit : s.credit = 1 := by
    unfold credit
    rw [if_neg (by simp [hmust]), if_pos (.inl hidle)]
  have hcreditNow : ({ s with mustSchedule := true } : Sys).credit = 0 := if_pos rfl
  have htotal : ({ s with mustSchedule := true } : Sys).total = s.total := rfl
  refine ⟨{ hw with }, ?_, .inl ⟨rfl, id, .inl, ?_⟩⟩
  · exact Int.le_of_eq (Int.add_zero _).symm
  · change ((1 : Nat) : Int) + _ + _ ≤ _ + _ + 0 + _
    omega

lemma Base.total_modify (h : s.Base) (hne : s.current ≠ idle) {f : Task → Task}
    (hall : t.all = s.all) (htasks : t.tasks = (s.modify s.current f).tasks) :
    t.total = s.total + ((f (s.tasks s.current)).counter - (s.tasks s.current).counter) := by
  have hsum := @sum_map_change _ s.all (fun q => (s.tasks q).counter)
    (fun q => ((s.modify s.current f).tasks q).counter) s.current _ h.nodup (h.mem_all_current hne)
    (fun q _ hq => congrArg Task.counter (modify_tasks_of_ne hq))
  rw [modify_tasks_self] at hsum
  unfold total
  rw [hall, htasks]
  exact hsum

/-- A tick is paid for by the counter of the running task or by its credit. -/
lemma Waits.tick (hw : Waits w s) (h : s.Ok) (hmust : s.mustSchedule = false) :
    Progress w s s.updateProcessTimes [.tick] := by
  by_cases hidle : s.current = idle
  · exact hw.tick_idle h hmust hidle
  have hcounter := (h.task _ (h.toBase.mem_all_current hidle)).counter
  obtain ⟨t, heq, htasks, hall, hcurrent, hphase, hmustNow⟩ : ∃ t : Sys,
      s.updateProcessTimes = t ∧ t.tasks = (s.modify s.current charge).tasks ∧ t.all = s.all ∧
      t.current = s.current ∧ t.phase = s.phase ∧
      ((s.tasks s.current).counter ≤ 1 → t.mustSchedule) := by
    refine ⟨_, if_neg hidle, rfl, rfl, rfl, rfl, fun hfew => ?_⟩
    dsimp only [modify]
    rw [decide_eq_true (show (s.tasks s.current).counter - 1 ≤ 0 by omega)]
    simp
  rw [heq]
  have hother : t.tasks w = s.tasks w := by
    rw [htasks]
    exact modify_tasks_of_ne hw.notCurrent
  have hself : t.tasks s.current = charge (s.tasks s.current) := by
    rw [htasks]
    exact modify_tasks_self
  have hpaid : 1 + ((charge (s.tasks s.current)).counter - (s.tasks s.current).counter) +
      t.credit ≤ s.credit := by
    have hcredit := @credit_nonneg s
    rcases charge_cases (s.tasks s.current) with ⟨hfew, heq⟩ | ⟨hmany, heq⟩
    · have hcreditNow : t.credit = 0 := if_pos (hmustNow hfew)
      have hzero : (charge (s.tasks s.current)).counter = 0 := congrArg Task.counter heq
      have hone : (s.tasks s.current).counter = 0 → s.credit = 1 := by
        intro hnothing
        unfold credit
        rw [if_neg (by simp [hmust]), if_pos (.inr hnothing)]
      omega
    · have hless : (charge (s.tasks s.current)).counter = (s.tasks s.current).counter - 1 :=
        congrArg Task.counter heq
      have hcreditNow : t.credit = 0 := by
        refine credit_eq_zero (hcurrent ▸ hidle) ?_
        rw [hcurrent, hself]
        omega
      omega
  refine ⟨⟨hall ▸ hw.mem, hcurrent ▸ hw.notCurrent, by rw [hother]; exact hw.running⟩, ?_,
    .inl ⟨by rw [hother], by rw [hphase]; exact id, by rw [hphase]; exact .inl, ?_⟩⟩
  · rw [shares_congr hall fun q _ => by
      rw [htasks]; exact modify_field Task.nice (charge_keeps _).1 q]
    exact Int.le_of_eq (Int.add_zero _).symm
  · rw [h.toBase.total_modify hidle hall htasks]
    change ((1 : Nat) : Int) + _ + _ ≤ _ + _ + 0 + _
    omega

/-- **The selection** while `w` waits: the window of a recalculation is entered, for which `w` has no
time left, or a task with time left is selected. -/
theorem Waits.repeatSchedule (hw : Waits w u) (hflags : u.FlagOk) (hbase : u.Base)
    (hagrees : u.Agrees) :
    ((u.tasks w).counter = 0 ∧ u.repeatSchedule = ({ u with phase := .recalculate }, [])) ∨
    (u.repeatSchedule = (u.switchTo u.pick.2, [.selected u.pick.2]) ∧ u.pick.2 ≠ idle ∧
      0 < (u.tasks u.pick.2).counter) := by
  have hqueue := hw.queued hbase
  have hle : goodness (u.tasks w) u.activeMm ≤ u.pick.1 := le_pick hqueue
  have hok := hbase.task w hw.mem
  have hnonneg : 0 ≤ goodness (u.tasks w) u.activeMm ∧
      (goodness (u.tasks w) u.activeMm = 0 → (u.tasks w).counter = 0) := by
    rcases @hok.goodness_cases _ u.activeMm with ⟨hyield, -⟩ | ⟨-, hzero, hweight⟩ | ⟨-, -, hweight⟩
    · rw [hw.yield hflags] at hyield
      cases hyield
    · exact ⟨by omega, fun _ => hzero⟩
    · exact ⟨by omega, fun hcontra => by omega⟩
  unfold Sys.repeatSchedule
  by_cases hzero : u.pick.1 = 0
  · left
    rw [if_pos hzero]
    exact ⟨hnonneg.2 (by omega), rfl⟩
  · right
    rw [if_neg hzero]
    obtain ⟨hmem, hcounter⟩ := hbase.pick_pos hagrees (by omega)
    exact ⟨rfl, hbase.queue_ne_idle hmem, hcounter⟩

lemma switchTo_fields {next : Nat} : (s.switchTo next).all = s.all ∧
    (s.switchTo next).current = next ∧ (s.switchTo next).phase = .outside ∧
    (∀ q, ((s.switchTo next).tasks q).counter = (s.tasks q).counter) ∧
    (∀ q, ((s.switchTo next).tasks q).nice = (s.tasks q).nice) ∧
    (∀ q, ((s.switchTo next).tasks q).state = (s.tasks q).state) ∧
    (s.current ≠ next → ∀ q, ((s.switchTo next).tasks q).yield →
      q ≠ s.current ∧ (s.tasks q).yield) ∧
    (s.current = next → (s.switchTo next).tasks = s.tasks) := by
  unfold switchTo
  dsimp only
  split_ifs with hsame
  · exact ⟨rfl, hsame, rfl, fun _ => rfl, fun _ => rfl, fun _ => rfl, (absurd hsame), fun _ => rfl⟩
  · refine ⟨rfl, rfl, rfl, modify_field Task.counter rfl, modify_field Task.nice rfl,
      modify_field Task.state rfl, fun _ q hflag => ?_, fun hcontra => absurd hcontra hsame⟩
    by_cases hq : q = s.current
    · rw [hq, modify_tasks_self] at hflag
      cases hflag
    · rw [modify_tasks_of_ne hq] at hflag
      exact ⟨hq, hflag⟩

/-- A pass of `schedule` that picks another task. -/
lemma Waits.pass (hw : Waits w s) (hflags : u.FlagOk) (hbase : u.Base)
    (hagrees : u.Agrees) (hsame : SameLoad s u) (hrunning : (u.tasks w).state = .running)
    (hphase : s.phase ≠ .recalculate) (hsel : .selected w ∉ u.repeatSchedule.2) :
    Progress w s u.repeatSchedule.1 u.repeatSchedule.2 := by
  have hwu : Waits w u := ⟨hsame.all ▸ hw.mem, hsame.current ▸ hw.notCurrent, hrunning⟩
  rcases hwu.repeatSchedule hflags hbase hagrees with ⟨hzero, heq⟩ | ⟨heq, hidle, hpos⟩
  · rw [heq]
    have htotal : ({ u with phase := .recalculate } : Sys).total = s.total := hsame.total
    have hshares : ({ u with phase := .recalculate } : Sys).shares = s.shares := hsame.shares
    have hcredit := @credit_le { u with phase := .recalculate }
    have hold := @credit_nonneg s
    refine ⟨⟨hwu.mem, hwu.notCurrent, hrunning⟩, ?_, .inl ⟨hsame.counter w, fun _ => rfl, ?_, ?_⟩⟩
    · rw [hshares]
      exact Int.le_of_eq (Int.add_zero _).symm
    · exact fun _ => .inr ((hsame.counter w).symm.trans hzero)
    · rw [if_pos ⟨rfl, hphase⟩]
      simp only [forkedShares, count_nil, map_nil, sum_nil]
      omega
  · rw [heq] at hsel ⊢
    obtain ⟨hallT, hcurrentT, hphaseT, hcounterT, hniceT, hstateT, -, -⟩ :=
      @switchTo_fields u u.pick.2
    have htotal := (total_congr hallT fun p _ => hcounterT p).trans hsame.total
    have hshares := (shares_congr hallT fun p _ => hniceT p).trans hsame.shares
    have hcredit : (u.switchTo u.pick.2).credit = 0 := by
      refine credit_eq_zero (by rw [hcurrentT]; exact hidle) ?_
      rw [hcurrentT, hcounterT]
      exact hpos
    have hold := @credit_nonneg s
    refine ⟨⟨?_, ?_, ?_⟩, ?_, .inl ⟨?_, fun hcontra => absurd hcontra hphase, ?_, ?_⟩⟩
    · rw [hallT]
      exact hwu.mem
    · rw [hcurrentT]
      rintro rfl
      simp at hsel
    · rw [hstateT]
      exact hrunning
    · rw [hshares]
      exact Int.le_of_eq (Int.add_zero _).symm
    · rw [hcounterT, hsame.counter]
    · rw [hphaseT]
      exact fun hcontra => by cases hcontra
    · simp only [forkedShares, Event.share, map_cons, map_nil, sum_cons, sum_nil]
      simp
      omega

lemma Waits.recalculate (hw : Waits w s) (h : s.Ok) (hphase : s.phase = .recalculate) :
    Progress w s s.recalculate [.recalculated] := by
  have htasks : ∀ p ∈ s.all, s.recalculate.tasks p =
      { s.tasks p with counter := (s.tasks p).counter / 2 + niceToTicks (s.tasks p).nice } :=
    fun p hp => if_pos hp
  have hcounter : ∀ p ∈ s.all, (s.recalculate.tasks p).counter =
      (s.tasks p).counter / 2 + niceToTicks (s.tasks p).nice := by
    intro p hp
    rw [htasks p hp]
  have htotal : s.recalculate.total ≤ s.total + s.shares := by
    have hsum : s.recalculate.total ≤ (s.all.map fun p =>
        (s.tasks p).counter + niceToTicks (s.tasks p).nice).sum := by
      refine sum_le_sum fun p hp => ?_
      rw [hcounter p hp]
      have hnonneg := (h.task p hp).counter
      omega
    rw [sum_map_add] at hsum
    exact hsum
  have hpos : ∀ p ∈ s.all, 0 < (s.recalculate.tasks p).counter := by
    intro p hp
    rw [hcounter p hp]
    have hnonneg := (h.task p hp).counter
    have hshare := h.toBase.share_pos hp
    omega
  have hcredit : s.recalculate.credit ≤ s.credit := by
    by_cases hidle : s.current = idle
    · exact credit_le_credit rfl rfl (absurd hidle)
    · have hnone : s.recalculate.credit = 0 :=
        credit_eq_zero hidle (hpos _ (h.toBase.mem_all_current hidle))
      have hold := @credit_nonneg s
      omega
  refine ⟨⟨hw.mem, hw.notCurrent, ?_⟩, ?_, .inr ⟨hphase, rfl, hpos w hw.mem, ?_⟩⟩
  · rw [htasks w hw.mem]
    exact hw.running
  · have hshares : s.recalculate.shares = s.shares := by
      refine shares_congr rfl fun p hp => ?_
      rw [htasks p hp]
    rw [hshares]
    exact Int.le_of_eq (Int.add_zero _).symm
  · rw [show ([.recalculated] : List Event).count .tick = 0 from rfl]
    omega

/-- A fork splits the parent's counter and adds the child's share. -/
lemma Waits.doFork (hw : Waits w s) (h : s.Ok) {mm : Option Nat} (hne : s.current ≠ idle)
    (hp : p ∉ s.all) : Progress w s (s.doFork p mm) [.forked (s.tasks s.current).nice] := by
  have hcur := h.toBase.mem_all_current hne
  have hpcur : p ≠ s.current := fun heq => hp (heq ▸ hcur)
  have hshare := h.toBase.share_pos hcur
  obtain ⟨⟨hall, hcurrent, hcounter, hnice⟩, hphase, -, -, hstate⟩ :=
    @wakeUpProcess_fields (s.forked p mm) p
  rw [← doFork_eq] at hall hcurrent hphase hcounter hnice hstate
  have hallF : (s.doFork p mm).all = s.all ++ [p] := hall
  have hcurrentF : (s.doFork p mm).current = s.current := hcurrent
  have hphaseF : (s.doFork p mm).phase = s.phase := hphase
  have hother : ∀ q ∈ s.all, q ≠ s.current → (s.forked p mm).tasks q = s.tasks q := fun q hq hqcur =>
    forked_other (fun heq => hp (heq ▸ hq)) hqcur
  have hniceF : ∀ q ∈ s.all, ((s.doFork p mm).tasks q).nice = (s.tasks q).nice := by
    intro q hq
    rw [hnice]
    by_cases hqcur : q = s.current
    · rw [hqcur, forked_current hpcur]
      rfl
    · rw [hother q hq hqcur]
  have hshares : (s.doFork p mm).shares = s.shares + niceToTicks (s.tasks s.current).nice := by
    unfold shares
    rw [hallF, map_append, sum_append,
      map_congr_left fun q hq => congrArg niceToTicks (hniceF q hq)]
    simp only [map_cons, map_nil, sum_cons, sum_nil, hnice, forked_child hpcur]
    simp [childShare]
  have htotal : (s.doFork p mm).total = s.total := by
    unfold total
    rw [hallF, map_append, sum_append]
    have hold := @sum_map_change _ s.all (fun q => (s.tasks q).counter)
      (fun q => ((s.doFork p mm).tasks q).counter) s.current _ h.nodup hcur
      (fun q hq hqcur => by rw [hcounter, hother q hq hqcur])
    rw [hold]
    simp only [map_cons, map_nil, sum_cons, sum_nil, hcounter,
      forked_child hpcur, forked_current hpcur, childShare, parentShare]
    omega
  have hcredit := @credit_le (s.doFork p mm)
  have hold := @credit_nonneg s
  refine ⟨⟨?_, hcurrentF ▸ hw.notCurrent, ?_⟩, ?_, .inl ⟨?_, by rw [hphaseF]; exact id, ?_, ?_⟩⟩
  · rw [hallF]
    exact mem_append_left _ hw.mem
  · apply hstate
    rw [hother w hw.mem hw.notCurrent]
    exact hw.running
  · rw [hshares]
    simp [forkedShares, Event.share]
  · rw [hcounter, hother w hw.mem hw.notCurrent]
  · rw [hphaseF]
    exact .inl
  · simp only [forkedShares, Event.share, map_cons, map_nil, sum_cons, sum_nil]
    simp
    omega

/-- A release hands a counter on, up to `MAX_COUNTER`. -/
lemma Waits.releaseTask (hw : Waits w s) (h : s.Ok) (hne : s.current ≠ idle) (hp : p ∈ s.all)
    (hpne : p ≠ s.current) (hzombie : (s.tasks p).state = .zombie) : Progress w s (s.releaseTask p) [] := by
  have hcur := h.toBase.mem_all_current hne
  have hwp : w ≠ p := by
    rintro rfl
    rw [hw.running] at hzombie
    cases hzombie
  have hother : ∀ q, q ≠ s.current → (s.releaseTask p).tasks q = s.tasks q := fun q hq =>
    Function.update_of_ne hq ..
  have hself : (s.releaseTask p).tasks s.current =
      retrieve (s.tasks p).counter (s.tasks s.current) := Function.update_self ..
  have hchild := (h.task p hp).counter
  have hmine := (h.task _ hcur).counter
  have hretrieve : (s.tasks s.current).counter ≤
        (retrieve (s.tasks p).counter (s.tasks s.current)).counter ∨
      0 < (retrieve (s.tasks p).counter (s.tasks s.current)).counter := by
    unfold retrieve
    dsimp only
    split
    · right
      decide
    · left
      omega
  have hle : (retrieve (s.tasks p).counter (s.tasks s.current)).counter ≤
      (s.tasks s.current).counter + (s.tasks p).counter := by
    unfold retrieve
    dsimp only
    split <;> omega
  have htotal : (s.releaseTask p).total ≤ s.total := by
    have hsplit := sum_map_erase (fun q => (s.tasks q).counter) hp
    have hchange := @sum_map_change _ (s.all.erase p) (fun q => (s.tasks q).counter)
      (fun q => ((s.releaseTask p).tasks q).counter) s.current _ (h.nodup.erase p)
      ((mem_erase_of_ne (Ne.symm hpne)).2 hcur) (fun q _ hq => by rw [hother q hq])
    rw [hself] at hchange
    unfold total
    change ((s.all.erase p).map fun q => ((s.releaseTask p).tasks q).counter).sum ≤ _
    omega
  have hnice : ∀ q, ((s.releaseTask p).tasks q).nice = (s.tasks q).nice := by
    intro q
    by_cases hq : q = s.current
    · rw [hq, hself]
      rfl
    · rw [hother q hq]
  have hshares : (s.releaseTask p).shares ≤ s.shares := by
    have hsplit := sum_map_erase (fun q => niceToTicks (s.tasks q).nice) hp
    have hshare := h.toBase.share_pos hp
    unfold shares
    change ((s.all.erase p).map fun q => niceToTicks ((s.releaseTask p).tasks q).nice).sum ≤ _
    simp only [hnice]
    omega
  have hcredit : (s.releaseTask p).credit ≤ s.credit := by
    rcases hretrieve with hmore | hpos
    · refine credit_le_credit rfl rfl fun _ => ⟨hmine, ?_⟩
      rw [hself]
      exact hmore
    · have hnone : (s.releaseTask p).credit = 0 := by
        refine credit_eq_zero hne ?_
        exact hself ▸ hpos
      have hold := @credit_nonneg s
      omega
  refine ⟨⟨(mem_erase_of_ne hwp).2 hw.mem, hw.notCurrent, ?_⟩, ?_, .inl ⟨?_, id, .inl, ?_⟩⟩
  · rw [hother w hw.notCurrent]
    exact hw.running
  · exact hshares.trans (Int.le_of_eq (Int.add_zero _).symm)
  · rw [hother w hw.notCurrent]
  · simp only [forkedShares, count_nil, map_nil, sum_nil]
    omega

/-! ## The flag of a yield -/

section
variable (h : s.FlagOk)
include h

lemma FlagOk.switchTo (next : Nat) : (s.switchTo next).FlagOk := by
  obtain ⟨hall, hcurrent, -, -, -, -, hcleared, hkept⟩ := @switchTo_fields s next
  intro q hq hflag
  rw [hall] at hq
  rw [hcurrent]
  by_cases hsame : s.current = next
  · rw [hkept hsame] at hflag
    exact (h q hq hflag).trans hsame
  · obtain ⟨hne, hold⟩ := hcleared hsame q hflag
    exact absurd (h q hq hold) hne

lemma FlagOk.frame (hall : ∀ q ∈ t.all, q ∈ s.all) (hcurrent : t.current = s.current)
    (hyield : ∀ q, (t.tasks q).yield = (s.tasks q).yield) : t.FlagOk := by
  intro q hq hflag
  rw [hyield] at hflag
  rw [hcurrent]
  exact h q (hall q hq) hflag

lemma FlagOk.setYield : (s.modify s.current fun t => { t with yield := true }).FlagOk := by
  intro q hq hflag
  by_cases hqcur : q = s.current
  · exact hqcur
  · rw [modify_tasks_of_ne hqcur] at hflag
    exact h q hq hflag

lemma FlagOk.repeatSchedule : s.repeatSchedule.1.FlagOk := by
  unfold Sys.repeatSchedule
  dsimp only
  split_ifs
  · exact h
  · exact h.switchTo _

lemma FlagOk.schedule (hok : s.Ok) (hphase : s.phase = .outside)
    (signalPending : Bool) : (s.schedule signalPending).1.FlagOk := by
  obtain ⟨hprep, -⟩ := hok.prepare hphase signalPending
  apply FlagOk.repeatSchedule
  exact h.frame (fun q hq => hprep.all ▸ hq) hprep.current hprep.yield

/-- The copy of a task without the flag is without it. -/
lemma FlagOk.doFork (hpcur : p ≠ s.current) (mm : Option Nat)
    (hclear : (s.tasks s.current).yield = false) : (s.doFork p mm).FlagOk := by
  obtain ⟨hsame, -, -, hyield, -⟩ := @wakeUpProcess_fields (s.forked p mm) p
  have hforked : (s.forked p mm).FlagOk := by
    intro q hq hflag
    by_cases hqcur : q = s.current
    · exact hqcur
    · by_cases hqp : q = p
      · subst hqp
        rw [forked_child hpcur] at hflag
        exact absurd (hclear.symm.trans hflag) (by decide)
      · rw [forked_other hqp hqcur] at hflag
        have hold : q ∈ s.all :=
          (mem_append.1 hq).resolve_right fun hmem => hqp (mem_singleton.1 hmem)
        exact h q hold hflag
  exact hforked.frame (fun q hq => hsame.all ▸ hq) hsame.current hyield

end

end Sys

/-! ## One action -/

/-- A fork is not made by a task that still has the flag of a yield. -/
def Act.FlagClear (s : Sys) : Act → Prop
  | .fork _ _ => (s.tasks s.current).yield = false
  | _ => True

lemma step_flagOk {s t : Sys} {act : Act} (h : s.Ok) (hflags : s.FlagOk)
    (henabled : act.Enabled s) (hclear : act.FlagClear s) (hstep : step s act = some (t, es)) :
    t.FlagOk := by
  cases act <;> obtain ⟨rfl, -⟩ := some_pair_inj hstep
  case tick =>
    unfold updateProcessTimes
    split_ifs
    · exact hflags
    · exact hflags.frame (fun _ hq => hq) rfl (modify_field Task.yield (charge_keeps _).2)
  case schedule signalPending => exact hflags.schedule h henabled signalPending
  case recalculate =>
    refine hflags.frame (fun _ hq => hq) rfl fun q => ?_
    unfold recalculate
    dsimp only
    split <;> rfl
  case again => exact hflags.repeatSchedule
  case setState state => exact hflags.frame (fun _ hq => hq) rfl (modify_field Task.yield rfl)
  case wake p =>
    obtain ⟨hsame, -, -, hyield, -⟩ := @Sys.wakeUpProcess_fields s p
    exact hflags.frame (fun q hq => hsame.all ▸ hq) hsame.current hyield
  case fork p mm =>
    obtain ⟨-, hne, hp, -⟩ := henabled
    refine hflags.doFork ?_ mm hclear
    rintro rfl
    exact hp (h.toBase.mem_all_current hne)
  case release p =>
    exact hflags.frame (fun _ hq => mem_of_mem_erase hq) rfl (modify_field Task.yield rfl)
  case yield signalPending =>
    obtain ⟨hphase, hne⟩ := henabled
    exact hflags.setYield.schedule (h.setYield hne true) hphase signalPending

lemma Sys.Waits.schedule {s : Sys} {w : Nat} {signalPending : Bool} (hw : Sys.Waits w s)
    (hu : u.Ok) (hflags : u.FlagOk) (hphaseU : u.phase = .outside) (hsame : SameLoad s u)
    (hstate : (u.tasks w).state = .running) (hphase : s.phase = .outside)
    (hsel : .selected w ∉ (u.schedule signalPending).2) :
    Progress w s (u.schedule signalPending).1 (u.schedule signalPending).2 := by
  obtain ⟨hprep, -⟩ := hu.prepare hphaseU signalPending
  have hwu : Waits w u := ⟨hsame.all ▸ hw.mem, hsame.current ▸ hw.notCurrent, hstate⟩
  have hflagsP : (u.prepare signalPending).FlagOk :=
    hflags.frame (fun q hq => hprep.all ▸ hq) hprep.current hprep.yield
  -- the waiting task stays on the run queue
  have hrunning : ((u.prepare signalPending).tasks w).state = .running := by
    refine (hprep.base.queued w (hprep.all ▸ hwu.mem) (hprep.current ▸ hwu.notCurrent)).1 ?_
    exact (hprep.queue w hwu.notCurrent).2 (hwu.queued hu.toBase)
  apply hw.pass hflagsP hprep.base hprep.agrees
    (hsame.trans { hprep with }) hrunning (by simp [hphase])
    hsel

/-- **One action** while a task waits. -/
theorem step_progress {s t : Sys} {act : Act} {w : Nat} (h : s.Ok)
    (hflags : s.FlagOk) (hw : s.Waits w) (henabled : act.Enabled s)
    (hstep : step s act = some (t, es)) (hsel : .selected w ∉ es) : Sys.Progress w s t es := by
  cases act <;> obtain ⟨rfl, rfl⟩ := some_pair_inj hstep
  case tick => exact hw.tick h henabled
  case schedule signalPending =>
    exact hw.schedule h hflags henabled (.refl s) hw.running henabled hsel
  case recalculate => exact hw.recalculate h henabled
  case again =>
    have hphase : s.phase = .again := henabled
    exact hw.pass hflags h.toBase (h.inside (by simp [hphase])) (.refl s) hw.running
      (by simp [hphase]) hsel
  case setState state => exact hw.setState state
  case wake p => exact hw.wake p
  case fork p mm => exact hw.doFork h henabled.2.1 henabled.2.2.1
  case release p =>
    obtain ⟨-, hne, hp, hpne, hzombie⟩ := henabled
    exact hw.releaseTask h hne hp hpne hzombie
  case yield signalPending =>
    obtain ⟨hphase, hne⟩ := henabled
    refine hw.schedule (h.setYield hne true) hflags.setYield hphase .modify ?_ hphase hsel
    rw [modify_tasks_of_ne hw.notCurrent]
    exact hw.running

end PsxLinux.Sched
