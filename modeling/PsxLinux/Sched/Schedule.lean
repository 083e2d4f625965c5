import PsxLinux.Lib.Exec

/-!
# The scheduler

`schedule` on one CPU, with the actions that change what it reads: timer ticks, sleeps, wake-ups,
forks, the release of a zombie and yields. Tasks are numbers and the idle task is 0. The list of all
tasks, whose head is the idle task in the source, is a `List` without it.

`schedule` drops its lock to recalculate the counters. The two places where interrupts get in are the
phases `recalculate` and `again`; a pass through `schedule` is one step otherwise. The jump back to
`need_resched_back` is a further pass. Ticks and wake-ups come at any time; everything else is done by
the running task outside `schedule`.
-/

namespace PsxLinux.Sched

open Lib

def idle : Nat := 0

/-- The policy without the flag `SCHED_YIELD`. -/
inductive Policy
  | other
  | fifo
  | rr
deriving DecidableEq, Repr

inductive TaskState
  | running
  | interruptible
  | uninterruptible
  | stopped
  | zombie
deriving DecidableEq, Repr

/-- What the scheduler reads of a task; `yield` is the flag `SCHED_YIELD` of the policy. -/
structure Task where
  counter : Int
  nice : Int
  policy : Policy
  yield : Bool
  rtPriority : Int
  state : TaskState
  needResched : Bool
  mm : Option Nat
deriving DecidableEq, Repr

/-- Where the running task is: outside `schedule`, or in it with the lock dropped, before or after
the counters are recalculated. -/
inductive Phase
  | outside
  | recalculate
  | again
deriving DecidableEq, Repr

/-- The tasks, the run queue and the running task with its `active_mm`. `mustSchedule` records that no
tick comes before the running task has called `schedule` or, being in it, has selected a task. -/
structure Sys where
  tasks : Nat → Task
  all : List Nat
  runqueue : List Nat
  current : Nat
  activeMm : Nat
  phase : Phase
  mustSchedule : Bool

/-- `NICE_TO_TICKS`, with `HZ` below 200 -/
def niceToTicks (nice : Int) : Int := (20 - nice) / 4 + 1

/-- `MAX_COUNTER`, with `HZ` 100 -/
def maxCounter : Int := 20

def goodness (p : Task) (thisMm : Nat) : Int :=
  if p.yield then -1
  else if p.policy = .other then
    if p.counter = 0 then 0
    else p.counter + (if p.mm = some thisMm ∨ p.mm = none then 1 else 0) + (20 - p.nice)
  else 1000 + p.rtPriority

inductive Event
  /-- A timer tick. -/
  | tick
  /-- The counters are recalculated. -/
  | recalculated
  /-- `schedule` selects a task. -/
  | selected (p : Nat)
  /-- A task with this `nice` value is created. -/
  | forked (nice : Int)
deriving DecidableEq, Repr

namespace Sys

/-- Writes to fields of one task. -/
def modify (s : Sys) (p : Nat) (f : Task → Task) : Sys :=
  { s with tasks := Function.update s.tasks p (f (s.tasks p)) }

/-! ## Wake-ups -/

def preemptionGoodness (s : Sys) (prev p : Nat) : Int :=
  goodness (s.tasks p) s.activeMm - goodness (s.tasks prev) s.activeMm

def rescheduleIdle (s : Sys) (p : Nat) : Sys :=
  if s.preemptionGoodness s.current p > 1 then
    s.modify s.current fun t => { t with needResched := true }
  else s

def addToRunqueue (s : Sys) (p : Nat) : Sys := { s with runqueue := p :: s.runqueue }

def wakeUpProcess (s : Sys) (p : Nat) : Sys :=
  let s := s.modify p fun t => { t with state := .running }
  if p ∈ s.runqueue then s else (s.addToRunqueue p).rescheduleIdle p

/-! ## `schedule` -/

def moveRrLast (s : Sys) : Sys :=
  let prev := s.tasks s.current
  if prev.policy = .rr ∧ prev.yield = false ∧ prev.counter = 0 then
    ({ s with runqueue := s.runqueue.erase s.current ++ [s.current] }).modify s.current fun t =>
      { t with counter := niceToTicks t.nice }
  else s

/-- The `switch` on the state of the previous task. -/
def dequeuePrev (s : Sys) (signalPending : Bool) : Sys :=
  match (s.tasks s.current).state with
  | .running => s
  | .interruptible =>
    if signalPending then s.modify s.current fun t => { t with state := .running }
    else { s with runqueue := s.runqueue.erase s.current }
  | _ => { s with runqueue := s.runqueue.erase s.current }

/-- The body of the loop over the run queue. -/
def better (s : Sys) (best : Int × Nat) (p : Nat) : Int × Nat :=
  let weight := goodness (s.tasks p) s.activeMm
  if weight > best.1 then (weight, p) else best

/-- What the loop over the run queue starts with. -/
def start (s : Sys) : Int × Nat :=
  if (s.tasks s.current).state = .running then
    (goodness (s.tasks s.current) s.activeMm, s.current)
  else (-1000, idle)

/-- The scheduler proper: the best weight and its task. -/
def pick (s : Sys) : Int × Nat := s.runqueue.foldl s.better s.start

/-- The switch to the selected task and `__schedule_tail`. -/
def switchTo (s : Sys) (next : Nat) : Sys :=
  let s := { s with phase := .outside, mustSchedule := false }
  if s.current = next then s
  else
    let activeMm := (s.tasks next).mm.getD s.activeMm
    let prev := s.current
    ({ s with current := next, activeMm := activeMm }).modify prev fun t => { t with yield := false }

/-- From `repeat_schedule` on. -/
def repeatSchedule (s : Sys) : Sys × List Event :=
  let best := s.pick
  if best.1 = 0 then ({ s with phase := .recalculate }, [])
  else (s.switchTo best.2, [.selected best.2])

/-- `schedule` up to `repeat_schedule` -/
def prepare (s : Sys) (signalPending : Bool) : Sys :=
  let s := { s with mustSchedule := false }
  let s := s.moveRrLast
  let s := s.dequeuePrev signalPending
  s.modify s.current fun t => { t with needResched := false }

/-- One pass through `schedule` -/
def schedule (s : Sys) (signalPending : Bool) : Sys × List Event :=
  (s.prepare signalPending).repeatSchedule

/-- The loop at `recalculate` -/
def recalculate (s : Sys) : Sys :=
  { s with
    phase := .again
    tasks := fun p =>
      if p ∈ s.all then
        { s.tasks p with counter := (s.tasks p).counter / 2 + niceToTicks (s.tasks p).nice }
      else s.tasks p }

/-! ## The other actions -/

/-- The running task pays for a tick. -/
def charge (t : Task) : Task :=
  if t.counter - 1 ≤ 0 then { t with counter := 0, needResched := true }
  else { t with counter := t.counter - 1 }

/-- `update_process_times`. The running task calls `schedule`, or gets out of it, before the next tick
if this one used up its counter, if it is in `schedule`, or if it is the idle task and
`need_resched` is set. -/
def updateProcessTimes (s : Sys) : Sys :=
  let cur := s.tasks s.current
  if s.current = idle then
    { s with mustSchedule := s.mustSchedule || cur.needResched || decide (s.phase ≠ .outside) }
  else
    ({ s with
      mustSchedule := s.mustSchedule || decide (cur.counter - 1 ≤ 0) ||
        decide (s.phase ≠ .outside) } : Sys).modify s.current charge

/-- What the parent keeps of its counter in `do_fork`. -/
def parentShare (t : Task) : Task :=
  { t with
    counter := t.counter / 2
    needResched := if t.counter / 2 = 0 then true else t.needResched }

/-- The new task of `do_fork`: a copy of its parent with the other part of the counter, and with the
memory that `copy_mm` gave it. -/
def childShare (t : Task) (mm : Option Nat) : Task :=
  { t with counter := (t.counter + 1) / 2, state := .uninterruptible, mm := mm }

/-- `do_fork`, as far as scheduling goes -/
def doFork (s : Sys) (p : Nat) (mm : Option Nat) : Sys :=
  let child := childShare (s.tasks s.current) mm
  let s := { s with tasks := Function.update s.tasks p child, all := s.all ++ [p] }
  let s := s.modify s.current parentShare
  s.wakeUpProcess p

/-- The time slices of a released task go to the running one. -/
def retrieve (counter : Int) (t : Task) : Task :=
  { t with
    counter := if t.counter + counter ≥ maxCounter then maxCounter else t.counter + counter }

/-- `release_task`, as far as scheduling goes -/
def releaseTask (s : Sys) (p : Nat) : Sys :=
  ({ s with all := s.all.erase p }).modify s.current (retrieve (s.tasks p).counter)

end Sys

/-! ## Runs -/

inductive Act
  | tick
  | schedule (signalPending : Bool)
  | recalculate
  | again
  /-- The running task sets its state, before it calls `schedule` or when it exits. -/
  | setState (state : TaskState)
  | wake (p : Nat)
  | fork (p : Nat) (mm : Option Nat)
  | release (p : Nat)
  | yield (signalPending : Bool)
deriving DecidableEq, Repr

/-- Which actions are possible. No zombie is woken; only a zombie is released, and not by itself. -/
def Act.Enabled (s : Sys) : Act → Prop
  | .tick => s.mustSchedule = false
  | .schedule _ => s.phase = .outside
  | .recalculate => s.phase = .recalculate
  | .again => s.phase = .again
  | .setState _ => s.phase = .outside ∧ s.current ≠ idle ∧ (s.tasks s.current).state ≠ .zombie
  | .wake p => p ∈ s.all ∧ (s.tasks p).state ≠ .zombie
  | .fork p _ => s.phase = .outside ∧ s.current ≠ idle ∧ p ∉ s.all ∧ p ≠ idle
  | .release p => s.phase = .outside ∧ s.current ≠ idle ∧ p ∈ s.all ∧ p ≠ s.current ∧
      (s.tasks p).state = .zombie
  | .yield _ => s.phase = .outside ∧ s.current ≠ idle

instance (s : Sys) : (act : Act) → Decidable (act.Enabled s)
  | .tick | .schedule _ | .recalculate | .again => inferInstanceAs (Decidable (_ = _))
  | .setState _ | .wake _ | .fork .. | .release _ | .yield _ => inferInstanceAs (Decidable (_ ∧ _))

/-- One action. -/
def step (s : Sys) : Act → Option (Sys × List Event)
  | .tick => some (s.updateProcessTimes, [.tick])
  | .schedule signalPending => some (s.schedule signalPending)
  | .recalculate => some (s.recalculate, [.recalculated])
  | .again => some s.repeatSchedule
  | .setState state => some (s.modify s.current fun t => { t with state := state }, [])
  | .wake p => some (s.wakeUpProcess p, [])
  | .fork p mm => some (s.doFork p mm, [.forked (s.tasks s.current).nice])
  | .release p => some (s.releaseTask p, [])
  | .yield signalPending =>
    some ((s.modify s.current fun t => { t with yield := true }).schedule signalPending)

end PsxLinux.Sched
