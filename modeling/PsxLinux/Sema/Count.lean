import PsxLinux.Lib.Exec
import PsxLinux.Lib.Tally

/-!
# Counting semaphores without ll/sc

`count` goes down with every task that wants the semaphore and up with every release, `waking` holds
the grants that `__up` has handed out and nobody has taken. Every section with interrupts disabled is
one step. The kernel is not preemptive and there is one CPU: a task is only switched away in
`schedule()`, and a handler runs to its end before what it interrupted goes on. The calls of `up` and
`down_trylock` in progress are therefore a stack. The lowest of them may be the current task's own,
since a task inside `up` is never switched away.
-/

namespace PsxLinux.Sema

def int32 (x : ℤ) : ℤ := x.bmod (2 ^ 32)

/-- The two counters of `struct semaphore`. -/
structure Semaphore where
  count : ℤ
  waking : ℤ
  deriving DecidableEq

namespace Semaphore

def inc (sem : Semaphore) : Semaphore := { sem with count := int32 (sem.count + 1) }

def dec (sem : Semaphore) : Semaphore := { sem with count := int32 (sem.count - 1) }

def incWaking (sem : Semaphore) : Semaphore := { sem with waking := int32 (sem.waking + 1) }

def decWaking (sem : Semaphore) : Semaphore := { sem with waking := int32 (sem.waking - 1) }

end Semaphore

def eintr : ℤ := 4

def wakingNonZero (sem : Semaphore) : Semaphore × ℤ :=
  if sem.waking > 0 then (sem.decWaking, 1) else (sem, 0)

def wakingNonZeroInterruptible (sem : Semaphore) (signalPending : Bool) : Semaphore × ℤ :=
  if sem.waking > 0 then (sem.decWaking, 1)
  else if signalPending then (sem.inc, -eintr)
  else (sem, 0)

def wakingNonZeroTrylock (sem : Semaphore) : Semaphore × ℤ :=
  if sem.waking ≤ 0 then (sem.inc, 1) else (sem.decWaking, 0)

inductive TaskState
  | running
  | interruptible
  | uninterruptible
  deriving DecidableEq

/-- Which of the two functions a task has called. -/
inductive Mode
  | down
  | downInterruptible
  deriving DecidableEq

/-- The `task_state` of `DOWN_HEAD` and `DOWN_TAIL`. -/
def Mode.taskState : Mode → TaskState
  | .down => .uninterruptible
  | .downInterruptible => .interruptible

/-- Where a task is: the next step it makes in `__down` or `__down_interruptible`. -/
inductive Pc
  | idle       -- outside these functions
  | head       -- `tsk->state = (task_state)` of `DOWN_HEAD`
  | queue      -- `add_wait_queue`
  | check      -- `waking_non_zero` or `waking_non_zero_interruptible`
  | schedule   -- in `schedule()`
  | tail       -- `tsk->state = (task_state)` of `DOWN_TAIL`
  | leave      -- `tsk->state = TASK_RUNNING` after the loop
  | unqueue    -- `remove_wait_queue`
  deriving DecidableEq

structure Task where
  pc : Pc
  mode : Mode
  state : TaskState
  sig : Bool
  queued : Bool
  deriving DecidableEq

/-- A call of `up` or `down_trylock` in progress. -/
inductive Frame
  | wakeOneMore   -- in `__up`, before `wake_one_more`
  | wakeUp        -- in `__up`, before `wake_up`
  | trylock       -- in `__down_trylock`
  deriving DecidableEq

/-- The semaphore, the tasks, and the calls in progress on top of the current task, the innermost
first. -/
structure Sys (k : ℕ) where
  sem : Semaphore
  tasks : Fin k → Task
  cur : Fin k
  stack : List Frame

inductive Event
  | upStarted
  | acquired
  | interrupted
  | tryFailed
  deriving DecidableEq

inductive Act (k : ℕ)
  | down (mode : Mode)
  | run
  | up
  | downTrylock
  | frame
  | switch (t : Fin k)
  | signal (t : Fin k)
  | flushSignals (t : Fin k)
  deriving DecidableEq

variable {k : ℕ}

def Sys.setTask (s : Sys k) (t : Fin k) (task : Task) : Sys k :=
  { s with tasks := Function.update s.tasks t task }

/-- `wake_up`: every task on the wait queue becomes runnable; the waiters are not exclusive. -/
def Task.wakeUp (task : Task) : Task :=
  if task.queued then { task with state := .running } else task

/-- The current task calls `down` or `down_interruptible`. -/
def down (s : Sys k) (mode : Mode) : Sys k × List Event :=
  if s.sem.dec.count < 0 then
    ({ s with sem := s.sem.dec }.setTask s.cur
      { s.tasks s.cur with pc := .head, mode := mode }, [])
  else ({ s with sem := s.sem.dec }, [.acquired])

/-- A pass of the loop of `__down` and `__down_interruptible` up to `schedule()` or `break`. -/
def check (s : Sys k) (task : Task) : Sys k × List Event :=
  let r := match task.mode with
    | .down => wakingNonZero s.sem
    | .downInterruptible => wakingNonZeroInterruptible s.sem task.sig
  if r.2 = 0 then ({ s with sem := r.1 }.setTask s.cur { task with pc := .schedule }, [])
  else ({ s with sem := r.1 }.setTask s.cur { task with pc := .leave },
    if r.2 = 1 then [.acquired] else [.interrupted])

/-- The next step of the current task inside `__down` or `__down_interruptible`. -/
def run (s : Sys k) (task : Task) : Option (Sys k × List Event) :=
  match task.pc with
  | .idle => none
  | .head =>
    some (s.setTask s.cur { task with pc := .queue, state := task.mode.taskState }, [])
  | .queue => some (s.setTask s.cur { task with pc := .check, queued := true }, [])
  | .check => some (check s task)
  -- `schedule()` comes back to a task that is runnable, and to no other
  | .schedule =>
    if task.state = .running then some (s.setTask s.cur { task with pc := .tail }, []) else none
  | .tail => some (s.setTask s.cur { task with pc := .check, state := task.mode.taskState }, [])
  | .leave => some (s.setTask s.cur { task with pc := .unqueue, state := .running }, [])
  | .unqueue => some (s.setTask s.cur { task with pc := .idle, queued := false }, [])

/-- `up` as far as the decision whether `__up` is called. -/
def up (s : Sys k) : Sys k × List Event :=
  if s.sem.inc.count ≤ 0 then
    ({ s with sem := s.sem.inc, stack := .wakeOneMore :: s.stack }, [.upStarted])
  else ({ s with sem := s.sem.inc }, [.upStarted])

/-- `down_trylock` as far as the decision whether `__down_trylock` is called. -/
def downTrylock (s : Sys k) : Sys k × List Event :=
  if s.sem.dec.count < 0 then ({ s with sem := s.sem.dec, stack := .trylock :: s.stack }, [])
  else ({ s with sem := s.sem.dec }, [.acquired])

/-- The next step of the innermost call of `up` or `down_trylock`. -/
def frameStep (s : Sys k) : Option (Sys k × List Event) :=
  match s.stack with
  | [] => none
  | .wakeOneMore :: rest => some ({ s with sem := s.sem.incWaking, stack := .wakeUp :: rest }, [])
  | .wakeUp :: rest => some ({ s with tasks := fun t => (s.tasks t).wakeUp, stack := rest }, [])
  | .trylock :: rest =>
    let r := wakingNonZeroTrylock s.sem
    some ({ s with sem := r.1, stack := rest }, if r.2 = 0 then [.acquired] else [.tryFailed])

/-- `schedule()` makes a task that a signal waits for runnable again. -/
def Task.leaveCpu (task : Task) : Task :=
  if task.state = .interruptible ∧ task.sig then { task with state := .running } else task

/-- A task that `schedule()` may go on with. -/
def Task.Runnable (task : Task) : Prop :=
  task.pc = .idle ∨ task.pc = .schedule ∧ task.state = .running

instance (task : Task) : Decidable task.Runnable :=
  inferInstanceAs (Decidable (_ ∨ _))

/-- A signal makes a task that sleeps interruptibly runnable. -/
def Task.signal (task : Task) : Task :=
  if task.state = .interruptible then { task with sig := true, state := .running }
  else { task with sig := true }

/-- One step of the system. -/
def step (s : Sys k) : Act k → Option (Sys k × List Event)
  | .down mode =>
    if s.stack = [] ∧ (s.tasks s.cur).pc = .idle then some (down s mode) else none
  | .run => if s.stack = [] then run s (s.tasks s.cur) else none
  | .up => some (up s)
  | .downTrylock => some (downTrylock s)
  | .frame => frameStep s
  | .switch t =>
    -- a switch happens in `schedule()`, called here or by a task outside these functions
    if s.stack = [] ∧ ((s.tasks s.cur).pc = .idle ∨ (s.tasks s.cur).pc = .schedule) then
      let s' := s.setTask s.cur (s.tasks s.cur).leaveCpu
      if (s'.tasks t).Runnable then some ({ s' with cur := t }, []) else none
    else none
  | .signal t => some (s.setTask t (s.tasks t).signal, [])
  | .flushSignals t => some (s.setTask t { s.tasks t with sig := false }, [])

/-- `sema_init` with the given count, before any call. -/
def initial (n : ℕ) (sig : Fin k → Bool) (cur : Fin k) : Sys k :=
  { sem := { count := n, waking := 0 }
    tasks := fun t => { pc := .idle, mode := .down, state := .running, sig := sig t, queued := false }
    cur := cur
    stack := [] }

/-! ## What the system is in -/

/-- Between the decrement of `count` and the end of the loop. -/
def Task.waits (task : Task) : Bool :=
  match task.pc with
  | .head | .queue | .check | .schedule | .tail => true
  | .idle | .leave | .unqueue => false

def Task.Asleep (task : Task) : Prop := task.pc = .schedule ∧ task.state ≠ .running

instance (task : Task) : Decidable task.Asleep := inferInstanceAs (Decidable (_ ∧ _))

def Sys.sleepers (s : Sys k) : ℕ := Lib.tally (fun task => task.waits.toNat) s.tasks

/-- The calls of `down`, `down_interruptible` and `down_trylock` that have taken one from `count` and
not yet succeeded or given up. -/
def Sys.waiters (s : Sys k) : ℕ := s.sleepers + s.stack.count .trylock

/-- The calls of `up` that have added to `count` and not yet to `waking`. -/
def Sys.grants (s : Sys k) : ℕ := s.stack.count .wakeOneMore

/-- No handler is inside these functions and every task inside them is asleep. -/
def Sys.Quiet (s : Sys k) : Prop :=
  s.stack = [] ∧ ∀ t, (s.tasks t).pc = .idle ∨ (s.tasks t).Asleep

instance (s : Sys k) : Decidable s.Quiet := inferInstanceAs (Decidable (_ ∧ _))

def ups (es : List Event) : ℕ := es.count .upStarted

def acquisitions (es : List Event) : ℕ := es.count .acquired

/-- The step does not carry a counter over the ends of its 32 bits. -/
def Act.InRange (s : Sys k) : Act k → Prop
  | .up => s.sem.count < 2 ^ 31 - 1
  | .down _ | .downTrylock => -2 ^ 31 < s.sem.count
  | .frame => s.stack.head? = some .wakeOneMore → s.sem.waking < 2 ^ 31 - 1
  | .run | .switch _ | .signal _ | .flushSignals _ => True

instance (s : Sys k) : (a : Act k) → Decidable (Act.InRange s a)
  | .up | .down _ | .downTrylock => inferInstanceAs (Decidable (_ < _))
  | .frame => inferInstanceAs (Decidable (_ = _ → _ < _))
  | .run | .switch _ | .signal _ | .flushSignals _ => inferInstanceAs (Decidable True)

end PsxLinux.Sema
