import PsxLinux.Lib.Fair
import PsxLinux.Sema.Count

/-!
# Read-write semaphores

`count` starts at `RW_LOCK_BIAS`; a reader takes one from it, a writer the whole bias. A call that
does not get the semaphore at once either keeps its bias and waits for its bit in `granted`, or gives
the bias back by calling the ordinary release function and waits for `count` to recover. Every access
to `count`, `granted`, a wait queue or a task's state is one step, and the steps of the tasks
interleave in any order.
-/

namespace PsxLinux.Sema.Rw

open Function

def rwLockBias : ℤ := 0x01000000

inductive Kind
  | read
  | write
  deriving DecidableEq

def Kind.bias : Kind → ℤ
  | .read => 1
  | .write => rwLockBias

/-- Where a task is: the next step it makes. -/
inductive Pc
  | idle                                       -- outside the semaphore
  | undo (k : Kind)                            -- `up_read` or `up_write` of a waiter
  | add (k : Kind)                             -- `add_wait_queue(&sem->wait, ..)`
  | test (k : Kind)                            -- `while (atomic_read(&sem->count) < 0)`
  | setState (k : Kind)                        -- `set_task_state`
  | testAgain (k : Kind)                       -- the test before `schedule()`
  | schedule (k : Kind)
  | remove (k : Kind)                          -- `remove_wait_queue`
  | setRunning (k : Kind)                      -- `tsk->state = TASK_RUNNING`
  | retry (k : Kind)                           -- the bias is taken again
  | grantAdd (k : Kind)                        -- the second branch: `add_wait_queue`
  | grantTest (k : Kind)                       -- `test_and_clear_bit`
  | grantSetState (k : Kind)
  | grantTestAgain (k : Kind)                  -- `(sem->granted & bit) == 0`
  | grantSchedule (k : Kind)
  | grantRemove (k : Kind)
  | grantSetRunning (k : Kind)
  | readCount                                  -- a writer's `atomic_read(&sem->count) >= 0`
  | wakeWait                                   -- a writer's `wake_up(&sem->wait)`
  | hold (k : Kind)
  | setBit (bit : Kind) (waiter : Option Kind) -- `__rwsem_wake`, `test_and_set_bit`
  | wakeUp (bit : Kind) (waiter : Option Kind) -- `__rwsem_wake`, `wake_up`
  | bug                                        -- `BUG()`
  deriving DecidableEq

structure Task where
  pc : Pc
  state : TaskState
  deriving DecidableEq

variable {k : ℕ}

/-- A wait queue: the tasks, and whether each waits exclusively. -/
abbrev WaitQueue (k : ℕ) := List (Fin k × Bool)

structure Sys (k : ℕ) where
  count : ℤ
  granted : Kind → Bool
  wait : WaitQueue k
  writeBiasWait : WaitQueue k
  tasks : Fin k → Task

inductive Event (k : ℕ)
  | acquired (t : Fin k)
  | bug
  deriving DecidableEq

inductive Act (k : ℕ)
  | down (kind : Kind) (t : Fin k)
  | up (t : Fin k)
  | run (t : Fin k)
  | tick
  deriving DecidableEq

def Sys.setTask (s : Sys k) (t : Fin k) (task : Task) : Sys k :=
  { s with tasks := update s.tasks t task }

def Sys.setPc (s : Sys k) (t : Fin k) (pc : Pc) : Sys k := s.setTask t { s.tasks t with pc := pc }

/-- `wake_up`: the tasks of the queue that are not running, up to the first exclusive one. -/
def wakeAll (tasks : Fin k → Task) : WaitQueue k → Fin k → Task
  | [] => tasks
  | (t, exclusive) :: rest =>
    if (tasks t).state = .running then wakeAll tasks rest
    else if exclusive then update tasks t { tasks t with state := .running }
    else wakeAll (update tasks t { tasks t with state := .running }) rest

/-- `add_wait_queue` at the head, `add_wait_queue_exclusive` at the tail. -/
def enqueue (q : WaitQueue k) (kind : Kind) (t : Fin k) : WaitQueue k :=
  match kind with
  | .read => (t, false) :: q
  | .write => q ++ [(t, true)]

def dequeue (q : WaitQueue k) (t : Fin k) : WaitQueue k := q.filter fun e => e.1 ≠ t

/-- The branch of `__down_read` or `__down_write` that the count leads to. -/
def slowPath (kind : Kind) (count : ℤ) : Pc :=
  match kind with
  | .read => if count < 0 then .undo .read else .grantAdd .read
  | .write => if int32 (count + rwLockBias) < 0 then .undo .write else .grantAdd .write

/-- Whether `down_read` or `down_write` goes on in the slow path. -/
def downFails (kind : Kind) (count : ℤ) : Bool :=
  match kind with
  | .read => count < 0
  | .write => count ≠ 0

/-- The same after the wait for `count`: `goto retry_down`. -/
def retryFails (kind : Kind) (count : ℤ) : Bool :=
  match kind with
  | .read => count ≤ 0
  | .write => count ≠ 0

/-- A task takes its bias. -/
def take (s : Sys k) (t : Fin k) (kind : Kind) (fails : ℤ → Bool) : Sys k × List (Event k) :=
  let count := int32 (s.count - kind.bias)
  if fails count then ({ s with count := count }.setPc t (slowPath kind count), [])
  else ({ s with count := count }.setPc t (.hold kind), [.acquired t])

/-- Where a task goes on after `up_read` or `up_write`: a waiter continues in its slow path. -/
def afterRelease : Option Kind → Pc
  | none => .idle
  | some kind => .add kind

/-- `up_read` and `up_write` as far as the decision whether `__rwsem_wake` is called. -/
def release (s : Sys k) (t : Fin k) (kind : Kind) (waiter : Option Kind) : Sys k :=
  let count := int32 (s.count + kind.bias)
  let s' := { s with count := count }
  match kind with
  | .read => s'.setPc t (if count = 0 then .setBit .write waiter else afterRelease waiter)
  | .write =>
    s'.setPc t (if int32 (count - rwLockBias) < 0 ∧ count ≥ 0 then
      .setBit (if count ≠ 0 then .read else .write) waiter
    else afterRelease waiter)

/-- The count at which a waiter does not go to sleep after all. -/
def wakeCount : Kind → ℤ
  | .read => 0
  | .write => rwLockBias

/-- The queue of the tasks that wait for a bit: readers for `wait`, writers for `write_bias_wait`. -/
def Sys.grantQueue (s : Sys k) : Kind → WaitQueue k
  | .read => s.wait
  | .write => s.writeBiasWait

def Sys.setGrantQueue (s : Sys k) (kind : Kind) (q : WaitQueue k) : Sys k :=
  match kind with
  | .read => { s with wait := q }
  | .write => { s with writeBiasWait := q }

/-- The next step of a task inside the semaphore. -/
def runStep (s : Sys k) (t : Fin k) : Option (Sys k × List (Event k)) :=
  match (s.tasks t).pc with
  | .idle | .hold _ | .bug => none
  | .undo kind => some (release s t kind (some kind), [])
  | .add kind => some ({ s with wait := enqueue s.wait kind t }.setPc t (.test kind), [])
  | .test kind => some (s.setPc t (if s.count < 0 then .setState kind else .remove kind), [])
  | .setState kind => some (s.setTask t ⟨.testAgain kind, .uninterruptible⟩, [])
  | .testAgain kind =>
    some (s.setPc t (if s.count ≥ wakeCount kind then .remove kind else .schedule kind), [])
  | .schedule kind =>
    if (s.tasks t).state = .running then some (s.setPc t (.test kind), []) else none
  | .remove kind => some ({ s with wait := dequeue s.wait t }.setPc t (.setRunning kind), [])
  | .setRunning kind => some (s.setTask t ⟨.retry kind, .running⟩, [])
  | .retry kind => some (take s t kind (retryFails kind))
  | .grantAdd kind =>
    some ((s.setGrantQueue kind (enqueue (s.grantQueue kind) kind t)).setPc t (.grantTest kind), [])
  | .grantTest kind =>
    if s.granted kind then
      some ({ s with granted := update s.granted kind false }.setPc t (.grantRemove kind),
        [.acquired t])
    else some (s.setPc t (.grantSetState kind), [])
  | .grantSetState kind => some (s.setTask t ⟨.grantTestAgain kind, .uninterruptible⟩, [])
  | .grantTestAgain kind =>
    some (s.setPc t (if s.granted kind then .grantTest kind else .grantSchedule kind), [])
  | .grantSchedule kind =>
    if (s.tasks t).state = .running then some (s.setPc t (.grantTest kind), []) else none
  | .grantRemove kind =>
    some ((s.setGrantQueue kind (dequeue (s.grantQueue kind) t)).setPc t (.grantSetRunning kind), [])
  | .grantSetRunning .read => some (s.setTask t ⟨.hold .read, .running⟩, [])
  | .grantSetRunning .write => some (s.setTask t ⟨.readCount, .running⟩, [])
  | .readCount => some (s.setPc t (if s.count ≥ 0 then .wakeWait else .hold .write), [])
  | .wakeWait =>
    some (({ s with tasks := wakeAll s.tasks s.wait } : Sys k).setPc t (.hold .write), [])
  | .setBit bit waiter =>
    if s.granted bit then some (s.setPc t .bug, [.bug])
    else some ({ s with granted := update s.granted bit true }.setPc t (.wakeUp bit waiter), [])
  | .wakeUp bit waiter =>
    some (({ s with tasks := wakeAll s.tasks (s.grantQueue bit) } : Sys k).setPc t
      (afterRelease waiter), [])

/-- One step of the system. -/
def step (s : Sys k) : Act k → Option (Sys k × List (Event k))
  | .down kind t => if (s.tasks t).pc = .idle then some (take s t kind (downFails kind)) else none
  | .up t =>
    match (s.tasks t).pc with
    | .hold kind => some (release s t kind none, [])
    | _ => none
  | .run t => runStep s t
  | .tick => some (s, [])

/-- `init_rwsem`, before any call. -/
def initial (k : ℕ) : Sys k :=
  { count := rwLockBias
    granted := fun _ => false
    wait := []
    writeBiasWait := []
    tasks := fun _ => ⟨.idle, .running⟩ }

/-! ## What a task is doing -/

/-- From the step that got the semaphore to the release. -/
def Pc.holds (kind : Kind) : Pc → Bool
  | .grantRemove k | .grantSetRunning k | .hold k => k = kind
  | .readCount | .wakeWait => kind = .write
  | _ => false

/-- Called and not acquired yet. -/
def Pc.waits : Pc → Bool
  | .undo _ | .add _ | .test _ | .setState _ | .testAgain _ | .schedule _ | .remove _
  | .setRunning _ | .retry _ | .grantAdd _ | .grantTest _ | .grantSetState _ | .grantTestAgain _
  | .grantSchedule _ | .setBit _ (some _) | .wakeUp _ (some _) => true
  | _ => false

/-- Asleep in `schedule()`. -/
def Task.Asleep (task : Task) : Prop :=
  (∃ kind, task.pc = .schedule kind ∨ task.pc = .grantSchedule kind) ∧ task.state ≠ .running

/-- A task inside the semaphore that can move: it runs, or it holds the semaphore and releases it. -/
def Task.CanMove (task : Task) : Prop := task.pc ≠ .idle ∧ ¬ task.Asleep

/-- The task that an action is a step of. -/
def Act.task : Act k → Option (Fin k)
  | .down _ t | .up t | .run t => some t
  | .tick => none

/-- No bias is taken that would have to be given back: a reader comes while no writer holds the
semaphore or waits for it, and a writer while no writer waits already behind a holder. -/
def Act.Direct (s : Sys k) : Act k → Prop
  | .down .read _ => 0 < s.count
  | .down .write _ => 0 ≤ s.count
  | .up _ | .run _ | .tick => True

instance (s : Sys k) : (a : Act k) → Decidable (a.Direct s)
  | .down .read _ => inferInstanceAs (Decidable (_ < _))
  | .down .write _ => inferInstanceAs (Decidable (_ ≤ _))
  | .up _ | .run _ | .tick => inferInstanceAs (Decidable True)

end PsxLinux.Sema.Rw
