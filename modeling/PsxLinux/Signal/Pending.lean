import PsxLinux.Lib.Exec
import PsxLinux.Lib.TailQueue
import PsxLinux.Lib.Bitmap

/-!
# Pending signals

The pending signals of a task as `kernel/signal.c` keeps them: a set of bits and a singly linked
list of queued `siginfo` with a pointer to its last link. The entries come from a slab cache, and
`nr_queued_signals` counts them over all tasks.

What the slab allocator returns and whether the sender has permission (`bad_signal`) are arguments
of a send. The scheduling side of a signal (wake-ups, `exit_code`) is left out, and no notifier is
installed. A list walk that does not end is `none`; its fuel is one more than `nr_queued_signals`.
-/

namespace PsxLinux.Signal

open Lib Function

/-! ## Signal sets -/

/-- `sigset_t`: four words of 32 bits. -/
abbrev Sigset := Nat → BitVec 32

def nsig : Nat := 128

def sigrtmin : Nat := 32

def sigemptyset : Sigset := fun _ => 0

def sigismember (set : Sigset) (sig : Nat) : Bool :=
  (set ((sig - 1) / 32)).getLsbD ((sig - 1) % 32)

def sigaddset (set : Sigset) (sig : Nat) : Sigset :=
  update set ((sig - 1) / 32) (set ((sig - 1) / 32) ||| BitVec.twoPow 32 ((sig - 1) % 32))

def sigdelset (set : Sigset) (sig : Nat) : Sigset :=
  update set ((sig - 1) / 32) (set ((sig - 1) / 32) &&& ~~~BitVec.twoPow 32 ((sig - 1) % 32))

/-- `ffz`: the first clear bit, 32 if there is none. -/
def ffz (word : BitVec 32) : Nat := Bitmap.firstZero (fun i => word.getLsbD i) 0 32

/-- The loop of `next_signal` over the words from `i` on. -/
def nextSignalFrom (signal mask : Sigset) : Nat → Nat → Nat
  | 0, _ => 0
  | n + 1, i =>
    let x := signal i &&& ~~~mask i
    if x ≠ 0 then ffz (~~~x) + i * 32 + 1 else nextSignalFrom signal mask n (i + 1)

/-- `next_signal`: the first signal to be serviced, 0 if there is none. -/
def nextSignal (signal mask : Sigset) : Nat := nextSignalFrom signal mask 4 0

def hasPendingSignals (signal blocked : Sigset) : Bool :=
  (signal 3 &&& ~~~blocked 3) ||| (signal 2 &&& ~~~blocked 2) ||| (signal 1 &&& ~~~blocked 1) |||
    (signal 0 &&& ~~~blocked 0) != 0

/-! ## Signal information -/

/-- `siginfo_t`: three words and a union of 29 more. `si_pid` and `si_uid` are the first two words
of the union. -/
structure Info where
  signo : Nat
  code : Int
  errno : Int
  sifields : Nat → BitVec 32

def siUser : Int := 0

def siKernel : Int := 0x80

/-- The words of the union that `copy_siginfo` copies. -/
def knownFields (code : Int) : Nat := if code < 0 then 29 else 5

def copySiginfo (dst src : Info) : Info where
  signo := src.signo
  code := src.code
  errno := src.errno
  sifields := fun k => if k < knownFields src.code then src.sifields k else dst.sifields k

/-- Store `si_pid` and `si_uid`. -/
def Info.setIds (i : Info) (pid uid : BitVec 32) : Info :=
  { i with sifields := update (update i.sifields 0 pid) 1 uid }

/-- The `info` argument of a send: 0, 1 or a pointer. -/
inductive SendInfo
  | user
  | kernel
  | info (i : Info)

/-- A send: the signal, its information, and the ids of the sender. -/
structure Send where
  sig : Nat
  info : SendInfo
  pid : BitVec 32
  uid : BitVec 32

/-- The information that a send stores in its entry, over what the entry held. -/
def Send.fill (x : Send) (old : Info) : Info :=
  match x.info with
  | .user => { old.setIds x.pid x.uid with signo := x.sig, errno := 0, code := siUser }
  | .kernel => { old.setIds 0 0 with signo := x.sig, errno := 0, code := siKernel }
  | .info i => copySiginfo old i

/-! ## Tasks -/

/-- What decides on the fate of a signal that arrives: `sa_handler` as an address (0 the default,
1 ignore), the blocked set, and whether the task is traced. -/
structure Context where
  handler : Nat → Nat
  blocked : Sigset
  ptraced : Bool

/-- The signal part of a task. `hasSig` is `t->sig != NULL`. -/
structure Task where
  pending : TailQueue Nat
  signal : Sigset
  sigpending : Bool
  hasSig : Bool
  context : Context

/-- The tasks and the memory of the entries. `live` are the entries that are allocated. -/
structure Sys (n : Nat) where
  tasks : Fin n → Task
  next : Nat → Option Nat
  info : Nat → Info
  live : Nat → Bool
  nrQueuedSignals : Int

/-- What a send returns. -/
inductive Ret
  | done
  | einval
  | eperm
  | eagain
deriving DecidableEq, Repr

/-- What happened to the pending signals of a task. -/
inductive Event (n : Nat)
  | cancelled (t : Fin n) (sig : Nat)
  | queued (t : Fin n) (x : Send) (info : Info)
  | unqueued (t : Fin n) (sig : Nat)
  | delivered (t : Fin n) (sig : Nat) (info : Info)
  | zeroed (t : Fin n) (sig : Nat)
  | flushed (t : Fin n)

namespace Sys

variable {n : Nat}

def fuel (s : Sys n) : Nat := s.nrQueuedSignals.toNat + 1

/-- Write back a task. -/
def setTask (s : Sys n) (t : Fin n) (task : Task) : Sys n :=
  { s with tasks := update s.tasks t task }

/-- `kmem_cache_free` of entries, with the counter. -/
def free (s : Sys n) (cells : List Nat) : Sys n :=
  { s with
    live := fun a => s.live a && !cells.contains a
    nrQueuedSignals := s.nrQueuedSignals - cells.length }

def recalcSigpending (s : Sys n) (t : Fin n) : Sys n :=
  let task := s.tasks t
  s.setTask t { task with sigpending := hasPendingSignals task.signal task.context.blocked }

def flushSigqueue (s : Sys n) (t : Fin n) : Option (Sys n) :=
  let task := s.tasks t
  (TailQueue.walk s.next s.fuel task.pending.head).map fun cells =>
    (s.setTask t { task with signal := sigemptyset, pending := .empty }).free cells

def flushSignals (s : Sys n) (t : Fin n) : Option (Sys n × List (Event n)) :=
  ((s.setTask t { s.tasks t with sigpending := false }).flushSigqueue t).map fun s' =>
    (s', [.flushed t])

def exitSighand (s : Sys n) (t : Fin n) : Option (Sys n × List (Event n)) :=
  ((s.setTask t { s.tasks t with hasSig := false, sigpending := false }).flushSigqueue t).map
    fun s' => (s', [.flushed t])

def rmFromQueue (s : Sys n) (t : Fin n) (sig : Nat) : Option (Sys n × List (Event n)) :=
  let task := s.tasks t
  if sigismember task.signal sig then
    (TailQueue.removeAll (fun a => (s.info a).signo == sig) s.fuel s.next task.pending .head
      task.pending.head).map fun r =>
        ((({ s with next := r.1 }).setTask t
          { task with signal := sigdelset task.signal sig, pending := r.2.1 }).free r.2.2,
          [.cancelled t sig])
  else some (s, [])

/-- The signals that `handle_stop_signal` removes when a signal is sent: `SIGKILL` (9) and
`SIGCONT` (25) cancel `SIGSTOP`, `SIGTSTP`, `SIGTTOU` and `SIGTTIN`, and these cancel `SIGCONT`. -/
def cancels (sig : Nat) : List Nat :=
  if sig = 9 ∨ sig = 25 then [23, 24, 27, 26]
  else if sig = 23 ∨ sig = 24 ∨ sig = 26 ∨ sig = 27 then [25]
  else []

/-- Remove some signals one after the other. -/
def rmSignals (s : Sys n) (t : Fin n) : List Nat → Option (Sys n × List (Event n))
  | [] => some (s, [])
  | sig :: sigs =>
    match s.rmFromQueue t sig with
    | none => none
    | some (s', es) => (rmSignals s' t sigs).map fun r => (r.1, es ++ r.2)

def handleStopSignal (s : Sys n) (t : Fin n) (sig : Nat) : Option (Sys n × List (Event n)) :=
  s.rmSignals t (cancels sig)

/-- `signal_type` is 0. -/
def ignoredType (handler sig : Nat) : Bool :=
  if handler > 1 then false
  else if handler = 1 then sig ≠ 18
  -- `SIGCONT`, `SIGWINCH`, `SIGCHLD`, `SIGURG`
  else sig = 25 ∨ sig = 20 ∨ sig = 18 ∨ sig = 21

def ignoredSignal (task : Task) (sig : Nat) : Bool :=
  if task.context.ptraced || sigismember task.context.blocked sig then false
  else if task.hasSig then ignoredType (task.context.handler (sig - 1)) sig
  else true

/-- A real-time signal that was not sent by `kill` is lost with an error if there is no entry for
it. -/
def Send.mustQueue (x : Send) : Bool :=
  match x.info with
  | .info i => decide (sigrtmin ≤ x.sig) && decide (i.code ≠ siUser)
  | _ => false

/-- `send_signal`; `alloc` is what the slab allocator returns. -/
def sendSignal (max : Nat) (s : Sys n) (t : Fin n) (x : Send) (alloc : Option Nat) :
    Sys n × Ret × List (Event n) :=
  let task := s.tasks t
  match (if s.nrQueuedSignals < max then alloc else none) with
  | some q =>
    let (next, pending) := task.pending.append s.next q
    (({ s with
        next := next
        info := update s.info q (x.fill (s.info q))
        live := update s.live q true
        nrQueuedSignals := s.nrQueuedSignals + 1 }).setTask t
      { task with pending := pending, signal := sigaddset task.signal x.sig }, .done,
      [.queued t x (x.fill (s.info q))])
  | none =>
    if Send.mustQueue x then (s, .eagain, [])
    else (s.setTask t { task with signal := sigaddset task.signal x.sig }, .done,
      [.unqueued t x.sig])

def deliverSignal (max : Nat) (s : Sys n) (t : Fin n) (x : Send) (alloc : Option Nat) :
    Sys n × Ret × List (Event n) :=
  let (s', ret, es) := s.sendSignal max t x alloc
  if ret = .done ∧ sigismember (s'.tasks t).context.blocked x.sig = false then
    (s'.setTask t { s'.tasks t with sigpending := true }, ret, es)
  else (s', ret, es)

/-- `send_sig_info`; `bad` is the answer of `bad_signal`. -/
def sendSigInfo (max : Nat) (s : Sys n) (t : Fin n) (x : Send) (alloc : Option Nat)
    (bad : Bool) : Option (Sys n × Ret × List (Event n)) :=
  if nsig < x.sig then some (s, .einval, [])
  else if bad then some (s, .eperm, [])
  else if x.sig = 0 ∨ (s.tasks t).hasSig = false then some (s, .done, [])
  else
    match s.handleStopSignal t x.sig with
    | none => none
    | some (s', es) =>
      if ignoredSignal (s'.tasks t) x.sig then some (s', .done, es)
      -- one non-real-time signal is queued at a time
      else if x.sig < sigrtmin ∧ sigismember (s'.tasks t).signal x.sig then
        some (s', .done, es)
      else
        let (s'', ret, fs) := s'.deliverSignal max t x alloc
        some (s'', ret, es ++ fs)

/-- The information `collect_signal` makes up for a signal without an entry. -/
def zeroInfo (dst : Info) (sig : Nat) : Info :=
  { dst.setIds 0 0 with signo := sig, errno := 0, code := 0 }

/-- `collect_signal`: what is stored in `*info`, if anything. -/
def collectSignal (s : Sys n) (t : Fin n) (sig : Nat) (dst : Info) :
    Option (Sys n × Option Info × List (Event n)) :=
  let task := s.tasks t
  let pass := fun a => (s.info a).signo == sig
  if sigismember task.signal sig then
    match TailQueue.find pass s.next s.fuel .head task.pending.head with
    | none => none
    | some none =>
      some (s.setTask t { task with signal := sigdelset task.signal sig },
        some (zeroInfo dst sig), [.zeroed t sig])
    | some (some (pp, q)) =>
      let (next, pending) := task.pending.unlink s.next pp q
      let info := copySiginfo dst (s.info q)
      -- the search goes on behind the entry for another one
      match (if sigrtmin ≤ sig then TailQueue.find pass next s.fuel pp (s.next q) else some none) with
      | none => none
      | some another =>
        let signal := if another.isSome then task.signal else sigdelset task.signal sig
        some ((({ s with next := next }).setTask t
          { task with pending := pending, signal := signal }).free [q],
          some info, [.delivered t sig info])
  else some (s, none, [])

/-- `dequeue_signal` with no notifier; the result is the signal and the information. -/
def dequeueSignal (s : Sys n) (t : Fin n) (mask : Sigset) (dst : Info) :
    Option (Sys n × (Nat × Option Info) × List (Event n)) :=
  let sig := nextSignal (s.tasks t).signal mask
  if sig ≠ 0 then
    (s.collectSignal t sig dst).map fun r =>
      (r.1.recalcSigpending t, (if r.2.1.isSome then sig else 0, r.2.1), r.2.2)
  else some (s.recalcSigpending t, (0, none), [])

end Sys

/-! ## Runs -/

/-- The calls, and a change of what decides about arriving signals. -/
inductive Act (n : Nat)
  | send (t : Fin n) (x : Send) (alloc : Option Nat) (bad : Bool)
  | dequeue (t : Fin n) (mask : Sigset) (dst : Info)
  | flush (t : Fin n)
  | exit (t : Fin n)
  | context (t : Fin n) (c : Context)

/-- The slab allocator returns an entry that is not allocated, and a `siginfo` that is given names
the signal sent. -/
def Act.Enabled {n : Nat} (s : Sys n) : Act n → Prop
  | .send _ x alloc _ => 1 ≤ x.sig ∧ (∀ q, alloc = some q → s.live q = false) ∧
      ∀ i, x.info = .info i → i.signo = x.sig
  | _ => True

/-- One call. -/
def step {n : Nat} (max : Nat) (s : Sys n) : Act n → Option (Sys n × List (Event n))
  | .send t x alloc bad => (s.sendSigInfo max t x alloc bad).map fun r => (r.1, r.2.2)
  | .dequeue t mask dst => (s.dequeueSignal t mask dst).map fun r => (r.1, r.2.2)
  | .flush t => s.flushSignals t
  | .exit t => s.exitSighand t
  | .context t c => some (s.setTask t { s.tasks t with context := c }, [])

end PsxLinux.Signal
