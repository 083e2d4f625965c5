import PsxLinux.Bu.Driver

/-!
# The service a request gets

An observer of the driver's events. `Monitor.step` follows one event; it keeps the request
in service with the attempts made for it so far, and a record of every `end_request` made for an
accepted request. `stray` is raised by any event that does not belong where it occurs: an
acceptance while a request is in service, an attempt, data byte, completed frame or
`end_request` while none is. A run whose monitor never goes stray calls `end_request` at most
once for each acceptance.

`RecordOk` is what a finished record has to satisfy.
-/

namespace PsxLinux.Bu

/-- One attempt at a block: the step of the request it was for, the card and card block it
addressed, the data bytes moved so far and whether its frame ran to `stop = 1`. -/
structure Attempt where
  step : ℕ
  card : ℕ
  block : UInt16
  moved : List UInt8
  stopped : Bool

/-- An accepted request with the attempts made for it, latest first. -/
structure Service where
  req : Request
  start : UInt32
  len : ℕ
  devices : ℕ → FirstBlock
  attempts : List Attempt

/-- A service that ended: the value passed to `end_request` and the request's buffer at that
moment. -/
structure Record where
  svc : Service
  ok : Bool
  buffer : ℕ → UInt8

structure Monitor where
  cur : Option Service
  done : List Record
  stray : Bool

def Monitor.init : Monitor := { cur := none, done := [], stray := false }

/-- Change the latest attempt of the service. -/
def Monitor.onAttempt (m : Monitor) (f : Attempt → Attempt) : Monitor :=
  match m.cur with
  | some ⟨req, start, len, dev, a :: as⟩ => { m with cur := some ⟨req, start, len, dev, f a :: as⟩ }
  | _ => { m with stray := true }

/-- Follow one event. -/
def Monitor.step (m : Monitor) : Event → Monitor
  | .dispatch _ _ => m
  | .accept req start len dev =>
    match m.cur with
    | none => { m with cur := some ⟨req, start, len, dev, []⟩ }
    | some _ => { m with stray := true }
  | .attempt k card block =>
    match m.cur with
    | some svc =>
      { m with cur := some { svc with attempts := ⟨k, card, block, [], false⟩ :: svc.attempts } }
    | none => { m with stray := true }
  | .moved b => m.onAttempt fun a => { a with moved := a.moved ++ [b] }
  | .stopped => m.onAttempt fun a => { a with stopped := true }
  | .ended true ok buf =>
    match m.cur with
    | some svc => { m with cur := none, done := m.done ++ [⟨svc, ok, buf⟩] }
    | none => { m with stray := true }
  | .ended false _ _ =>
    match m.cur with
    | none => m
    | some _ => { m with stray := true }

def Monitor.after (m : Monitor) (evs : List Event) : Monitor := evs.foldl Monitor.step m

@[simp] lemma Monitor.after_nil (m : Monitor) : m.after [] = m := rfl

@[simp] lemma Monitor.after_cons (m : Monitor) (e : Event) (evs : List Event) :
    m.after (e :: evs) = (m.step e).after evs := rfl

@[simp] lemma Monitor.after_append (m : Monitor) (evs evs' : List Event) :
    m.after (evs ++ evs') = (m.after evs).after evs' := List.foldl_append

/-! ## What a service has to look like -/

def blockAt (data : ℕ → UInt8) (k : ℕ) : List UInt8 := (readBlock data (k * buBlkSize)).toList

def attemptsAt (as : List Attempt) (k : ℕ) : List Attempt := as.filter fun a => a.step = k

/-- The data of one attempt against the request's buffer: a read that ran to its end left
its 128 received bytes there; a write sent a prefix of the 128 bytes found there, all of
them if it ran to its end. -/
def DataOk (cmd : Cmd) (data : ℕ → UInt8) (a : Attempt) : Prop :=
  (cmd = .read → a.stopped → a.moved = blockAt data a.step) ∧
    (cmd = .write → a.moved <+: blockAt data a.step ∧
      (a.stopped → a.moved = blockAt data a.step))

/-- An attempt addresses the card block its step of the request stands for. -/
def Located (cfg : Config) (svc : Service) (a : Attempt) : Prop :=
  ∃ c, (cfg.largeCard = false → c = svc.req.minor) ∧
    locate cfg svc.devices c (svc.start + UInt32.ofNat a.step).toUInt16 = .ok (a.card, a.block)

/-- What holds of a service that ended.

* `ok` is true exactly when every step had an attempt that ran to `stop = 1`;
* every attempt addressed its own block and its data agrees with the buffer;
* no step was attempted more than `N_CHECKS` times, and one whose attempts all failed
  `N_CHECKS` times makes the service fail. -/
structure RecordOk (cfg : Config) (r : Record) : Prop where
  len : r.svc.len = r.svc.req.bh.nrSectors * 4
  start : r.svc.start = r.svc.req.sector <<< 2
  ok_iff : r.ok ↔ ∀ k < r.svc.len, ∃ a ∈ r.svc.attempts, a.step = k ∧ a.stopped
  steps : ∀ a ∈ r.svc.attempts, a.step < r.svc.len
  located : ∀ a ∈ r.svc.attempts, Located cfg r.svc a
  data : ∀ a ∈ r.svc.attempts, DataOk r.svc.req.cmd r.buffer a
  written : r.svc.req.cmd = .write → r.buffer = r.svc.req.bh.data
  tries : ∀ k, (attemptsAt r.svc.attempts k).length ≤ nChecks
  failed : ∀ k < r.svc.len, (attemptsAt r.svc.attempts k).length = nChecks →
    (∀ a ∈ attemptsAt r.svc.attempts k, a.stopped = false) → r.ok = false

end PsxLinux.Bu
