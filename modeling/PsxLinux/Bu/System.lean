import PsxLinux.Bu.Driver
import PsxLinux.Lib.Exec

/-!
# The memory-card driver as a concurrent system

Requests, controller interrupts and timer expiries interleave with any number of processes
inside `bu_revalidate`. The handlers are atomic in `step`, and `splitStep` cuts `bu_timeout`
at `spin_lock_irqsave`; a process advances by one assignment at a time (`revStep`), and at
most once per byte inside `bu_check` and `bu_ready`.

A process that waits in `bu_ready` sleeps until a handler wakes `bu_wait`; one that waits in
`bu_catch` sleeps with a timeout, so it may look at the lock again at any time.
-/

namespace PsxLinux.Bu

open Function

/-! ## `bu_revalidate` -/

/-- Locals of a `bu_revalidate` run that has the lock: its card, the slot being scanned, the
sequence number expected there and the size summed up so far. -/
structure Scan where
  card : ℕ
  slot : ℕ
  n : ℕ
  size : UInt32

/-- Program points of `bu_check`, with those of the `bu_ready` it calls. -/
inductive CheckPc where
  /-- The label `try`. -/
  | tryTop
  /-- The top of the `do` loop. -/
  | loopTop
  /-- `bu_state = BU_WAIT` -/
  | rdyWait
  /-- `add_timer (&bu_timer)` -/
  | rdyTimer
  /-- `if (bu_state != BU_READY)` -/
  | rdyTest
  /-- Inside `sleep_on (&bu_wait)`. -/
  | rdySleep
  /-- `del_timer (&bu_timer)` -/
  | rdyDel
  /-- `if (bu_state == BU_READY) return 0; else return -1;` -/
  | rdyRet
  /-- `bu_rd_routine (bu)` -/
  | dispatch
deriving DecidableEq

/-- Where a process stands in `bu_revalidate`; each point names the assignment that comes
next. -/
inductive Rev where
  | idle
  /-- In `bu_catch`, after `i` looks at the lock. -/
  | catching (card i : ℕ)
  /-- `bu_current = card` -/
  | setCurrent (card : ℕ)
  /-- `bu_state = BU_NONE` -/
  | setState (card : ℕ)
  /-- `bu_open = TRUE` -/
  | setOpen (card : ℕ)
  /-- `bu_total = 0` -/
  | zeroTotal (card : ℕ)
  /-- The head of the loop over the slots. -/
  | scan (c : Scan)
  /-- In `bu_check`, with its attempt counter and its own transfer state. -/
  | check (c : Scan) (pc : CheckPc) (tries : ℕ) (bu : BuT)
  /-- `bu_read_first_block` returns 0. -/
  | missing (c : Scan)
  /-- `bu_check` returned 1. -/
  | found (c : Scan) (bu : BuT)
  /-- `bu_current = -1` -/
  | relCurrent
  /-- `bu_open = FALSE` -/
  | relOpen
  /-- `bu_lock = FALSE` -/
  | relLock

/-- The little-endian word at byte `i` of a block. -/
def word (block : Vector UInt8 128) (i : Fin 125) : UInt32 :=
  (block[i.val]).toUInt32 ||| (block[i.val + 1]).toUInt32 <<< 8 |||
    (block[i.val + 2]).toUInt32 <<< 16 ||| (block[i.val + 3]).toUInt32 <<< 24

/-- The first block of a card, as `bu_read_first_block` overlays it on the buffer. -/
def firstBlockOf (block : Vector UInt8 128) : FirstBlock where
  id := word block 0
  size := word block 4
  serial := word block 8
  number := word block 12

/-- The local `bu` and `bu_request` of `bu_read_first_block`. -/
def firstBlockBu (slot : ℕ) : BuT where
  request := { floor := 0, block := 0, card := slot, buffer := Vector.replicate 128 0, mode := modeR }
  cs := 0
  cnt := 0
  state := 0
  stop := false
  hwState := 0
  byte := 0

/-- What follows the scan of a slot: the next slot in the joined build, else the release. -/
def nextSlot (cfg : Config) (s : Drv) (c : Scan) : Drv × Rev :=
  if cfg.largeCard then
    if c.slot + 1 < buMinors then (s, .scan { c with slot := c.slot + 1 })
    else ({ s with sizes := update s.sizes 0 c.size }, .relCurrent)
  else (s, .relCurrent)

/-- One step of `bu_check` (and `bu_ready`); `none` while the process sleeps. -/
def checkStep (p : Port) (s : Drv) (c : Scan) (pc : CheckPc) (tries : ℕ) (bu : BuT) :
    Option (Drv × Rev × List Event) :=
  match pc with
  | .tryTop =>
    if nChecks ≤ tries then some (s, .missing c, [])
    else
      match buSwInit bu with
      | (_, none) => some (s, .missing c, [])
      | (bu, some _) => some (s, .check c .loopTop (tries + 1) bu, [])
  | .loopTop =>
    if bu.state &&& 0xf ≠ 0 then some (s, .check c .rdyWait tries bu, [])
    else some (s, .check c .dispatch tries bu, [])
  | .rdyWait => some ({ s with buState := .wait }, .check c .rdyTimer tries bu, [])
  | .rdyTimer => some ({ s with timer := true }, .check c .rdyTest tries bu, [])
  | .rdyTest =>
    if s.buState ≠ .ready then some (s, .check c .rdySleep tries bu, [])
    else some (s, .check c .rdyDel tries bu, [])
  | .rdySleep => none
  | .rdyDel => some ({ s with timer := false }, .check c .rdyRet tries bu, [])
  | .rdyRet =>
    if s.buState = .ready then some (s, .check c .dispatch tries bu, [])
    else some (s, .check c .tryTop tries bu, [])
  | .dispatch =>
    let disp := [Event.dispatch bu.state bu.cnt]
    match buRdRoutine bu p with
    | .error _ => some (s.crash, .check c .dispatch tries bu, disp)
    | .ok ans =>
      match ans.status with
      | none => some (s, .check c .tryTop tries ans.bu, disp)
      | some _ =>
        if ans.bu.stop then some (s, .found c ans.bu, disp)
        else some (s, .check c .loopTop tries ans.bu, disp)

/-- The next step of a process inside `bu_revalidate`. -/
def revStep (cfg : Config) (p : Port) (s : Drv) : Rev → Option (Drv × Rev × List Event)
  | .idle => none
  | .catching card i =>
    if i < nChecks then
      if s.lock then some (s, .catching card (i + 1), [])
      else some ({ s with lock := true }, .setCurrent card, [])
    else some (s, .idle, [])
  | .setCurrent card => some ({ s with current := card }, .setState card, [])
  | .setState card => some ({ s with buState := .none }, .setOpen card, [])
  | .setOpen card => some ({ s with isOpen := true }, .zeroTotal card, [])
  | .zeroTotal card =>
    some ({ s with total := 0 },
      .scan { card := card, slot := if cfg.largeCard then 0 else card, n := 0, size := 0 }, [])
  | .scan c => some (s, .check c .tryTop 0 (firstBlockBu c.slot), [])
  | .check c pc tries bu => checkStep p s c pc tries bu
  | .missing c =>
    let (s, r) := nextSlot cfg { s with sizes := update s.sizes c.slot 0 } c
    some (s, r, [])
  | .found c bu =>
    let fb := firstBlockOf bu.request.buffer
    if fb.id ≠ buId then some (s, .missing c, [])
    else
      let s := { s with devices := update s.devices c.slot fb }
      if cfg.largeCard ∧ fb.number ≠ UInt32.ofNat c.n then
        some ({ s with sizes := update s.sizes c.card 0 }, .relCurrent, [])
      else
        let size := (fb.size >>> 3) - 1
        let s := { s with
          sizes := update s.sizes c.slot size
          total := s.total + (fb.size - UInt32.ofNat buFirstBlocks) }
        let (s, r) := nextSlot cfg s { c with n := c.n + 1, size := c.size + size }
        some (s, r, [])
  | .relCurrent => some ({ s with current := -1 }, .relOpen, [])
  | .relOpen => some ({ s with isOpen := false }, .relLock, [])
  | .relLock => some ({ s with lock := false }, .idle, [])

/-! ## The system -/

/-- The driver and the processes inside `bu_revalidate`. -/
structure Sys where
  drv : Drv
  rev : ℕ → Rev

/-- `wake_up (&bu_wait)` on the sleepers in `bu_ready`. -/
def wakeUp (rev : ℕ → Rev) : ℕ → Rev := fun t =>
  match rev t with
  | .check c .rdySleep tries bu => .check c .rdyDel tries bu
  | r => r

/-- What can happen next. -/
inductive Act where
  /-- The block layer queues a request behind the head; with `call` it then enters
  `do_bu_request` (`bu_continue` is `FALSE`). -/
  | request (r : Request) (pos : ℕ) (call : Bool) (io : ℕ → Port)
  /-- A controller interrupt, genuine or not. -/
  | interrupt (p : Port) (io : ℕ → Port)
  /-- The pending `bu_timer` expires. -/
  | timeout (io : ℕ → Port)
  /-- A process enters `bu_revalidate`. -/
  | enter (t card : ℕ)
  /-- A process inside `bu_revalidate` makes its next step. -/
  | proc (t : ℕ) (p : Port)

/-- A request is put behind the active head of the queue. -/
def enqueue (r : Request) (pos : ℕ) : List Request → List Request
  | [] => [r]
  | h :: q => h :: q.insertIdx (min pos q.length) r

/-- The driver after the block layer queued a request. -/
def Drv.enqueue (s : Drv) (r : Request) (pos : ℕ) : Drv :=
  { s with queue := Bu.enqueue r pos s.queue }

/-- A handler that finds `bu_open` set only signals the process in `bu_ready`. -/
def signals (s : Drv) : Bool := decide (0 ≤ s.current) && s.isOpen

/-- One step of the system; `none` where the action is not enabled. Nothing follows a
crash. -/
def step (cfg : Config) (s : Sys) (a : Act) : Option (Sys × List Event) :=
  if s.drv.crashed then none
  else
    match a with
    | .request r pos call io =>
      let d := s.drv.enqueue r pos
      if call then
        let (d, ev) := doBuRequest cfg io d
        some ({ s with drv := d }, ev)
      else some ({ s with drv := d }, [])
    | .interrupt p io =>
      let (d, ev) := buInterrupt cfg p io s.drv
      some ({ drv := d, rev := if signals s.drv then wakeUp s.rev else s.rev }, ev)
    | .timeout io =>
      if s.drv.timer then
        let (d, ev) := buTimeout cfg io { s.drv with timer := false }
        some ({ drv := d, rev := if signals s.drv then wakeUp s.rev else s.rev }, ev)
      else none
    | .enter t card =>
      match s.rev t with
      | .idle => some ({ s with rev := update s.rev t (.catching card 0) }, [])
      | _ => none
    | .proc t p =>
      match revStep cfg p s.drv (s.rev t) with
      | none => none
      | some (d, r, ev) => some ({ drv := d, rev := update s.rev t r }, ev)

/-- The system with `bu_timeout` in two parts. -/
structure SplitSys where
  sys : Sys
  /-- `bu_timeout` has made its tests and not yet reached `spin_lock_irqsave`. -/
  expired : Bool

/-- The next part of `bu_timeout`. An interrupt between `detach_timer` and the tests does what
it does before the timer expires, so these two stay together. -/
def timeoutStep (cfg : Config) (io : ℕ → Port) (s : SplitSys) : Option (SplitSys × List Event) :=
  if s.sys.drv.crashed then none
  else if s.expired then
    let (d, ev) := continueRequest cfg io s.sys.drv
    some (⟨⟨d, s.sys.rev⟩, false⟩, ev)
  else if s.sys.drv.timer then
    let (d, expired) := timeoutTests { s.sys.drv with timer := false }
    some (⟨⟨d, if signals s.sys.drv then wakeUp s.sys.rev else s.sys.rev⟩, expired⟩, [])
  else none

/-- A call of one of the two handlers. -/
def Act.isHandler : Act → Bool
  | .interrupt _ _ | .timeout _ => true
  | _ => false

/-- One step of the split system. Interrupts come at any time; nothing else runs while
`bu_timeout` is under way. -/
def splitStep (cfg : Config) (s : SplitSys) (a : Act) : Option (SplitSys × List Event) :=
  match a with
  | .timeout io => timeoutStep cfg io s
  | a =>
    if s.expired && !a.isHandler then none
    else (step cfg s.sys a).map fun r => (⟨r.1, s.expired⟩, r.2)

/-- The globals as the loader initialises them, with whatever the cards showed `bu_init`. -/
def initDrv (devices : ℕ → FirstBlock) (sizes : ℕ → UInt32) (total : UInt32) : Drv where
  devices := devices
  sizes := sizes
  total := total
  current := -1
  buState := .none
  lock := false
  step := 0
  isOpen := false
  tries := 0
  cont := false
  timer := false
  curr := {
    request := { floor := 0, block := 0, card := 0, buffer := Vector.replicate 128 0, mode := 0 }
    cs := 0, cnt := 0, state := 0, stop := false, hwState := 0, byte := 0 }
  start := 0
  len := 0
  card := 0
  queue := []
  crashed := false

/-- A driver that has just been initialised: no request, no process inside. -/
def initSys (devices : ℕ → FirstBlock) (sizes : ℕ → UInt32) (total : UInt32) : Sys where
  drv := initDrv devices sizes total
  rev := fun _ => .idle

end PsxLinux.Bu
