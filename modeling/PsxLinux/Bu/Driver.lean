import PsxLinux.Bu.Frame

/-!
# The request path of the memory-card driver

The globals of `bu.c`, the request queue they share with the block layer, and the three
entry points. `do_bu_request` and `bu_interrupt` run with interrupts off and are one
function on the state each; `bu_timeout` makes its tests with interrupts on and is two, cut
at `spin_lock_irqsave`. `goto start` is a recursion on the number of buffers waiting in the
queue.

Events record what the driver does to the outside: dispatches of the FSM, acceptances,
attempts, data bytes moved, completed frames and calls of `end_request`. They are emitted,
never read back.
-/

namespace PsxLinux.Bu

/-! ## The block layer's side -/

/-- A `buffer_head` of a request: its size (an `unsigned short`) and the memory at
`b_data`. -/
structure Chunk where
  bSize : UInt16
  data : ℕ → UInt8

/-- `b_size >> 9`, the `current_nr_sectors` of the request whose current buffer it is. -/
def Chunk.nrSectors (c : Chunk) : ℕ := (c.bSize >>> 9).toNat

/-- Commands of a request. -/
inductive Cmd where
  | read
  | write
  | other (code : ℕ)
deriving DecidableEq

/-- A request on the driver's queue. `bh` is the current buffer, `rest` the buffers after
it on the `b_reqnext` chain. -/
structure Request where
  cmd : Cmd
  minor : ℕ
  sector : UInt32
  bh : Chunk
  rest : List Chunk

def chunks (queue : List Request) : ℕ := (queue.map fun r => r.rest.length + 1).sum

/-! ## Events -/

/-- `bu_first_block_t`: the fields of a card's first block. -/
structure FirstBlock where
  id : UInt32
  size : UInt32
  serial : UInt32
  number : UInt32
deriving DecidableEq

/-- What the driver does to the outside. -/
inductive Event where
  /-- `bu_rd_routine` dispatches on this state and counter. -/
  | dispatch (state cnt : ℕ)
  /-- `do_bu_request` takes the lock for the request at the head of the queue. -/
  | accept (req : Request) (start : UInt32) (len : ℕ) (devices : ℕ → FirstBlock)
  /-- `bu_sw_init` for an attempt at this step, at this card and card block. -/
  | attempt (step card : ℕ) (block : UInt16)
  /-- A data handler moved this byte. -/
  | moved (byte : UInt8)
  /-- The frame of the current attempt ran to `stop = 1`. -/
  | stopped
  /-- `end_request` on the head of the queue, with the current buffer as it is then;
  `accepted` tells a request in service from one turned down. -/
  | ended (accepted ok : Bool) (buffer : ℕ → UInt8)

/-! ## The globals -/

/-- `BU_NONE`, `BU_WAIT`, `BU_READY`, `BU_TIMEOUT`. -/
inductive BuState where
  | none
  | wait
  | ready
  | timeout
deriving DecidableEq

/-- The build: `CONFIG_PSX_LARGE_CARD` joins the cards into one device. -/
structure Config where
  largeCard : Bool

/-- The globals of `bu.c`. `current` is `bu_current` (`-1` when no card is selected),
`timer` says whether `bu_timer` is pending, and `start`, `len`, `card` are the static locals
of `do_bu_request`. `crashed` is set where the code would follow a `NULL` handler, overrun
the block buffer or use `CURRENT` on an empty queue. -/
structure Drv where
  devices : ℕ → FirstBlock
  sizes : ℕ → UInt32
  total : UInt32
  current : ℤ
  buState : BuState
  lock : Bool
  step : ℕ
  isOpen : Bool
  tries : ℕ
  cont : Bool
  timer : Bool
  curr : BuT
  start : UInt32
  len : ℕ
  card : ℕ
  queue : List Request
  crashed : Bool

def Drv.crash (s : Drv) : Drv := { s with crashed := true }

/-! ## `end_request` -/

/-- `end_request (ok)`: `end_that_request_first` moves the head request on to its next
buffer; when there is none the request is dequeued. -/
def endRequest (accepted ok : Bool) (s : Drv) : Drv × List Event :=
  match s.queue with
  | [] => (s.crash, [])
  | r :: q =>
    let ev := [Event.ended accepted ok r.bh.data]
    match r.rest with
    | [] => ({ s with queue := q }, ev)
    | b :: bs =>
      let r' := { r with sector := r.sector + UInt32.ofNat r.bh.nrSectors, bh := b, rest := bs }
      ({ s with queue := r' :: q }, ev)

/-- `end_request (ok)` for the request in service, then drop the card and the lock. -/
def release (ok : Bool) (s : Drv) : Drv × List Event :=
  let (s, ev) := endRequest true ok s
  ({ s with current := -1, lock := false }, ev)

/-! ## `do_bu_request` -/

/-- Where a logical block lives. With joined cards the search loop runs over the slots that
have a card, adding the hidden first blocks and subtracting the card's size; the error is
`j >= BU_MINORS`, with the value left in `bu_curr_request.block`. All of it is 16-bit
arithmetic, as that field is. -/
def locate (cfg : Config) (devices : ℕ → FirstBlock) (card : ℕ) (block : UInt16) :
    Except UInt16 (ℕ × UInt16) :=
  if cfg.largeCard then go buMinors 0 block else .ok (card, block + UInt16.ofNat buFirstBlocks)
where
  /-- The loop of the joined build, from slot `j` on. -/
  go : ℕ → ℕ → UInt16 → Except UInt16 (ℕ × UInt16)
    | 0, _, block => .error block
    | n + 1, j, block =>
      if 0 < (devices j).size then
        let b := block + UInt16.ofNat buFirstBlocks
        if b.toNat < (devices j).size.toNat then .ok (j, b)
        else go n (j + 1) (b - (devices j).size.toUInt16)
      else go n (j + 1) block

/-- `memcpy (bu_curr_request.buffer, CURRENT->buffer + off, BU_BLK_SIZE)`. -/
def readBlock (data : ℕ → UInt8) (off : ℕ) : Vector UInt8 128 :=
  Vector.ofFn fun i => data (off + i)

/-- `memcpy (CURRENT->buffer + off, bu_curr_request.buffer, BU_BLK_SIZE)`. -/
def writeBlock (data : ℕ → UInt8) (off : ℕ) (block : Vector UInt8 128) : ℕ → UInt8 := fun i =>
  if h : off ≤ i ∧ i - off < 128 then block.get ⟨i - off, h.2⟩ else data i

/-- What the body of `do_bu_request` below the acceptance loop does next: return, or go back
to `start`. -/
inductive Next where
  | ret
  | start
deriving DecidableEq

/-- `if (! QUEUE_EMPTY) goto start; else return;` after the lock was dropped. -/
def afterRelease (r : Drv × List Event) : Drv × List Event × Next :=
  (r.1, r.2, if r.1.queue = [] then .ret else .start)

instance (q : List Request) : Decidable (q = []) :=
  match q with
  | [] => isTrue rfl
  | _ :: _ => isFalse (by simp)

/-- `bu_sw_init`, `bu_hw_init` and the first dispatch of an attempt; then the timer is
armed. -/
def startFrame (p : Port) (s : Drv) : Drv × List Event × Next :=
  let s := { s with buState := .none }
  let att := [Event.attempt s.step s.curr.request.card s.curr.request.block]
  match buSwInit s.curr with
  | (bu, none) => afterRelease (release false { s with curr := bu })
  | (bu, some _) =>
    let evs := att ++ [.dispatch bu.state bu.cnt]
    match buRdRoutine bu p with
    | .error _ => ({ s with curr := bu }.crash, evs, .ret)
    | .ok ans =>
      match ans.status with
      | none =>
        let (s, ev, next) := afterRelease (release false { s with curr := ans.bu })
        (s, evs ++ ev, next)
      | some _ => ({ s with curr := ans.bu, timer := true }, evs, .ret)

/-- `do_bu_request` from `if (bu_step < len)` on: the next attempt at the current block, or
the end of the request. -/
def serve (cfg : Config) (p : Port) (s : Drv) : Drv × List Event × Next :=
  if s.step < s.len then
    if nChecks ≤ s.tries then afterRelease (release false s)
    else
      let s := { s with tries := s.tries + 1 }
      match s.queue with
      | [] => (s.crash, [], .ret)
      | r :: _ =>
        let req := s.curr.request
        -- fill the low-level request
        let req := if r.cmd = .write then
          { req with buffer := readBlock r.bh.data (s.step * buBlkSize) } else req
        match locate cfg s.devices req.card (s.start + UInt32.ofNat s.step).toUInt16 with
        | .error block =>
          afterRelease (release false
            { s with curr := { s.curr with request := { req with block := block } } })
        | .ok (card, block) =>
          let req := { req with card := card, block := block, floor := 0 }
          startFrame p { s with curr := { s.curr with request := req } }
  else afterRelease (release true s)

/-- The size `do_bu_request` compares with: the joined build keeps `bu_total`, the other
recomputes it from the card's first block. -/
def totalFor (cfg : Config) (s : Drv) (card : ℕ) : UInt32 :=
  if cfg.largeCard then s.total else (s.devices card).size - UInt32.ofNat buFirstBlocks

/-- The acceptance tests of `do_bu_request`: `false` where it calls `end_request (FALSE)`
and goes on with the next request. -/
def acceptable (cfg : Config) (s : Drv) (r : Request) : Bool :=
  let start := r.sector <<< 2
  let len := r.bh.nrSectors * 4
  (if cfg.largeCard then !decide (0 < r.minor) else !decide (buMinors ≤ r.minor)) &&
    !decide (totalFor cfg s r.minor < start + UInt32.ofNat len) &&
    (decide (r.cmd = .read) || decide (r.cmd = .write))

/-- The globals after the head request passed the acceptance tests. The two assignments
before the range check (`start`, `len`, and `bu_total` in the build without joined cards)
are made for rejected requests too, see `setRange`. -/
def takeRequest (cfg : Config) (s : Drv) (r : Request) : Drv :=
  { s with
    curr := { s.curr with
      request := { s.curr.request with
        mode := if r.cmd = .read then modeR else modeW
        card := if cfg.largeCard then s.curr.request.card else r.minor } }
    lock := true
    current := r.minor
    step := 0
    tries := 0 }

/-- `card`, `start`, `len` and `bu_total`, assigned on the way through the tests. -/
def setRange (cfg : Config) (s : Drv) (r : Request) : Drv :=
  if (if cfg.largeCard then 0 < r.minor else buMinors ≤ r.minor) then { s with card := r.minor }
  else
    { s with
      card := r.minor
      start := r.sector <<< 2
      len := r.bh.nrSectors * 4
      total := totalFor cfg s r.minor }

/-- `do_bu_request` from the label `start`. Every way back to `start` (and to the top of the
`while`, where the lock is still free) has called `end_request`, so one unit of fuel for
each buffer on the queue is enough; running out of it is a crash. `io n` is what the
controller answers to the dispatch made with `n` units left. -/
def fromStart (cfg : Config) (io : ℕ → Port) : ℕ → Drv → Drv × List Event
  | 0, s => (s.crash, [])
  | fuel + 1, s =>
    if s.lock then (s, [])
    else
      match s.queue with
      | [] => (s, [])
      | r :: _ =>
        let s₁ := setRange cfg s r
        if acceptable cfg s r then
          let s₂ := takeRequest cfg s₁ r
          let (s₃, ev, next) := serve cfg (io fuel) s₂
          let ev := Event.accept r s₁.start s₁.len s₁.devices :: ev
          match next with
          | .ret => (s₃, ev)
          | .start =>
            let (s₄, ev') := fromStart cfg io fuel s₃
            (s₄, ev ++ ev')
        else
          let (s₂, ev) := endRequest false false s₁
          let (s₃, ev') := fromStart cfg io fuel s₂
          (s₃, ev ++ ev')

def doBuRequest (cfg : Config) (io : ℕ → Port) (s : Drv) : Drv × List Event :=
  if s.cont then
    let (s, ev, next) := serve cfg (io (chunks s.queue + 1)) s
    match next with
    | .ret => (s, ev)
    | .start =>
      let (s, ev') := fromStart cfg io (chunks s.queue + 1) s
      (s, ev ++ ev')
  else fromStart cfg io (chunks s.queue + 1) s

/-- `bu_continue = TRUE; do_bu_request (NULL); bu_continue = FALSE;` -/
def continueRequest (cfg : Config) (io : ℕ → Port) (s : Drv) : Drv × List Event :=
  let (s, ev) := doBuRequest cfg io { s with cont := true }
  ({ s with cont := false }, ev)

/-! ## The interrupt and timer handlers -/

/-- `if (CURRENT->cmd == READ) memcpy (CURRENT->buffer + bu_step * BU_BLK_SIZE, ..)` after a
complete frame. -/
def storeBlock (r : Request) (step : ℕ) (block : Vector UInt8 128) : Request :=
  if r.cmd = .read then
    { r with bh := { r.bh with data := writeBlock r.bh.data (step * buBlkSize) block } }
  else r

/-- `bu_interrupt`. `p` is what the controller answers to its own dispatch, `io` to those of
the `do_bu_request` it may call. The wake-up of a sleeping `bu_ready` is the system's part. -/
def buInterrupt (cfg : Config) (p : Port) (io : ℕ → Port) (s : Drv) : Drv × List Event :=
  if s.current < 0 then (s, [])
  else if s.isOpen then ({ s with buState := .ready }, [])
  else
    let disp := Event.dispatch s.curr.state s.curr.cnt
    match buRdRoutine s.curr p with
    | .error _ => (s.crash, [disp])
    | .ok ans =>
      let s := { s with curr := ans.bu }
      let evs := disp :: ans.moved.map .moved
      match ans.status with
      | none =>
        let (s, ev) := continueRequest cfg io { s with timer := false }
        (s, evs ++ ev)
      | some _ =>
        if s.curr.stop then
          let s := { s with timer := false }
          match s.queue with
          | [] => (s.crash, evs ++ [.stopped])
          | r :: q =>
            let s := { s with queue := storeBlock r s.step s.curr.request.buffer :: q }
            let (s, ev) := continueRequest cfg io { s with step := s.step + 1, tries := 0 }
            (s, evs ++ .stopped :: ev)
        else ({ s with timer := true }, evs)

/-- `bu_timeout` up to `spin_lock_irqsave`, entered with interrupts on from the timer list,
which has already detached the timer. Says whether the rest, a `continueRequest`, follows. -/
def timeoutTests (s : Drv) : Drv × Bool :=
  if s.current < 0 then (s, false)
  else if s.isOpen then ({ s with buState := .timeout }, false)
  else ({ s with timer := false }, true)

/-- `bu_timeout` with no interrupt after its tests. -/
def buTimeout (cfg : Config) (io : ℕ → Port) (s : Drv) : Drv × List Event :=
  match timeoutTests s with
  | (s, true) => continueRequest cfg io s
  | (s, false) => (s, [])

end PsxLinux.Bu
