import PsxLinux.Lib.Exec

/-!
# The request queue of a block device

`__make_request` of `drivers/block/ll_rw_blk.c` with the elevator of `drivers/block/elevator.c`, on a
queue set up by `blk_init_queue`. Requests and buffers are numbered; `queue` is the list behind
`queue_head` and `freelist` are the two free lists, front first. The buffers of a request are chained
through `b_reqnext`.

A step is what is done under one hold of `io_request_lock`. A call of `__make_request` that finds no
free request waits, gets one later and starts again with it; if it then merges the buffer it has to
give that request back. The driver completes the first buffer of the head request at a time, and its
calls from within `__make_request` are steps of their own. Sectors are 32-bit words; the numbers of
sectors of a request stay below the limit of the device and are natural numbers.
-/

namespace PsxLinux.Blk

open Lib Function

/-- `READ` and `WRITE` -/
inductive Cmd
  | read
  | write
deriving DecidableEq

/-- What a buffer is to transfer. -/
structure Io where
  rdev : Nat
  rsector : BitVec 32
  size : Nat
  data : BitVec 32
deriving DecidableEq

def Io.count (io : Io) : Nat := io.size / 512

/-- A buffer; `lock` is `BH_Lock`, which the submitter sets and `b_end_io` clears. -/
structure Bh where
  io : Io
  reqnext : Option Nat
  lock : Bool
deriving DecidableEq

/-- A request; `freeList` is the list it was taken from, and `e` says that its elevator is set. -/
structure Request where
  elevatorSequence : Int
  freeList : Option Cmd
  rqDev : Nat
  cmd : Cmd
  sector : BitVec 32
  nrSectors : Nat
  hardSector : BitVec 32
  hardNrSectors : Nat
  nrSegments : Nat
  currentNrSectors : Nat
  bh : Option Nat
  bhtail : Nat
  e : Bool
deriving DecidableEq

/-- A call of `__make_request` that does not hold the lock. -/
inductive Call
  /-- in `__get_request_wait`, without a request -/
  | waiting (b : Nat) (cmd : Cmd)
  /-- about to start again with a request -/
  | again (b : Nat) (cmd : Cmd) (freereq : Nat)
  /-- at the end, with a request that was not needed -/
  | release (freereq : Nat)
deriving DecidableEq

structure Queue where
  reqs : Nat → Request
  bhs : Nat → Bh
  freelist : Cmd → List Nat
  queue : List Nat
  plugged : Bool
  calls : List Call

/-- The limits of the devices and the latencies of the elevator. -/
structure Config where
  maxSectors : Nat → Nat
  latency : Cmd → Int

def queueNrRequests : Nat := 256

def maxSegments : Nat := 254

/-- What `elevator_linus_merge` found: the requests between the head and it (from the back), the
request, and those that were passed over. -/
structure Merge where
  front : Bool
  before : List Nat
  req : Nat
  passed : List Nat
deriving DecidableEq

/-- How a pass of `__make_request` ended: at `out`, with the request that is left over, or without a
free request. -/
inductive Outcome
  | out (freereq : Option Nat)
  | noRequest
deriving DecidableEq

namespace Queue

/-- Change a request. -/
def modify (s : Queue) (r : Nat) (f : Request → Request) : Queue :=
  { s with reqs := update s.reqs r (f (s.reqs r)) }

/-- Store into `b_reqnext`. -/
def setReqnext (s : Queue) (b : Nat) (next : Option Nat) : Queue :=
  { s with bhs := update s.bhs b { s.bhs b with reqnext := next } }

/-! ### Free requests -/

def blkInitFreeList : Cmd → List Nat :=
  (List.range queueNrRequests).foldl (fun f i =>
    let c := if i % 2 = 0 then Cmd.read else Cmd.write
    update f c (i :: f c)) fun _ => []

/-- The label `got_rq` of `get_request`. -/
def gotRq (s : Queue) (list : Cmd) (r : Nat) (rest : List Nat) : Queue :=
  ({ s with freelist := update s.freelist list rest } : Queue).modify r
    fun q => { q with freeList := some list }

def getRequest (s : Queue) (cmd : Cmd) : Option (Nat × Queue) :=
  match s.freelist cmd with
  | r :: rest => some (r, s.gotRq cmd r rest)
  | [] =>
    match s.freelist .write with
    | r :: rest => some (r, s.gotRq .write r rest)
    | [] => none

def blkdevReleaseRequest (s : Queue) (r : Nat) : Queue :=
  match (s.reqs r).freeList with
  | some list =>
    ({ s with freelist := update s.freelist list (r :: s.freelist list) } : Queue).modify r
      fun q => { q with freeList := none }
  | none => s

/-! ### The elevator -/

/-- Let every request of a list be passed once more. -/
def passOver (s : Queue) (rs : List Nat) : Queue :=
  { s with reqs := fun r =>
      if r ∈ rs then { s.reqs r with elevatorSequence := (s.reqs r).elevatorSequence - 1 }
      else s.reqs r }

def inOrder (p q : Request) : Bool :=
  (p.rqDev == q.rqDev && decide (p.sector < q.sector)) || decide (p.rqDev < q.rqDev)

/-- The requests in front of the place `head` of `__make_request`, and those behind it: the first
request of an unplugged queue may be active. -/
def skipped (s : Queue) : List Nat := if s.plugged then [] else s.queue.take 1

def candidates (s : Queue) : List Nat := if s.plugged then s.queue else s.queue.drop 1

/-- The walk of `elevator_linus` from the back: the requests that the new one passes, and the
others. -/
def elevatorWalk (s : Queue) (req : Request) : List Nat → List Nat × List Nat
  | [] => ([], [])
  | r :: rest =>
    if inOrder (s.reqs r) req ∨ (s.reqs r).elevatorSequence = 0 then ([], r :: rest)
    else
      let w := elevatorWalk s req rest
      (r :: w.1, w.2)

def elevatorLinus (s : Queue) (r : Nat) (latency : Int) : Queue :=
  let s := s.modify r fun q => { q with elevatorSequence := latency }
  let w := s.elevatorWalk (s.reqs r) s.candidates.reverse
  let t := s.passOver w.1
  { t with queue := s.skipped ++ w.2.reverse ++ r :: w.1.reverse }

/-- The first loop of `elevator_linus_merge` over the requests from the back. -/
def mergeWalk (s : Queue) (io : Io) (cmd : Cmd) (maxSectors : Nat) : List Nat → List Nat → Option Merge
  | [], _ => none
  | r :: rest, passed =>
    let q := s.reqs r
    if q.cmd ≠ cmd ∨ maxSectors < q.nrSectors + io.count ∨ q.rqDev ≠ io.rdev then
      mergeWalk s io cmd maxSectors rest (r :: passed)
    else if q.sector + BitVec.ofNat 32 q.nrSectors = io.rsector then some ⟨false, rest, r, passed⟩
    else if q.elevatorSequence = 0 then none
    else if q.sector - BitVec.ofNat 32 io.count = io.rsector then some ⟨true, rest, r, passed⟩
    else mergeWalk s io cmd maxSectors rest (r :: passed)

def elevatorLinusMerge (s : Queue) (io : Io) (cmd : Cmd) (maxSectors : Nat) : Queue × Option Merge :=
  match s.mergeWalk io cmd maxSectors s.candidates.reverse [] with
  | none => (s, none)
  | some m => (s.passOver (if m.front then m.req :: m.passed else m.passed), some m)

/-! ### Merging -/

/-- The data of one buffer ends where that of another starts. -/
def contiguous (s : Queue) (b c : Nat) : Bool :=
  (s.bhs b).io.data + BitVec.ofNat 32 (s.bhs b).io.size == (s.bhs c).io.data

def llNewSegment (s : Queue) (r : Nat) : Option Queue :=
  if (s.reqs r).nrSegments < maxSegments then
    some (s.modify r fun q => { q with nrSegments := q.nrSegments + 1 })
  else none

def llBackMergeFn (s : Queue) (r b : Nat) : Option Queue :=
  if s.contiguous (s.reqs r).bhtail b then some s else s.llNewSegment r

def llFrontMergeFn (s : Queue) (r b : Nat) : Option Queue :=
  if (s.reqs r).bh.any fun c => s.contiguous b c then some s else s.llNewSegment r

/-- `total_segments` of `ll_merge_requests_fn` -/
def totalSegments (s : Queue) (r n : Nat) : Nat :=
  let same := (s.reqs n).bh.any fun c => s.contiguous (s.reqs r).bhtail c
  (s.reqs r).nrSegments + (s.reqs n).nrSegments - (if same then 1 else 0)

def llMergeRequestsFn (s : Queue) (r n : Nat) : Option Queue :=
  if maxSegments < s.totalSegments r n then none
  else some (s.modify r fun q => { q with nrSegments := s.totalSegments r n })

/-- The end of `attempt_merge`: the buffers of the next request go to the end of this one. -/
def fuse (s : Queue) (r n : Nat) : Queue :=
  let t := (s.setReqnext (s.reqs r).bhtail (s.reqs n).bh).modify r fun q =>
    { q with
      bhtail := (s.reqs n).bhtail
      nrSectors := q.hardNrSectors + (s.reqs n).hardNrSectors
      hardNrSectors := q.hardNrSectors + (s.reqs n).hardNrSectors }
  ({ t with queue := t.queue.erase n } : Queue).blkdevReleaseRequest n

/-- `attempt_merge` of a request and the next one -/
def attemptMerge (s : Queue) (r n : Nat) (maxSectors : Nat) : Queue :=
  if (s.reqs r).sector + BitVec.ofNat 32 (s.reqs r).nrSectors ≠ (s.reqs n).sector then s
  else if (s.reqs r).cmd ≠ (s.reqs n).cmd ∨ (s.reqs r).rqDev ≠ (s.reqs n).rqDev ∨
      maxSectors < (s.reqs r).nrSectors + (s.reqs n).nrSectors then s
  else
    match s.llMergeRequestsFn r n with
    | none => s
    | some t => t.fuse r n

/-- `attempt_back_merge`; `passed` are the requests behind -/
def attemptBackMerge (s : Queue) (r : Nat) (passed : List Nat) (maxSectors : Nat) : Queue :=
  match passed with
  | [] => s
  | n :: _ => s.attemptMerge r n maxSectors

/-- `attempt_front_merge`; `before` are the requests in front, up to the head -/
def attemptFrontMerge (s : Queue) (before : List Nat) (r : Nat) (maxSectors : Nat) : Queue :=
  match before with
  | [] => s
  | p :: _ => s.attemptMerge p r maxSectors

/-- The buffer becomes the last of a request. -/
def pushBack (s : Queue) (r b : Nat) : Queue :=
  (s.setReqnext (s.reqs r).bhtail (some b)).modify r fun q =>
    { q with
      bhtail := b
      nrSectors := q.hardNrSectors + (s.bhs b).io.count
      hardNrSectors := q.hardNrSectors + (s.bhs b).io.count
      e := true }

/-- The buffer becomes the first of a request. -/
def pushFront (s : Queue) (r b : Nat) : Queue :=
  (s.setReqnext b (s.reqs r).bh).modify r fun q =>
    { q with
      bh := some b
      currentNrSectors := (s.bhs b).io.count
      sector := (s.bhs b).io.rsector
      hardSector := (s.bhs b).io.rsector
      nrSectors := q.hardNrSectors + (s.bhs b).io.count
      hardNrSectors := q.hardNrSectors + (s.bhs b).io.count
      e := true }

/-- The two cases of a merge in `__make_request`; `none` if the buffer needs a request of its own. -/
def mergeInto (s : Queue) (b : Nat) (m : Merge) (maxSectors : Nat) : Option Queue :=
  if m.front then
    (s.llFrontMergeFn m.req b).map fun s =>
      (s.pushFront m.req b).attemptFrontMerge m.before m.req maxSectors
  else
    (s.llBackMergeFn m.req b).map fun s =>
      (s.pushBack m.req b).attemptBackMerge m.req m.passed maxSectors

/-- A new request for the buffer, and `add_request`. -/
def fillRequest (C : Config) (s : Queue) (r b : Nat) (cmd : Cmd) : Queue :=
  (s.modify r fun q =>
    { q with
      cmd := cmd
      hardSector := (s.bhs b).io.rsector
      sector := (s.bhs b).io.rsector
      hardNrSectors := (s.bhs b).io.count
      nrSectors := (s.bhs b).io.count
      currentNrSectors := (s.bhs b).io.count
      nrSegments := 1
      bh := some b
      bhtail := b
      rqDev := (s.bhs b).io.rdev
      e := true }).elevatorLinus r (C.latency cmd)

/-- The label `get_rq`. -/
def getRq (C : Config) (s : Queue) (b : Nat) (cmd : Cmd) (freereq : Option Nat) : Queue × Outcome :=
  match freereq with
  | some r => (fillRequest C s r b cmd, .out none)
  | none =>
    match s.getRequest cmd with
    | some (r, t) => (fillRequest C t r b cmd, .out none)
    | none => (s, .noRequest)

/-- `__make_request` from the label `again` to the release of the lock. -/
def makeRequest (C : Config) (s : Queue) (b : Nat) (cmd : Cmd) (freereq : Option Nat) :
    Queue × Outcome :=
  -- `list_empty (head)`, and `generic_plug_device`
  if s.queue = [] then getRq C { s with plugged := true } b cmd freereq
  else
    let io := (s.bhs b).io
    let (t, m) := s.elevatorLinusMerge io cmd (C.maxSectors io.rdev)
    match m.bind fun m => t.mergeInto b m (C.maxSectors io.rdev) with
    | some u => (u, .out freereq)
    | none => getRq C t b cmd freereq

/-! ### Completion -/

/-- `b_end_io` lets the buffer go. -/
def unlock (s : Queue) (b : Nat) : Queue :=
  { s with bhs := update s.bhs b { s.bhs b with lock := false } }

/-- `end_that_request_first`: the buffer that ended, and whether there are more. -/
def endThatRequestFirst (s : Queue) (r : Nat) : Queue × Option Nat × Bool :=
  match (s.reqs r).bh with
  | none => (s, none, false)
  | some b =>
    let nsect := (s.bhs b).io.count
    let next := (s.bhs b).reqnext
    let t := ((s.modify r fun q => { q with bh := next }).setReqnext b none).unlock b
    match next with
    | none => (t, some b, false)
    | some c =>
      let current := (s.bhs c).io.count
      (t.modify r fun q =>
        { q with
          hardSector := q.hardSector + BitVec.ofNat 32 nsect
          hardNrSectors := q.hardNrSectors - nsect
          sector := q.hardSector + BitVec.ofNat 32 nsect
          nrSectors := max (q.hardNrSectors - nsect) current
          currentNrSectors := current }, some b, true)

/-- `blkdev_dequeue_request` and `end_that_request_last` -/
def endThatRequestLast (s : Queue) (r : Nat) : Queue :=
  let t := s.modify r fun q => { q with e := false }
  ({ t with queue := t.queue.erase r } : Queue).blkdevReleaseRequest r

end Queue

inductive Event
  | submitted (b : Nat) (cmd : Cmd)
  /-- a call of `b_end_io` -/
  | ended (b : Nat)
deriving DecidableEq

/-- The steps; `submit` is the start of `__make_request`, with `READA` if `ahead` is set. -/
inductive Act
  | submit (b : Nat) (io : Io) (cmd : Cmd) (ahead : Bool)
  | grab (b : Nat) (cmd : Cmd)
  | retry (b : Nat) (cmd : Cmd) (freereq : Nat)
  | release (freereq : Nat)
  | unplug
  | complete
deriving DecidableEq

namespace Queue

/-- The lock is dropped at the end of a pass. -/
def leave (s : Queue) (b : Nat) (cmd : Cmd) : Outcome → Queue
  | .out none => s
  | .out (some r) => { s with calls := .release r :: s.calls }
  | .noRequest => { s with calls := .waiting b cmd :: s.calls }

def endCall (s : Queue) (c : Call) : Queue := { s with calls := s.calls.erase c }

/-- `end_request`: the driver has transferred the first buffer of the head request. -/
def endRequest (s : Queue) : Option (Queue × List Event) :=
  match s.queue with
  | [] => none
  | r :: _ =>
    let (t, ended, more) := s.endThatRequestFirst r
    some (if more then t else t.endThatRequestLast r, ended.toList.map .ended)

end Queue

/-- One step of the queue. -/
def step (C : Config) (s : Queue) : Act → Option (Queue × List Event)
  | .submit b io cmd ahead =>
    let s : Queue := { s with bhs := update s.bhs b { s.bhs b with io := io, lock := true } }
    let (t, o) := s.makeRequest C b cmd none
    if ahead ∧ o = .noRequest then some (t.unlock b, [.submitted b cmd, .ended b])
    else some (t.leave b cmd o, [.submitted b cmd])
  | .grab b cmd =>
    match s.getRequest cmd with
    | some (r, t) =>
      let t := t.endCall (.waiting b cmd)
      some ({ t with calls := .again b cmd r :: t.calls }, [])
    | none => some ({ s with plugged := false }, [])
  | .retry b cmd r =>
    let (t, o) := (s.endCall (.again b cmd r)).makeRequest C b cmd (some r)
    some (t.leave b cmd o, [])
  | .release r => some ((s.endCall (.release r)).blkdevReleaseRequest r, [])
  | .unplug => some ({ s with plugged := false }, [])
  | .complete => s.endRequest

/-- Which steps can be taken: a buffer is submitted once at a time, with a size of whole sectors within
the limit of its device; a call goes on from where it is. -/
def Act.Enabled (C : Config) (s : Queue) : Act → Prop
  | .submit b io cmd ahead => (s.bhs b).lock = false ∧ io.size % 512 = 0 ∧
      io.count ≤ C.maxSectors io.rdev ∧ (ahead → cmd = .read)
  | .grab b cmd => .waiting b cmd ∈ s.calls
  | .retry b cmd r => .again b cmd r ∈ s.calls
  | .release r => .release r ∈ s.calls
  | .unplug => True
  | .complete => s.queue ≠ []

instance (C : Config) (s : Queue) (act : Act) : Decidable (act.Enabled C s) :=
  match act with
  | .submit _ _ _ _ => inferInstanceAs (Decidable (_ ∧ _))
  | .grab .. | .retry .. | .release _ => inferInstanceAs (Decidable (_ ∈ _))
  | .unplug => inferInstanceAs (Decidable True)
  | .complete => inferInstanceAs (Decidable (_ ≠ _))

end PsxLinux.Blk
