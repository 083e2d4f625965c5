import PsxLinux.Bu.FrameTheorems
import PsxLinux.Bu.Service

/-!
# What the request path does to a service

The handlers and `do_bu_request` are specified against the monitor: `Released` is the driver
between requests, `Serving` the driver inside `do_bu_request` with a request in service, and
`Active` the same with an attempt under way and the timer armed, which is how the handlers
leave it. Each function gets one lemma that says which of these it leads to.
-/

namespace PsxLinux.Bu

open List

/-- Every dispatch among the events is a good one. -/
def DispatchesOk (evs : List Event) : Prop :=
  ∀ state cnt, Event.dispatch state cnt ∈ evs → DispatchOk state cnt

lemma DispatchesOk.nil : DispatchesOk [] := by
  intro _ _ h; simp at h

lemma DispatchesOk.append {evs evs' : List Event} (h : DispatchesOk evs)
    (h' : DispatchesOk evs') : DispatchesOk (evs ++ evs') := by
  intro state cnt hmem
  rcases mem_append.mp hmem with hm | hm
  · exact h _ _ hm
  · exact h' _ _ hm

/-- The monitor has seen nothing out of place and only good records. -/
structure MonOk (cfg : Config) (m : Monitor) : Prop where
  stray : m.stray = false
  done : ∀ r ∈ m.done, RecordOk cfg r

variable {cfg : Config} {m : Monitor}

lemma MonOk.of_eq {m' : Monitor} (h : MonOk cfg m) (hs : m'.stray = m.stray)
    (hd : m'.done = m.done) : MonOk cfg m' :=
  ⟨hs.trans h.stray, fun r hr => h.done r (hd ▸ hr)⟩

/-- No request in service, no card selected. -/
structure Released (d : Drv) (m : Monitor) : Prop where
  lock : d.lock = false
  current : d.current = -1
  isOpen : d.isOpen = false
  crashed : d.crashed = false
  cur : m.cur = none

/-- The attempts made so far for a request that is at `step` for the `tries`-th time. -/
structure LogOk (cfg : Config) (svc : Service) (data : ℕ → UInt8) (step tries : ℕ) : Prop where
  upTo : ∀ a ∈ svc.attempts, a.step ≤ step
  here : ∀ a ∈ svc.attempts, a.step = step → a.stopped = false
  before : ∀ k < step, ∃ a ∈ svc.attempts, a.step = k ∧ a.stopped
  located : ∀ a ∈ svc.attempts, Located cfg svc a
  data : ∀ a ∈ svc.attempts, DataOk svc.req.cmd data a
  count : ∀ k, (attemptsAt svc.attempts k).length ≤ nChecks
  tries : (attemptsAt svc.attempts step).length = tries
  within : ∀ a ∈ svc.attempts, a.step < svc.len
  le : step ≤ svc.len

/-- A request is in service: the head of the queue, the low-level request and the static
locals of `do_bu_request` all belong to it. -/
structure Serving (cfg : Config) (d : Drv) (m : Monitor) (r : Request) (svc : Service) : Prop where
  lock : d.lock
  current : 0 ≤ d.current
  isOpen : d.isOpen = false
  crashed : d.crashed = false
  head : ∃ q, d.queue = r :: q
  cur : m.cur = some svc
  cmd : r.cmd = svc.req.cmd
  rw : r.cmd = .read ∨ r.cmd = .write
  mode : d.curr.request.mode = if r.cmd = .read then modeR else modeW
  card : cfg.largeCard = false → d.curr.request.card = svc.req.minor
  start : d.start = svc.start
  len : d.len = svc.len
  devices : d.devices = svc.devices
  svcLen : svc.len = svc.req.bh.nrSectors * 4
  svcStart : svc.start = svc.req.sector <<< 2
  written : r.cmd = .write → r.bh.data = svc.req.bh.data
  log : LogOk cfg svc r.bh.data d.step d.tries

/-- An attempt is under way for the request in service. -/
structure Active (cfg : Config) (d : Drv) (m : Monitor) (r : Request) (svc : Service) : Prop
    extends Serving cfg d m r svc where
  timer : d.timer
  running : Running d.curr
  step_lt : d.step < d.len
  dir : WritePos d.curr.state d.curr.cnt ↔ r.cmd = .write
  buffer : r.cmd = .write → d.curr.request.buffer = readBlock r.bh.data (d.step * buBlkSize)
  latest : ∃ a as, svc.attempts = a :: as ∧ a.step = d.step ∧ a.moved = movedSoFar d.curr

/-! ## `end_request` and the release -/

variable {d : Drv} {r : Request} {q : List Request}

/-- `end_request` takes one buffer off a nonempty queue and touches nothing else. -/
lemma endRequest_cons (accepted ok : Bool) (hq : d.queue = r :: q) :
    ∃ q', endRequest accepted ok d = ({ d with queue := q' }, [.ended accepted ok r.bh.data]) ∧
      chunks q' + 1 = chunks d.queue := by
  unfold endRequest
  rw [hq]
  simp only
  cases hr : r.rest with
  | nil =>
    refine ⟨q, rfl, ?_⟩
    simp [chunks, hr, Nat.add_comm]
  | cons b bs =>
    refine ⟨_, rfl, ?_⟩
    simp [chunks, hr]
    omega

variable {svc : Service} {ok : Bool}

/-- The record `end_request` closes is a good one. -/
lemma recordOk_of_serving (h : Serving cfg d m r svc) (hok : ok ↔ svc.len ≤ d.step) :
    RecordOk cfg ⟨svc, ok, r.bh.data⟩ := by
  have hall : ok ↔ ∀ k < svc.len, ∃ a ∈ svc.attempts, a.step = k ∧ a.stopped := by
    rw [hok]
    constructor
    · intro hle k hk
      exact h.log.before k (by omega)
    · intro hk
      by_contra hlt
      obtain ⟨a, ha, hs, hst⟩ := hk d.step (by omega)
      have := h.log.here a ha hs
      simp [hst] at this
  refine ⟨h.svcLen, h.svcStart, hall, h.log.within, h.log.located, h.log.data, ?_, h.log.count, ?_⟩
  · intro hw
    exact h.written (h.cmd.trans hw)
  · intro k hk hten hnone
    by_contra htrue
    obtain ⟨a, ha, hs, hst⟩ := hall.mp (by simpa using htrue) k hk
    have := hnone a (by simp [attemptsAt, ha, hs])
    simp [hst] at this

lemma release_spec (hq : d.queue = r :: q) (hopen : d.isOpen = false) (hcrash : d.crashed = false)
    (hcur : m.cur = some svc) (hm : MonOk cfg m) (hrec : RecordOk cfg ⟨svc, ok, r.bh.data⟩) :
    ∃ q', release ok d =
        ({ d with queue := q', current := -1, lock := false }, [.ended true ok r.bh.data]) ∧
      chunks q' < chunks d.queue ∧
      Released { d with queue := q', current := -1, lock := false }
        (m.after [.ended true ok r.bh.data]) ∧
      MonOk cfg (m.after [.ended true ok r.bh.data]) ∧
      (m.after [.ended true ok r.bh.data]).done = m.done ++ [⟨svc, ok, r.bh.data⟩] := by
  obtain ⟨q', he, hc⟩ := endRequest_cons true ok hq
  have hrel : release ok d =
      ({ d with queue := q', current := -1, lock := false }, [.ended true ok r.bh.data]) := by
    unfold release
    rw [he]
  have hafter : m.after [.ended true ok r.bh.data] =
      { m with cur := none, done := m.done ++ [⟨svc, ok, r.bh.data⟩] } := by
    simp [Monitor.step, hcur]
  rw [hafter]
  refine ⟨q', hrel, by omega, ⟨rfl, rfl, hopen, hcrash, rfl⟩, ⟨hm.stray, ?_⟩, rfl⟩
  intro rec hmem
  rcases mem_append.mp hmem with hd | hd
  · exact hm.done rec hd
  · rw [mem_singleton.mp hd]
    exact hrec

/-! ## One attempt -/

/-- The first dispatch of a frame cannot fail: it sends the card's address. -/
lemma buRdRoutine_first (bu : BuT) (p : Port) (h : bu.state = 0 ∨ bu.state = 16) :
    buRdRoutine bu p = .ok
      { bu := { bu with byte := p.data 0, state := bu.state + 1 }
        sent := [UInt8.ofNat (0x81 + bu.request.floor)]
        moved := []
        status := some 1 } := by
  have ht : buRdStates bu.state = some buRdState0 := by
    rcases h with h | h <;> rw [h] <;> rfl
  rw [buRdRoutine_of_handler ht rfl]
  rfl

/-- The transfer state after the first dispatch of an attempt. -/
def firstByte (bu : BuT) (p : Port) : BuT :=
  { (buSwInit bu).1 with byte := p.data 0, state := (buSwInit bu).1.state + 1 }

/-- Starting a frame in one of the two modes arms the timer and returns. -/
lemma startFrame_eq (p : Port) (hmode : d.curr.request.mode = modeR ∨ d.curr.request.mode = modeW) :
    startFrame p d =
      ({ d with buState := .none, curr := firstByte d.curr p, timer := true },
        [.attempt d.step d.curr.request.card d.curr.request.block,
          .dispatch (buSwInit d.curr).1.state 0], .ret) := by
  have hinit : (buSwInit d.curr).2 = some () := (buSwInit_eq_some _).mpr hmode
  have hstate := buSwInit_state d.curr hinit
  have hfirst := buRdRoutine_first (buSwInit d.curr).1 p (by rw [hstate]; split_ifs <;> simp)
  have hpair : buSwInit d.curr = ((buSwInit d.curr).1, some ()) := by rw [← hinit]
  unfold startFrame
  simp only
  rw [hpair]
  simp only [hfirst, firstByte, buSwInit_cnt, singleton_append]

lemma firstByte_request (bu : BuT) (p : Port) : (firstByte bu p).request = bu.request :=
  buSwInit_request bu

lemma firstByte_running (bu : BuT) (p : Port)
    (hmode : bu.request.mode = modeR ∨ bu.request.mode = modeW) :
    Running (firstByte bu p) ∧ movedSoFar (firstByte bu p) = [] ∧
      (WritePos (firstByte bu p).state (firstByte bu p).cnt ↔ bu.request.mode = modeW) ∧
      left (firstByte bu p).state (firstByte bu p).cnt ≤ 140 := by
  have hinit : (buSwInit bu).2 = some () := (buSwInit_eq_some _).mpr hmode
  have hstate : (firstByte bu p).state = (if bu.request.mode = modeR then 0 else 16) + 1 := by
    show (buSwInit bu).1.state + 1 = _
    rw [buSwInit_state bu hinit]
  have hcnt : (firstByte bu p).cnt = 0 := buSwInit_cnt bu
  have hne : modeR ≠ modeW := by decide
  have hstop : (firstByte bu p).stop = false := (running_buSwInit bu hinit).stop
  rcases hmode with hr | hw
  · rw [hr] at hstate ⊢
    simp only [if_true] at hstate
    refine ⟨⟨hstop, ?_⟩, by simp [movedSoFar, hcnt], ?_, ?_⟩ <;> rw [hstate]
    · exact .inl (.inl (by omega))
    · simp [WritePos, hne]
    · simp [left]
  · rw [hw] at hstate ⊢
    simp only [if_neg hne.symm] at hstate
    refine ⟨⟨hstop, ?_⟩, by simp [movedSoFar, hcnt], ?_, ?_⟩ <;> rw [hstate, hcnt]
    · exact .inr (.inl (by omega))
    · simp [WritePos]
    · simp [left]

/-! ## `do_bu_request` with a request in service -/

/-- Handler calls a request can still take before its next attempt: at most `N_CHECKS`
attempts for every block that is left, each of at most 141 calls. -/
def budget (len step tries : ℕ) : ℕ := (len - step) * 1410 - tries * 141

/-- Handler calls a request can still take, with an attempt under way. -/
def fuelLeft (d : Drv) : ℕ :=
  budget d.len d.step d.tries + left d.curr.state d.curr.cnt

/-- The service with the attempt that is about to start. -/
def Service.attempt (svc : Service) (step card : ℕ) (block : UInt16) : Service :=
  { svc with attempts := ⟨step, card, block, [], false⟩ :: svc.attempts }

lemma logOk_attempt {data : ℕ → UInt8} {step tries card : ℕ} {block : UInt16}
    (h : LogOk cfg svc data step tries) (ht : tries < nChecks) (hlt : step < svc.len)
    (hloc : Located cfg svc ⟨step, card, block, [], false⟩) :
    LogOk cfg (svc.attempt step card block) data step (tries + 1) := by
  have hcount : ∀ k, (attemptsAt (svc.attempt step card block).attempts k).length =
      (attemptsAt svc.attempts k).length + if step = k then 1 else 0 := by
    intro k
    unfold attemptsAt Service.attempt
    by_cases hk : step = k
    · simp [hk]
    · simp [hk]
  constructor
  · exact forall_mem_cons.2 ⟨le_rfl, h.upTo⟩
  · exact forall_mem_cons.2 ⟨fun _ => rfl, h.here⟩
  · intro k hk
    obtain ⟨a, ha, has⟩ := h.before k hk
    exact ⟨a, mem_cons_of_mem _ ha, has⟩
  · exact forall_mem_cons.2 ⟨hloc, h.located⟩
  · refine forall_mem_cons.2 ⟨⟨fun _ h => ?_, fun _ => ⟨ nil_prefix, fun h => ?_⟩⟩, h.data⟩
    · cases h
    · cases h
  · intro k
    rw [hcount]
    split_ifs with hk
    · rw [← hk, h.tries]; omega
    · exact h.count k
  · rw [hcount, h.tries]; simp
  · exact forall_mem_cons.2 ⟨hlt, h.within⟩
  · exact h.le

lemma budget_attempt {len step tries : ℕ} (hs : step < len) (ht : tries < nChecks) :
    budget len step (tries + 1) + 140 < budget len step tries := by
  unfold budget
  unfold nChecks at ht
  omega

/-- How `do_bu_request` leaves the request `req` that was in service. -/
inductive Served (cfg : Config) (d : Drv) (m : Monitor) (req : Request) (d' : Drv)
    (m' : Monitor) : Next → Prop
  /-- An attempt is under way. -/
  | goesOn {r : Request} {svc : Service} (act : Active cfg d' m' r svc) (same : svc.req = req)
      (done : m'.done = m.done) (fuel : fuelLeft d' < budget d.len d.step d.tries) :
      Served cfg d m req d' m' .ret
  /-- The service ended. -/
  | ends {next : Next} {rec : Record} (rel : Released d' m')
      (empty : next = .ret → d'.queue = []) (timer : d'.timer = d.timer)
      (fewer : chunks d'.queue < chunks d.queue) (same : rec.svc.req = req)
      (done : m'.done = m.done ++ [rec]) :
      Served cfg d m req d' m' next

/-- What `serve` guarantees. -/
structure ServeSpec (cfg : Config) (d : Drv) (m : Monitor) (req : Request)
    (res : Drv × List Event × Next) : Prop where
  disp : DispatchesOk res.2.1
  mon : MonOk cfg (m.after res.2.1)
  cont : res.1.cont = d.cont
  served : Served cfg d m req res.1 (m.after res.2.1) res.2.2

lemma serveSpec_release {d₀ : Drv} (hq : d.queue = r :: q) (hopen : d.isOpen = false)
    (hcrash : d.crashed = false) (hcur : m.cur = some svc) (hm : MonOk cfg m)
    (hrec : RecordOk cfg ⟨svc, ok, r.bh.data⟩) (hqueue : d.queue = d₀.queue)
    (hcont : d.cont = d₀.cont) (htimer : d.timer = d₀.timer) :
    ServeSpec cfg d₀ m svc.req (afterRelease (release ok d)) := by
  obtain ⟨q', hrel, hc, hR, hM, hdone⟩ := release_spec hq hopen hcrash hcur hm hrec
  unfold afterRelease
  rw [hrel]
  refine ⟨?_, hM, hcont, .ends hR ?_ htimer ?_ rfl hdone⟩
  · intro _ _ hmem; simp at hmem
  · intro hnext
    by_contra hne
    simp [hne] at hnext
  · rw [← hqueue]; exact hc

/-- Starting an attempt at the current block of a request in service, with the low-level
request filled in. -/
lemma startFrame_spec {req : BuRequest} (p : Port) (h : Serving cfg d m r svc) (hm : MonOk cfg m)
    (hstep : d.step < d.len) (htries : d.tries < nChecks) (hmode : req.mode = d.curr.request.mode)
    (hcard : cfg.largeCard = false → req.card = svc.req.minor)
    (hbuf : r.cmd = .write → req.buffer = readBlock r.bh.data (d.step * buBlkSize))
    (hloc : Located cfg svc ⟨d.step, req.card, req.block, [], false⟩) :
    ServeSpec cfg d m svc.req
      (startFrame p { d with tries := d.tries + 1, curr := { d.curr with request := req } }) := by
  have hrw : req.mode = modeR ∨ req.mode = modeW := by
    rw [hmode, h.mode]; split_ifs <;> simp
  have hwrite : req.mode = modeW ↔ r.cmd = .write := by
    have hne : modeR ≠ modeW := by decide
    rw [hmode, h.mode]
    rcases h.rw with hc | hc <;> simp [hc, hne]
  obtain ⟨hrun, hmoved, hdir, hleft⟩ :=
    firstByte_running { d.curr with request := req } p hrw
  rw [startFrame_eq p hrw]
  have hafter : m.after [.attempt d.step req.card req.block,
      .dispatch (buSwInit { d.curr with request := req }).1.state 0] =
      { m with cur := some (svc.attempt d.step req.card req.block) } := by
    simp [Monitor.step, h.cur, Service.attempt]
  have hlen := h.len
  have hact : Active cfg { d with
      tries := d.tries + 1, buState := .none, timer := true
      curr := firstByte { d.curr with request := req } p }
      { m with cur := some (svc.attempt d.step req.card req.block) } r
      (svc.attempt d.step req.card req.block) := {
    h with
    cur := rfl
    mode := by rw [firstByte_request, hmode]; exact h.mode
    card := fun hc => by rw [firstByte_request]; exact hcard hc
    log := logOk_attempt h.log htries (by omega) hloc
    timer := rfl, running := hrun, step_lt := hstep
    dir := hdir.trans hwrite
    buffer := fun hc => by rw [firstByte_request]; exact hbuf hc
    latest := ⟨_, _, rfl, rfl, hmoved.symm⟩ }
  constructor
  · intro state cnt hmem
    simp only [mem_cons, not_mem_nil, or_false, reduceCtorEq, false_or,
      Event.dispatch.injEq] at hmem
    obtain ⟨rfl, rfl⟩ := hmem
    rw [← buSwInit_cnt { d.curr with request := req }]
    exact (running_buSwInit _ ((buSwInit_eq_some _).mpr hrw)).dispatchOk
  · rw [hafter]; exact { hm with }
  · rfl
  · rw [hafter]
    refine .goesOn hact rfl rfl ?_
    exact lt_of_le_of_lt (Nat.add_le_add_left hleft _) (budget_attempt hstep htries)

/-- `do_bu_request` below the acceptance loop: the next attempt, or the end of the
service. -/
lemma serve_spec (p : Port) (h : Serving cfg d m r svc) (hm : MonOk cfg m) :
    ServeSpec cfg d m svc.req (serve cfg p d) := by
  obtain ⟨q, hq⟩ := h.head
  have hlen := h.len
  unfold serve
  split_ifs with hstep htries
  · -- ten attempts failed
    refine serveSpec_release hq h.isOpen h.crashed h.cur hm (recordOk_of_serving h ?_) rfl rfl rfl
    simp; omega
  · have hnot : false ↔ svc.len ≤ d.step := by simp; omega
    simp only [hq]
    generalize hbuf : (if r.cmd = .write then { d.curr.request with
      buffer := readBlock r.bh.data (d.step * buBlkSize) } else d.curr.request) = req
    have hsame : req.mode = d.curr.request.mode ∧ req.card = d.curr.request.card := by
      rw [← hbuf]; split_ifs <;> exact ⟨rfl, rfl⟩
    cases hloc : locate cfg d.devices req.card (d.start + UInt32.ofNat d.step).toUInt16 with
    | error block =>
      -- no slot holds the block
      exact serveSpec_release rfl h.isOpen h.crashed h.cur hm (recordOk_of_serving h hnot)
        hq.symm rfl rfl
    | ok at_ =>
      obtain ⟨card, block⟩ := at_
      rw [← hq]
      refine startFrame_spec p h hm hstep (by omega) hsame.1 ?_ ?_ ?_
      · intro hc
        have : card = req.card := by
          simp only [locate, hc] at hloc
          simpa using (congrArg Prod.fst (Except.ok.inj hloc)).symm
        rw [this, hsame.2]
        exact h.card hc
      · intro hc
        rw [← hbuf, if_pos hc]
      · refine ⟨req.card, fun hc => by rw [hsame.2]; exact h.card hc, ?_⟩
        rw [← h.devices, ← h.start]
        exact hloc
  · -- every block is done
    refine serveSpec_release hq h.isOpen h.crashed h.cur hm (recordOk_of_serving h ?_) rfl rfl rfl
    simp; omega

/-! ## The acceptance loop -/

/-- The service that starts with the acceptance of a request. -/
def newService (d : Drv) (r : Request) : Service where
  req := r
  start := r.sector <<< 2
  len := r.bh.nrSectors * 4
  devices := d.devices
  attempts := []

lemma logOk_new {data : ℕ → UInt8} (h : svc.attempts = []) : LogOk cfg svc data 0 0 := by
  constructor <;> simp [h, attemptsAt]

lemma setRange_eq (cfg : Config) (d : Drv) (r : Request) : ∃ card start len total,
    setRange cfg d r = { d with card := card, start := start, len := len, total := total } := by
  unfold setRange
  split_ifs <;> exact ⟨_, _, _, _, rfl⟩

/-- What the monitor sees of the acceptance. -/
abbrev acceptance (cfg : Config) (d : Drv) (r : Request) : Event :=
  .accept r (setRange cfg d r).start (setRange cfg d r).len (setRange cfg d r).devices

lemma accept_spec (h : Released d m) (hm : MonOk cfg m) (hq : d.queue = r :: q)
    (hacc : acceptable cfg d r) :
    Serving cfg (takeRequest cfg (setRange cfg d r) r) (m.step (acceptance cfg d r)) r
        (newService d r) ∧
      MonOk cfg (m.step (acceptance cfg d r)) ∧ (m.step (acceptance cfg d r)).done = m.done := by
  unfold acceptable at hacc
  simp only [Bool.and_eq_true, Bool.or_eq_true, decide_eq_true_eq] at hacc
  obtain ⟨⟨hcard, -⟩, hrw⟩ := hacc
  have hset : setRange cfg d r = { d with
      card := r.minor, start := r.sector <<< 2, len := r.bh.nrSectors * 4
      total := totalFor cfg d r.minor } := by
    unfold setRange
    split_ifs with hl hbad hbad
    · simp [hl, hbad] at hcard
    · rfl
    · simp [hl, hbad] at hcard
    · rfl
  have hstep : m.step (acceptance cfg d r) = { m with cur := some (newService d r) } := by
    rw [acceptance, hset]
    simp [Monitor.step, h.cur, newService]
  rw [hstep, hset]
  refine ⟨?_, { hm with }, rfl⟩
  exact {
    lock := rfl
    current := by simp [takeRequest]
    isOpen := h.isOpen, crashed := h.crashed
    head := ⟨q, hq⟩, cur := rfl, cmd := rfl, rw := hrw, mode := rfl
    card := fun hc => by simp [takeRequest, hc, newService]
    start := rfl, len := rfl, devices := rfl
    svcLen := rfl, svcStart := rfl, written := fun _ => rfl
    log := logOk_new rfl }

/-- How `do_bu_request` leaves the driver: with an attempt under way, or idle with nothing
left to do. -/
structure Settled (cfg : Config) (d : Drv) (m : Monitor) (res : Drv × List Event) : Prop where
  disp : DispatchesOk res.2
  mon : MonOk cfg (m.after res.2)
  cont : res.1.cont = d.cont
  ends : (∃ r svc, Active cfg res.1 (m.after res.2) r svc) ∨
    (Released res.1 (m.after res.2) ∧ res.1.queue = [] ∧ res.1.timer = d.timer)
  done : m.done <+: (m.after res.2).done

lemma Settled.trans {d' : Drv} {evs : List Event} {res : Drv × List Event}
    (h : Settled cfg d' (m.after evs) res) (hdisp : DispatchesOk evs) (hcont : d'.cont = d.cont)
    (htimer : d'.timer = d.timer) (hdone : m.done <+: (m.after evs).done) :
    Settled cfg d m (res.1, evs ++ res.2) := by
  refine ⟨hdisp.append h.disp, ?_, h.cont.trans hcont, ?_, ?_⟩
  · simpa using h.mon
  · simpa [htimer] using h.ends
  · simpa using hdone.trans h.done

/-- `do_bu_request` from `start` with the lock free: it serves the queue until an attempt is
under way or the queue is empty. -/
lemma fromStart_spec (cfg : Config) (io : ℕ → Port) :
    ∀ (fuel : ℕ) (d : Drv) (m : Monitor), Released d m → MonOk cfg m → chunks d.queue < fuel →
      Settled cfg d m (fromStart cfg io fuel d) := by
  intro fuel
  induction fuel with
  | zero => intro d m _ _ hf; omega
  | succ fuel ih =>
    intro d m h hm hf
    unfold fromStart
    simp only [h.lock]
    cases hq : d.queue with
    | nil =>
      exact ⟨.nil, hm, rfl, .inr ⟨h, hq, rfl⟩, prefix_rfl⟩
    | cons r q =>
      obtain ⟨_, _, _, _, hset⟩ := setRange_eq cfg d r
      simp only [Bool.false_eq_true, if_false]
      split_ifs with hacc
      · obtain ⟨hsv, hmon, hdone⟩ := accept_spec h hm hq hacc
        have hserve := serve_spec (io fuel) hsv hmon
        generalize serve cfg (io fuel) (takeRequest cfg (setRange cfg d r) r) = res at hserve ⊢
        obtain ⟨d', evs, next⟩ := res
        have hdisp : DispatchesOk (acceptance cfg d r :: evs) := by
          intro state cnt hmem
          exact hserve.disp state cnt (by simpa using hmem)
        have hcont' : d'.cont = d.cont := hserve.cont.trans (by rw [hset]; rfl)
        have hchunks : chunks (takeRequest cfg (setRange cfg d r) r).queue = chunks d.queue := by
          rw [hset]; rfl
        have htimer : (takeRequest cfg (setRange cfg d r) r).timer = d.timer := by rw [hset]; rfl
        cases hserve.served with
        | goesOn act _ hd _ =>
          exact ⟨hdisp, hserve.mon, hcont', .inl ⟨_, _, act⟩, by
            simp only [Monitor.after_cons, hd, hdone, prefix_rfl]⟩
        | ends rel empty ht fewer _ hd =>
          have hd' : m.done <+: (m.after (acceptance cfg d r :: evs)).done := by
            rw [Monitor.after_cons, hd, hdone]
            exact prefix_append _ _
          cases next with
          | ret => exact ⟨hdisp, hserve.mon, hcont', .inr ⟨rel, empty rfl, ht.trans htimer⟩, hd'⟩
          | start =>
            have hless : chunks d'.queue < chunks d.queue := hchunks ▸ fewer
            exact .trans (ih d' _ rel hserve.mon (by omega)) hdisp hcont' (ht.trans htimer) hd'
      · -- turned down: `end_request (FALSE)` and on to the next one
        have hqueue : (setRange cfg d r).queue = d.queue := by rw [hset]
        obtain ⟨q', he, hc⟩ := endRequest_cons false false (hqueue.trans hq)
        rw [hqueue] at hc
        rw [he]
        have hafter : m.after [.ended false false r.bh.data] = m := by
          simp [Monitor.step, h.cur]
        have hrel : Released { setRange cfg d r with queue := q' } m := by
          rw [hset]; exact { h with }
        have hrest := ih _ m hrel hm (show chunks q' < fuel by omega)
        rw [← hafter] at hrest
        refine hrest.trans ?_ (by rw [hset]) (by rw [hset]) (by simp only [hafter, prefix_rfl])
        intro _ _ hmem; simp at hmem

end PsxLinux.Bu
