import PsxLinux.Bu.HandlerTheorems
import PsxLinux.Bu.System

/-!
# The driver under every interleaving

A process inside `bu_revalidate` that got `bu_lock` is *critical*. At most one is, and
`Crit` says what it leaves in the globals at each of its program points. The window is the
part between `bu_current = card` and `bu_open = TRUE`: there the interrupt handler takes the
card for one of `do_bu_request` and dispatches on `bu_curr`, whatever the last request left in
it.

* `Calm` is the guard of the runs in which no interrupt arrives inside the window. In these
  every dispatch is a good one and the monitor sees every request served as `RecordOk` says.
* `Unhurried` is the guard of the runs in which no request arrives while a process is
  critical. In these a free lock means an empty queue.
-/

namespace PsxLinux.Bu

open Function List

/-! ## Inside `bu_revalidate` -/

/-- The process holds `bu_lock`. -/
def Rev.critical : Rev → Bool
  | .idle | .catching _ _ => false
  | _ => true

/-- Between `bu_current = card` and `bu_open = TRUE`. -/
def Rev.window : Rev → Bool
  | .setState _ | .setOpen _ => true
  | _ => false

/-- `bu_current` and `bu_open` at each program point of a critical process. -/
def FlagsAt (d : Drv) : Rev → Prop
  | .setCurrent _ | .relLock => d.current = -1 ∧ d.isOpen = false
  | .setState _ | .setOpen _ => 0 ≤ d.current ∧ d.isOpen = false
  | .relOpen => d.current = -1 ∧ d.isOpen
  | _ => 0 ≤ d.current ∧ d.isOpen

/-- The transfer state local to `bu_check` reads, and is under way once it was
initialised. -/
def LocalOk : Rev → Prop
  | .check _ pc _ bu => bu.request.mode = modeR ∧ (pc ≠ .tryTop → Running bu)
  | _ => True

/-- `bu_ready` has armed the timer and not yet deleted it. -/
def Rev.waiting : Rev → Bool
  | .check _ .rdyTest _ _ | .check _ .rdySleep _ _ | .check _ .rdyDel _ _ => true
  | _ => false

/-- The globals while a process is critical. -/
structure Crit (d : Drv) (r : Rev) : Prop where
  critical : r.critical
  lock : d.lock
  crashed : d.crashed = false
  flags : FlagsAt d r
  localOk : LocalOk r

variable {d d' : Drv} {r : Rev}

lemma Crit.of_eq (h : Crit d r) (hl : d'.lock = d.lock) (hc : d'.crashed = d.crashed)
    (hcur : d'.current = d.current) (ho : d'.isOpen = d.isOpen) :
    Crit d' r := by
  refine ⟨h.critical, hl.trans h.lock, hc.trans h.crashed, ?_, h.localOk⟩
  have hf := h.flags
  cases r <;> simp only [FlagsAt, hcur, ho] at hf ⊢ <;> exact hf

/-- What one step of a critical process does: it stays critical, or it drops the lock. -/
structure RevSpec (d : Drv) (r : Rev) (d' : Drv) (r' : Rev) (evs : List Event) : Prop where
  disp : DispatchesOk evs
  mon : ∀ m : Monitor, m.after evs = m
  queue : d'.queue = d.queue
  cont : d'.cont = d.cont
  next : (Crit d' r' ∧ ((d.timer → r.waiting) → d'.timer → r'.waiting)) ∨
    (r' = .idle ∧ d'.lock = false ∧ d'.current = -1 ∧ d'.isOpen = false ∧ d'.crashed = false ∧
      d'.timer = d.timer ∧ r.waiting = false)

variable {r' : Rev}

/-- A step inside the critical section that emits nothing and leaves the request path
alone. -/
lemma RevSpec.quiet (h : Crit d r) (hflags : FlagsAt d' r') (hlocal : LocalOk r')
    (ht : (d.timer → r.waiting) → d'.timer → r'.waiting := by exact id)
    (hcrit : r'.critical := by rfl) (hlock : d'.lock = d.lock := by rfl)
    (hcrash : d'.crashed = d.crashed := by rfl) (hq : d'.queue = d.queue := by rfl)
    (hc : d'.cont = d.cont := by rfl) : RevSpec d r d' r' [] :=
  ⟨.nil, fun _ => rfl, hq, hc,
    .inl ⟨⟨hcrit, hlock.trans h.lock, hcrash.trans h.crashed, hflags, hlocal⟩, ht⟩⟩

variable {bu : BuT}

lemma running_firstBlock (hmode : bu.request.mode = modeR) :
    ∃ bu', buSwInit bu = (bu', some ()) ∧ bu'.request.mode = modeR ∧ Running bu' := by
  have hinit : (buSwInit bu).2 = some () := (buSwInit_eq_some bu).mpr (.inl hmode)
  refine ⟨(buSwInit bu).1, ?_, ?_, running_buSwInit bu hinit⟩
  · rw [← hinit]
  · rw [buSwInit_request]; exact hmode

variable {p : Port} {evs : List Event}

lemma checkStep_spec {c : Scan} {pc : CheckPc} {tries : ℕ} (h : Crit d (.check c pc tries bu))
    (hs : checkStep p d c pc tries bu = some (d', r', evs)) :
    RevSpec d (.check c pc tries bu) d' r' evs := by
  obtain ⟨hmode, hrun⟩ := h.localOk
  cases pc with
  | tryTop =>
    obtain ⟨bu', hinit, hmode', hrun'⟩ := running_firstBlock hmode
    simp only [checkStep, hinit] at hs
    split_ifs at hs <;> obtain ⟨rfl, rfl, rfl⟩ := hs
    · exact .quiet h h.flags trivial
    · exact .quiet h h.flags ⟨hmode', fun _ => hrun'⟩
  | loopTop =>
    simp only [checkStep] at hs
    split_ifs at hs <;> obtain ⟨rfl, rfl, rfl⟩ := hs <;>
      exact .quiet h h.flags ⟨hmode, fun _ => hrun (by simp)⟩
  | rdyWait =>
    obtain ⟨rfl, rfl, rfl⟩ := hs
    exact .quiet h h.flags ⟨hmode, fun _ => hrun (by simp)⟩
  | rdyTimer =>
    obtain ⟨rfl, rfl, rfl⟩ := hs
    exact .quiet h h.flags ⟨hmode, fun _ => hrun (by simp)⟩ fun _ _ => rfl
  | rdyTest =>
    simp only [checkStep] at hs
    split_ifs at hs <;> obtain ⟨rfl, rfl, rfl⟩ := hs <;>
      exact .quiet h h.flags ⟨hmode, fun _ => hrun (by simp)⟩ fun _ _ => rfl
  | rdySleep => simp [checkStep] at hs
  | rdyDel =>
    obtain ⟨rfl, rfl, rfl⟩ := hs
    exact .quiet h h.flags ⟨hmode, fun _ => hrun (by simp)⟩ fun _ ht => by simp at ht
  | rdyRet =>
    simp only [checkStep] at hs
    split_ifs at hs <;> obtain ⟨rfl, rfl, rfl⟩ := hs
    · exact .quiet h h.flags ⟨hmode, fun _ => hrun (by simp)⟩
    · exact .quiet h h.flags ⟨hmode, absurd rfl⟩
  | dispatch =>
    have hrunning := hrun (by simp)
    obtain ⟨ans, hans, hres⟩ := buRdRoutine_running p hrunning
    have hdisp : DispatchesOk [.dispatch bu.state bu.cnt] := by
      intro state cnt hmem
      obtain ⟨rfl, rfl⟩ : state = bu.state ∧ cnt = bu.cnt := by simpa using hmem
      exact hrunning.dispatchOk
    simp only [checkStep, hans] at hs
    rcases hres with ⟨hstat, -, hreq, -⟩ | ⟨⟨k, hstat⟩, hadv⟩
    · simp only [hstat] at hs
      obtain ⟨rfl, rfl, rfl⟩ := hs
      exact ⟨hdisp, fun _ => rfl, rfl, rfl,
        .inl ⟨⟨rfl, h.lock, h.crashed, h.flags, by rw [hreq]; exact hmode, absurd rfl⟩,
          fun ht => ht⟩⟩
    · simp only [hstat] at hs
      split_ifs at hs with hstop <;> obtain ⟨rfl, rfl, rfl⟩ := hs
      · exact ⟨hdisp, fun _ => rfl, rfl, rfl,
          .inl ⟨⟨rfl, h.lock, h.crashed, h.flags, trivial⟩, fun ht => ht⟩⟩
      · obtain ⟨hst, -⟩ | ⟨hrun', -, -⟩ := hadv.next
        · exact absurd hst hstop
        · exact ⟨hdisp, fun _ => rfl, rfl, rfl,
            .inl ⟨⟨rfl, h.lock, h.crashed, h.flags, hadv.frame.2.2.2.trans hmode, fun _ => hrun'⟩,
              fun ht => ht⟩⟩

/-- What follows the scan of a slot touches only the sizes. -/
lemma nextSlot_spec {cfg : Config} {c : Scan} {devices sizes total} (h : Crit d r)
    (hcur : 0 ≤ d.current) (hopen : d.isOpen) (hw : r.waiting = false) :
    let d₁ := { d with devices := devices, sizes := sizes, total := total }
    RevSpec d r (nextSlot cfg d₁ c).1 (nextSlot cfg d₁ c).2 [] := by
  have hno : ∀ r' : Rev, (d.timer → r.waiting) → d.timer →
      r'.waiting := by
    intro r' ht hd
    have := ht hd
    simp [hw] at this
  unfold nextSlot
  split_ifs <;> exact .quiet h ⟨hcur, hopen⟩ trivial (hno _)

/-- **One step of a critical process.** -/
theorem revStep_spec {cfg : Config} (h : Crit d r)
    (hs : revStep cfg p d r = some (d', r', evs)) : RevSpec d r d' r' evs := by
  cases r with
  | idle | catching _ _ => cases h.critical
  | setCurrent card =>
    obtain ⟨rfl, rfl, rfl⟩ := hs
    exact .quiet h ⟨Int.natCast_nonneg card, h.flags.2⟩ trivial
  | setState card | zeroTotal card =>
    obtain ⟨rfl, rfl, rfl⟩ := hs
    exact .quiet h h.flags trivial
  | setOpen _ | relOpen =>
    obtain ⟨rfl, rfl, rfl⟩ := hs
    exact .quiet h ⟨h.flags.1, rfl⟩ trivial
  | scan c =>
    obtain ⟨rfl, rfl, rfl⟩ := hs
    exact .quiet h h.flags ⟨rfl, absurd rfl⟩
  | check c pc tries bu => exact checkStep_spec h hs
  | missing c =>
    obtain ⟨rfl, rfl, rfl⟩ := hs
    exact nextSlot_spec h h.flags.1 h.flags.2 rfl
  | found c bu =>
    simp only [revStep] at hs
    split_ifs at hs <;> obtain ⟨rfl, rfl, rfl⟩ := hs
    iterate 2 exact .quiet h h.flags trivial
    · exact nextSlot_spec h h.flags.1 h.flags.2 rfl
  | relCurrent =>
    obtain ⟨rfl, rfl, rfl⟩ := hs
    exact .quiet h ⟨rfl, h.flags.2⟩ trivial
  | relLock =>
    obtain ⟨rfl, rfl, rfl⟩ := hs
    exact ⟨.nil, fun _ => rfl, rfl, rfl, .inr ⟨rfl, rfl, h.flags.1, h.flags.2, h.crashed, rfl, rfl⟩⟩

/-- A process that is not critical looks at the lock, and takes it if it is free. -/
lemma revStep_noncritical {cfg : Config} (h : r.critical = false)
    (hs : revStep cfg p d r = some (d', r', evs)) :
    evs = [] ∧ ((d' = d ∧ r'.critical = false) ∨
      (d.lock = false ∧ d' = { d with lock := true } ∧ ∃ card, r' = .setCurrent card)) := by
  cases r with
  | catching card i =>
    simp only [revStep] at hs
    split_ifs at hs with hi hl <;> obtain ⟨rfl, rfl, rfl⟩ := hs
    · exact ⟨rfl, .inl ⟨rfl, rfl⟩⟩
    · exact ⟨rfl, .inr ⟨by simpa using hl, rfl, card, rfl⟩⟩
    · exact ⟨rfl, .inl ⟨rfl, rfl⟩⟩
  | idle => simp [revStep] at hs
  | setCurrent _ | setState _ | setOpen _ | zeroTotal _ | scan _ | check _ _ _ _ | missing _
  | found _ _ | relCurrent | relOpen | relLock => simp [Rev.critical] at h

/-- A wake-up keeps a critical process critical, and its place in `bu_ready`. -/
lemma wakeUp_spec (d : Drv) (rev : ℕ → Rev) (t : ℕ) :
    (wakeUp rev t).critical = (rev t).critical ∧ (Crit d (rev t) → Crit d (wakeUp rev t)) ∧
      ((rev t).waiting → (wakeUp rev t).waiting) := by
  unfold wakeUp
  split
  · rename_i c tries bu hr
    rw [hr]
    refine ⟨rfl, ?_, fun _ => rfl⟩
    rintro ⟨-, hlock, hcrash, hflags, hmode, hrun⟩
    exact ⟨rfl, hlock, hcrash, hflags, hmode, fun _ => hrun (by simp)⟩
  · exact ⟨rfl, id, id⟩

/-! ## Every step of the system -/

def NoneCritical (s : Sys) : Prop := ∀ t, (s.rev t).critical = false

def OnlyCritical (s : Sys) (t : ℕ) : Prop := ∀ u, u ≠ t → (s.rev u).critical = false

/-- The system seen through its monitor. -/
structure SysInv (cfg : Config) (s : Sys) (m : Monitor) : Prop where
  mon : MonOk cfg m
  cont : s.drv.cont = false
  who : (NoneCritical s ∧ (Idle s.drv m ∨ ∃ r svc, Active cfg s.drv m r svc)) ∨
    (∃ t, Crit s.drv (s.rev t) ∧ OnlyCritical s t ∧ m.cur = none ∧
      (s.drv.timer → (s.rev t).waiting))

/-- No interrupt arrives between `bu_current = card` and `bu_open = TRUE`. -/
def Calm (s : Sys) (a : Act) : Prop :=
  ∀ p io, a = .interrupt p io → ∀ t, (s.rev t).window = false

/-- The service of `req`, with `fuel` handler calls to go, after some more events: it has
its record, or it goes on with `used` calls less. -/
def Progress (cfg : Config) (m : Monitor) (req : Request) (fuel used : ℕ) (d' : Drv)
    (m' : Monitor) : Prop :=
  (∃ rec, rec.svc.req = req ∧ m.done ++ [rec] <+: m'.done) ∨
    (∃ r svc, Active cfg d' m' r svc ∧ svc.req = req ∧ m'.done = m.done ∧ fuelLeft d' + used ≤ fuel)

/-- What a step does. -/
structure StepSpec (cfg : Config) (s : Sys) (m : Monitor) (a : Act) (s' : Sys)
    (evs : List Event) : Prop where
  inv : SysInv cfg s' (m.after evs)
  disp : DispatchesOk evs
  done : m.done <+: (m.after evs).done
  progress : ∀ r svc, Active cfg s.drv m r svc → Progress cfg m svc.req (fuelLeft s.drv)
    (if a.isHandler then 1 else 0) s'.drv (m.after evs)

variable {svc : Service} {s' : Sys}

variable {a : Act}

section Steps

variable {cfg : Config} {s : Sys} {m : Monitor}

/-- Nothing is in service while a process is critical. -/
lemma Active.elim {r : Request} {P : Prop} (h : Active cfg d m r svc)
    (hcur : m.cur = none) : P := by
  have := h.cur
  rw [hcur] at this
  cases this

lemma Active.same {r : Request} (h : Active cfg d m r svc) :
    Progress cfg m svc.req (fuelLeft d) 0 d m :=
  .inr ⟨r, svc, h, rfl, rfl, le_refl _⟩

lemma stepSpec_of_handled {r : Request} {res : Drv × List Event} (hnone : NoneCritical s)
    (hact : Active cfg s.drv m r svc) (ha : a.isHandler)
    (h : Handled cfg m svc.req (fuelLeft s.drv) res) :
    StepSpec cfg s m a { drv := res.1, rev := s.rev } res.2 := by
  have hprogress : Progress cfg m svc.req (fuelLeft s.drv) 1 res.1 (m.after res.2) := by
    rcases h.progress with hp | ⟨r', svc', hact', hreq, hdone, hlt⟩
    · exact .inl hp
    · exact .inr ⟨r', svc', hact', hreq, hdone, hlt⟩
  refine ⟨⟨h.mon, h.cont, .inl ⟨hnone, ?_⟩⟩, h.disp, ?_, ?_⟩
  · rcases h.ends with hact' | ⟨hidle, -⟩
    · exact .inr hact'
    · exact .inl hidle
  · rcases hprogress with ⟨rec, -, hp⟩ | ⟨-, -, -, -, hdone, -⟩
    · exact (prefix_append _ _).trans hp
    · simp only [hdone, prefix_rfl]
  · intro r' svc' hact'
    have hsvc : svc' = svc := Option.some.inj (hact'.cur.symm.trans hact.cur)
    rw [hsvc, ha]
    exact hprogress

/-- A new request behind the head does not touch the one in service. -/
lemma Active.enqueue {r : Request} (h : Active cfg d m r svc) (new : Request)
    (pos : ℕ) : Active cfg (d.enqueue new pos) m r svc := by
  obtain ⟨q, hq⟩ := h.head
  refine { h with head := ?_ }
  simp only [Drv.enqueue, hq]
  exact ⟨_, rfl⟩

lemma doBuRequest_fresh (io : ℕ → Port) (d : Drv) (hc : d.cont = false) :
    doBuRequest cfg io d = fromStart cfg io (chunks d.queue + 1) d := by
  unfold doBuRequest
  rw [if_neg (by simp [hc])]

lemma stepSpec_silent (hinv : SysInv cfg s' m) (hp : ∀ r svc, Active cfg s.drv m r svc →
      Active cfg s'.drv m r svc ∧ fuelLeft s'.drv = fuelLeft s.drv ∧ a.isHandler = false) :
    StepSpec cfg s m a s' [] := by
  refine ⟨hinv, .nil, prefix_rfl, fun r svc hact => ?_⟩
  obtain ⟨hact', hfuel, ha⟩ := hp r svc hact
  rw [ha]
  exact .inr ⟨r, svc, hact', rfl, rfl, by simp [hfuel]⟩

lemma not_crashed_of_step {res : Sys × List Event} (hs : step cfg s a = some res) :
    ¬ s.drv.crashed := by
  intro hc
  unfold step at hs
  rw [if_pos hc] at hs
  cases hs

variable {io : ℕ → Port}

variable {new : Request} {pos : ℕ} {call : Bool}

lemma step_request_cases (hs : step cfg s (.request new pos call io) = some (s', evs)) :
    (call ∧ s' = { s with drv := (doBuRequest cfg io (s.drv.enqueue new pos)).1 } ∧
      evs = (doBuRequest cfg io (s.drv.enqueue new pos)).2) ∨
    (call = false ∧ s' = { s with drv := s.drv.enqueue new pos } ∧ evs = []) := by
  have hrun := not_crashed_of_step hs
  rw [step, if_neg hrun] at hs
  cases call with
  | true => obtain ⟨rfl, rfl⟩ := hs; exact .inl ⟨rfl, rfl, rfl⟩
  | false => obtain ⟨rfl, rfl⟩ := hs; exact .inr ⟨rfl, rfl, rfl⟩

lemma step_request_locked (hc : s.drv.cont = false) (hl : s.drv.lock)
    (hs : step cfg s (.request new pos call io) = some (s', evs)) :
    s' = { s with drv := s.drv.enqueue new pos } ∧ evs = [] := by
  rcases step_request_cases hs with ⟨-, hs', hev⟩ | ⟨-, hs', hev⟩
  · rw [doBuRequest_fresh io (s.drv.enqueue new pos) hc, fromStart,
      if_pos (show (s.drv.enqueue new pos).lock from hl)] at hs' hev
    exact ⟨hs', hev⟩
  · exact ⟨hs', hev⟩

lemma step_request (h : SysInv cfg s m)
    (hs : step cfg s (.request new pos call io) = some (s', evs)) :
    StepSpec cfg s m (.request new pos call io) s' evs := by
  rcases h.who with ⟨hnone, hidle | ⟨r, svc, hact⟩⟩ | ⟨t, hcrit, honly, hcur, htimer⟩
  · have hrel : Released (s.drv.enqueue new pos) m := { hidle.toReleased with }
    rcases step_request_cases hs with ⟨-, rfl, rfl⟩ | ⟨-, rfl, rfl⟩
    · -- the request function runs with the lock free
      rw [doBuRequest_fresh io (s.drv.enqueue new pos) h.cont]
      have hset := fromStart_spec cfg io _ _ m hrel h.mon (Nat.lt_succ_self _)
      refine ⟨⟨hset.mon, hset.cont.trans h.cont, .inl ⟨hnone, ?_⟩⟩, hset.disp, hset.done, ?_⟩
      · rcases hset.ends with hact | ⟨hrel', -, ht⟩
        · exact .inr hact
        · exact .inl ⟨hrel', ht.trans hidle.timer⟩
      · intro r svc hact
        exact hact.elim hidle.cur
    · exact stepSpec_silent ⟨h.mon, h.cont, .inl ⟨hnone, .inl ⟨hrel, hidle.timer⟩⟩⟩
        fun r svc hact => hact.elim hidle.cur
  · obtain ⟨rfl, rfl⟩ := step_request_locked h.cont hact.lock hs
    exact stepSpec_silent ⟨h.mon, h.cont, .inl ⟨hnone, .inr ⟨r, svc, hact.enqueue new pos⟩⟩⟩
      fun r' svc' hact' => ⟨hact'.enqueue new pos, rfl, rfl⟩
  · obtain ⟨rfl, rfl⟩ := step_request_locked h.cont hcrit.lock hs
    exact stepSpec_silent
      ⟨h.mon, h.cont, .inr ⟨t, { hcrit with }, honly, hcur, htimer⟩⟩
      fun r svc hact => hact.elim hcur

lemma step_interrupt_cases (hs : step cfg s (.interrupt p io) = some (s', evs)) :
    s' = ⟨(buInterrupt cfg p io s.drv).1, if signals s.drv then wakeUp s.rev else s.rev⟩ ∧
      evs = (buInterrupt cfg p io s.drv).2 := by
  have hrun := not_crashed_of_step hs
  rw [step, if_neg hrun] at hs
  obtain ⟨rfl, rfl⟩ := hs
  exact ⟨rfl, rfl⟩

lemma step_timeout_cases (hs : step cfg s (.timeout io) = some (s', evs)) : s.drv.timer ∧
    s' = ⟨(buTimeout cfg io { s.drv with timer := false }).1,
      if signals s.drv then wakeUp s.rev else s.rev⟩ ∧
      evs = (buTimeout cfg io { s.drv with timer := false }).2 := by
  have hrun := not_crashed_of_step hs
  rw [step, if_neg hrun] at hs
  by_cases htimer : s.drv.timer
  · simp only [htimer] at hs
    obtain ⟨rfl, rfl⟩ := hs
    exact ⟨htimer, rfl, rfl⟩
  · simp [htimer] at hs

/-- With no card selected, or with `bu_open` set, the handlers only signal. -/
lemma buInterrupt_idle (p : Port) (io : ℕ → Port) (h : d.current < 0) :
    buInterrupt cfg p io d = (d, []) := by
  unfold buInterrupt
  rw [if_pos h]

lemma buTimeout_idle (io : ℕ → Port) (h : d.current < 0) : buTimeout cfg io d = (d, []) := by
  unfold buTimeout timeoutTests
  rw [if_pos h]

lemma signals_closed (h : d.isOpen = false) : signals d = false := by
  simp [signals, h]

lemma signals_idle (h : d.current < 0) : signals d = false := by
  simp [signals, h]

/-- Outside the window a critical process has no card selected, or `bu_open` set. -/
lemma Crit.outside (h : Crit d r) (hw : r.window = false) :
    d.current < 0 ∨ (0 ≤ d.current ∧ d.isOpen) := by
  obtain ⟨hc, -, -, hf, -⟩ := h
  cases r with
  | idle | catching _ _ => simp [Rev.critical] at hc
  | setState _ | setOpen _ => simp [Rev.window] at hw
  | setCurrent _ | relOpen | relLock => exact .inl (by rw [hf.1]; decide)
  | zeroTotal _ | scan _ | check _ _ _ _ | missing _ | found _ _ | relCurrent => exact .inr hf

lemma Crit.waiting_open (h : Crit d r) (hw : r.waiting) :
    0 ≤ d.current ∧ d.isOpen := by
  obtain ⟨-, -, -, hf, -⟩ := h
  cases r with
  | check _ _ _ _ => exact hf
  | idle | catching _ _ | setState _ | setOpen _ | setCurrent _ | relOpen | relLock
  | zeroTotal _ | scan _ | missing _ | found _ _ | relCurrent => simp [Rev.waiting] at hw

variable {t : ℕ}

/-- A handler signals the critical process: it may wake up, and nothing else changes. -/
lemma sysInv_signal (hm : MonOk cfg m) (hcont : d'.cont = false) (hcrit : Crit d' (s.rev t))
    (honly : OnlyCritical s t) (hcur : m.cur = none)
    (htimer : d'.timer → (s.rev t).waiting) :
    SysInv cfg ⟨d', wakeUp s.rev⟩ m := by
  refine ⟨hm, hcont, .inr ⟨t, (wakeUp_spec d' s.rev t).2.1 hcrit, ?_, hcur, ?_⟩⟩
  · intro u hu
    rw [(wakeUp_spec d' s.rev u).1]
    exact honly u hu
  · intro ht
    exact (wakeUp_spec d' s.rev t).2.2 (htimer ht)

lemma step_interrupt (h : SysInv cfg s m) (hcalm : Calm s (.interrupt p io))
    (hs : step cfg s (.interrupt p io) = some (s', evs)) :
    StepSpec cfg s m (.interrupt p io) s' evs := by
  obtain ⟨rfl, rfl⟩ := step_interrupt_cases hs
  rcases h.who with ⟨hnone, hidle | ⟨r, svc, hact⟩⟩ | ⟨t, hcrit, honly, hcur, htimer⟩
  · -- a spurious interrupt
    have hneg : s.drv.current < 0 := by rw [hidle.current]; decide
    rw [buInterrupt_idle p io hneg, signals_idle hneg]
    exact stepSpec_silent ⟨h.mon, h.cont, .inl ⟨hnone, .inl hidle⟩⟩
      fun r svc hact => hact.elim hidle.cur
  · rw [signals_closed hact.isOpen]
    exact stepSpec_of_handled hnone hact rfl (buInterrupt_spec p io hact h.mon h.cont)
  · rcases hcrit.outside (hcalm p io rfl t) with hneg | ⟨hpos, hopen⟩
    · rw [buInterrupt_idle p io hneg, signals_idle hneg]
      exact stepSpec_silent ⟨h.mon, h.cont, .inr ⟨t, hcrit, honly, hcur, htimer⟩⟩
        fun r svc hact => hact.elim hcur
    · have hsig : signals s.drv := by simp [signals, hpos, hopen]
      rw [buInterrupt, if_neg (by omega), if_pos hopen, hsig]
      exact stepSpec_silent
        (sysInv_signal h.mon h.cont { hcrit with } honly hcur htimer)
        fun r svc hact => hact.elim hcur

lemma step_timeout (h : SysInv cfg s m)
    (hs : step cfg s (.timeout io) = some (s', evs)) : StepSpec cfg s m (.timeout io) s' evs := by
  obtain ⟨hpending, rfl, rfl⟩ := step_timeout_cases hs
  rcases h.who with ⟨hnone, hidle | ⟨r, svc, hact⟩⟩ | ⟨t, hcrit, honly, hcur, htimer⟩
  · rw [hidle.timer] at hpending
    cases hpending
  · rw [signals_closed hact.isOpen]
    exact stepSpec_of_handled hnone hact rfl (buTimeout_spec io hact h.mon)
  · obtain ⟨hpos, hopen⟩ := hcrit.waiting_open (htimer hpending)
    have hsig : signals s.drv := by simp [signals, hpos, hopen]
    rw [buTimeout, timeoutTests, if_neg (not_lt.mpr hpos), if_pos hopen, hsig]
    exact stepSpec_silent
      (sysInv_signal h.mon h.cont { hcrit with } honly hcur (by simp))
      fun r svc hact => hact.elim hcur

lemma critical_update {rev : ℕ → Rev} {u : ℕ} (hr : r.critical = false)
    (h : (rev u).critical = false) : (update rev t r u).critical = false := by
  by_cases hu : u = t
  · rw [hu, update_self]; exact hr
  · rw [update_of_ne hu]; exact h

lemma SysInv.move (h : SysInv cfg s m) (hold : (s.rev t).critical = false)
    (hnew : r.critical = false) : SysInv cfg { s with rev := update s.rev t r } m := by
  refine ⟨h.mon, h.cont, ?_⟩
  rcases h.who with ⟨hnone, hdrv⟩ | ⟨t₀, hcrit, honly, hcur, htimer⟩
  · exact .inl ⟨fun u => critical_update hnew (hnone u), hdrv⟩
  · have hne : t₀ ≠ t := by
      rintro rfl
      simp [hcrit.critical] at hold
    refine .inr ⟨t₀, ?_, fun u hu => critical_update hnew (honly u hu), hcur, ?_⟩
    · simpa [update_of_ne hne] using hcrit
    · simpa [update_of_ne hne] using htimer

lemma step_enter_cases {card : ℕ} (hs : step cfg s (.enter t card) = some (s', evs)) :
    s.rev t = .idle ∧ s' = { s with rev := update s.rev t (.catching card 0) } ∧ evs = [] := by
  have hrun := not_crashed_of_step hs
  rw [step, if_neg hrun] at hs
  cases hr : s.rev t with
  | idle =>
    simp only [hr] at hs
    obtain ⟨rfl, rfl⟩ := hs
    exact ⟨rfl, rfl, rfl⟩
  | catching _ _ | setCurrent _ | setState _ | setOpen _ | zeroTotal _ | scan _ | check _ _ _ _
  | missing _ | found _ _ | relCurrent | relOpen | relLock => simp [hr] at hs

lemma step_proc_cases (hs : step cfg s (.proc t p) = some (s', evs)) :
    ∃ d' r', revStep cfg p s.drv (s.rev t) = some (d', r', evs) ∧ s' = ⟨d', update s.rev t r'⟩ := by
  have hrun := not_crashed_of_step hs
  rw [step, if_neg hrun] at hs
  cases hr : revStep cfg p s.drv (s.rev t) with
  | none => simp [hr] at hs
  | some res =>
    obtain ⟨d', r', ev⟩ := res
    simp only [hr] at hs
    obtain ⟨rfl, rfl⟩ := hs
    exact ⟨d', r', rfl, rfl⟩

lemma step_proc (h : SysInv cfg s m)
    (hs : step cfg s (.proc t p) = some (s', evs)) : StepSpec cfg s m (.proc t p) s' evs := by
  obtain ⟨d', r', hrev, rfl⟩ := step_proc_cases hs
  by_cases hcritical : (s.rev t).critical
  · -- the process that holds the lock
    rcases h.who with ⟨hnone, -⟩ | ⟨t₀, hcrit, honly, hcur, htimer⟩
    · simp [hnone t] at hcritical
    · have ht : t = t₀ := by
        by_contra hne
        simp [honly t hne] at hcritical
      subst ht
      have hspec := revStep_spec hcrit hrev
      have hothers : ∀ u, u ≠ t → (update s.rev t r' u).critical = false := by
        intro u hu
        rw [update_of_ne hu]
        exact honly u hu
      refine ⟨⟨?_, hspec.cont.trans h.cont, ?_⟩, hspec.disp, ?_, fun r svc hact => hact.elim hcur⟩
      · rw [hspec.mon]; exact h.mon
      · rw [hspec.mon]
        rcases hspec.next with ⟨hcrit', ht⟩ | ⟨rfl, hl, hc, ho, hx, htm, hw⟩
        · refine .inr ⟨t, ?_, hothers, hcur, ?_⟩
          · simpa only [update_self] using hcrit'
          · simpa only [update_self] using ht htimer
        · -- the lock is dropped
          refine .inl ⟨fun u => ?_, .inl ⟨⟨hl, hc, ho, hx, hcur⟩, ?_⟩⟩
          · by_cases hu : u = t
            · rw [hu]; simp [Rev.critical]
            · exact hothers u hu
          · rw [htm]
            by_contra hon
            have := htimer (by simpa using hon)
            simp [hw] at this
      · simp only [hspec.mon, prefix_rfl]
  · have hnon : (s.rev t).critical = false := by simpa using hcritical
    obtain ⟨rfl, ⟨rfl, hr'⟩ | ⟨hfree, rfl, card, rfl⟩⟩ := revStep_noncritical hnon hrev
    · exact stepSpec_silent (h.move hnon hr') fun r svc hact => ⟨hact, rfl, rfl⟩
    · -- the lock is taken
      rcases h.who with ⟨hnone, hidle | ⟨r, svc, hact⟩⟩ | ⟨t₀, hcrit, -⟩
      · refine stepSpec_silent ⟨h.mon, h.cont, .inr ⟨t, ?_, ?_, hidle.cur, ?_⟩⟩
          fun r svc hact => hact.elim hidle.cur
        · have hcrit : Crit { s.drv with lock := true } (.setCurrent card) :=
            ⟨rfl, rfl, hidle.crashed, ⟨hidle.current, hidle.isOpen⟩, trivial⟩
          simpa only [update_self] using hcrit
        · intro u hu
          simpa only [update_of_ne hu] using hnone u
        · intro ht
          have hoff := hidle.timer
          rw [show s.drv.timer from ht] at hoff
          cases hoff
      · rw [hact.lock] at hfree; cases hfree
      · rw [hcrit.lock] at hfree; cases hfree

/-- **One step of the system**, in a run in which no interrupt arrives in the window. -/
theorem step_spec (h : SysInv cfg s m) (hcalm : Calm s a)
    (hs : step cfg s a = some (s', evs)) : StepSpec cfg s m a s' evs := by
  cases a with
  | request new pos call io => exact step_request h hs
  | interrupt p io => exact step_interrupt h hcalm hs
  | timeout io => exact step_timeout h hs
  | enter t card =>
    obtain ⟨hidle, rfl, rfl⟩ := step_enter_cases hs
    exact stepSpec_silent (h.move (by rw [hidle]; rfl) rfl) fun r svc hact => ⟨hact, rfl, rfl⟩
  | proc t p => exact step_proc h hs

end Steps

/-! ## Whole runs -/

section Runs

variable {cfg : Config} {devices : ℕ → FirstBlock} {sizes : ℕ → UInt32} {total : UInt32}

lemma sysInv_init : SysInv cfg (initSys devices sizes total) .init where
  mon := ⟨rfl, by simp [Monitor.init]⟩
  cont := rfl
  who := .inl ⟨fun _ => rfl, .inl ⟨⟨rfl, rfl, rfl, rfl, rfl⟩, rfl⟩⟩

lemma sysInv_run {s : Sys} {as : List Act}
    (hrun : Lib.Exec (step cfg) Calm (initSys devices sizes total) as evs s) :
    SysInv cfg s (Monitor.init.after evs) ∧ DispatchesOk evs := by
  refine hrun.invariant (P := fun s evs => SysInv cfg s (Monitor.init.after evs) ∧ DispatchesOk evs)
    ⟨sysInv_init, .nil⟩ ?_
  rintro t es a u fs ⟨hinv, hdisp⟩ hcalm hs
  have hspec := step_spec hinv hcalm hs
  rw [Monitor.after_append]
  exact ⟨hspec.inv, hdisp.append hspec.disp⟩

lemma length_handlers (as : List Act) (a : Act) : ((as ++ [a]).filter Act.isHandler).length =
    (as.filter Act.isHandler).length + if a.isHandler then 1 else 0 := by
  rw [filter_append, length_append, filter_singleton]
  cases a.isHandler <;> rfl

/-- The service in progress after a run, and `n` handler calls later. -/
lemma progress_run {s : Sys} {as : List Act} {m : Monitor} {r : Request} (hinv : SysInv cfg s m)
    (hact : Active cfg s.drv m r svc) (hrun : Lib.Exec (step cfg) Calm s as evs s') :
    SysInv cfg s' (m.after evs) ∧ Progress cfg m svc.req (fuelLeft s.drv)
      (as.filter Act.isHandler).length s'.drv (m.after evs) := by
  induction hrun with
  | refl => exact ⟨hinv, hact.same⟩
  | @tail t u as es fs a _ hcalm hs ih =>
    obtain ⟨hinv', hprog⟩ := ih
    have hspec := step_spec hinv' hcalm hs
    rw [Monitor.after_append]
    refine ⟨hspec.inv, ?_⟩
    rcases hprog with ⟨rec, hreq, hp⟩ | ⟨r', svc', hact', hreq, hdone, hfuel⟩
    · exact .inl ⟨rec, hreq, hp.trans hspec.done⟩
    · rcases hspec.progress r' svc' hact' with ⟨rec, hr, hp⟩ | ⟨r₂, svc₂, hact₂, hr, hd, hf⟩
      · exact .inl ⟨rec, hr.trans hreq, hdone ▸ hp⟩
      · refine .inr ⟨r₂, svc₂, hact₂, hr.trans hreq, hd.trans hdone, ?_⟩
        rw [length_handlers]
        omega

lemma left_le (h : Running bu) : left bu.state bu.cnt ≤ 140 := by
  have hpos := h.pos
  unfold ReadPos WritePos at hpos
  unfold left
  split_ifs <;> omega

/-- At most ten attempts of at most 141 handler calls for each block. -/
lemma fuelLeft_le {m : Monitor} {r : Request}
    (h : Active cfg d m r svc) : fuelLeft d < 1410 * svc.len := by
  have hleft := left_le h.running
  have hlen := h.len
  have hstep := h.step_lt
  obtain ⟨a, as, has, hs, -⟩ := h.latest
  have htries : 1 ≤ d.tries := by
    rw [← h.log.tries, has]
    simp [attemptsAt, hs]
  unfold fuelLeft budget
  omega

/-- **No bad dispatch.** In every run in which no interrupt arrives between
`bu_current = card` and `bu_open = TRUE` of a `bu_revalidate`, `bu_rd_routine` only dispatches
through entries of the table that are not `NULL`, and the data handlers only run with the
counter inside the block. -/
theorem dispatches_ok_of_calm {s : Sys} {as : List Act} {evs : List Event}
    (hrun : Lib.Exec (step cfg) Calm (initSys devices sizes total) as evs s) :
    ∀ state cnt, Event.dispatch state cnt ∈ evs → DispatchOk state cnt :=
  (sysInv_run hrun).2

end Runs

/-! ## Runs on a card that answers -/

/-- A controller that answers `b`, then the end byte of a frame. -/
def answering (b : UInt8) : Port where
  data := fun i => if i = 0 then b else 0x47
  status := fun _ => 7

/-- The interrupts of a write frame in which the card acknowledges everything. -/
def goodWrite : List Act :=
  ([0, 0, 0x5a, 0x5d, 0] ++ List.replicate 128 0 ++ [0, 0, 0x5c, 0] : List UInt8).map fun b =>
    .interrupt (answering b) fun _ => answering 0

/-- A request to write one sector of zeros to the first card. -/
def writeSector : Act :=
  .request ⟨.write, 0, 0, ⟨512, fun _ => 0⟩, []⟩ 0 true fun _ => answering 0

/-- A system with 1024-block cards in every slot. -/
def bigCards : Sys := initSys (fun _ => ⟨buId, 1024, 0, 0⟩) (fun _ => 127) 0

/-- Steps that belong to no process and to no controller. -/
def Act.isQuiet : Act → Bool
  | .request _ _ _ _ | .timeout _ => true
  | _ => false

/-- Steps that belong to no process. -/
def Act.isDriver : Act → Bool
  | .enter _ _ | .proc _ _ => false
  | _ => true

lemma calm_of_isQuiet (s : Sys) (a : Act) (h : a.isQuiet) : Calm s a := by
  rintro p io rfl
  cases h

def AllIdle (s : Sys) : Prop := ∀ t, s.rev t = .idle

lemma allIdle_step {cfg : Config} {s : Sys} (h : AllIdle s) (hdrv : a.isDriver)
    (hs : step cfg s a = some (s', evs)) : AllIdle s' := by
  have hwake : ∀ t, (if signals s.drv then wakeUp s.rev else s.rev) t = .idle := by
    intro t
    split_ifs
    · simp [wakeUp, h t]
    · exact h t
  cases a with
  | request new pos call io =>
    rcases step_request_cases hs with ⟨-, rfl, -⟩ | ⟨-, rfl, -⟩ <;> exact h
  | interrupt p io => obtain ⟨rfl, -⟩ := step_interrupt_cases hs; exact hwake
  | timeout io => obtain ⟨-, rfl, -⟩ := step_timeout_cases hs; exact hwake
  | enter t card => cases hdrv
  | proc t p => cases hdrv

lemma calm_of_allIdle {s : Sys} (h : AllIdle s) (a : Act) : Calm s a := by
  intro _ _ _ t
  rw [h t]
  rfl

/-- The sector is written: the run of `writeSector` on a card that acknowledges it. -/
def sectorRun : List Act := writeSector :: (goodWrite ++ goodWrite ++ goodWrite ++ goodWrite)

/-- A process enters `bu_revalidate`, and an interrupt arrives right after its
`bu_current = card`. -/
def windowSteps : List Act :=
  [.enter 0 0, .proc 0 (answering 0), .proc 0 (answering 0),
    .interrupt (answering 0) fun _ => answering 0]

def badDispatch : Event → Bool
  | .dispatch state cnt => !decide (DispatchOk state cnt)
  | _ => false

def isDispatch : Event → Bool
  | .dispatch _ _ => true
  | _ => false

/-- The run of the written sector: it ends with one good record, and leaves `bu_curr.state`
where the window is fatal. -/
lemma exists_sectorRun :
    ∃ s evs, Lib.Exec (step ⟨false⟩) Calm bigCards sectorRun evs s ∧
      evs.any isDispatch ∧ ((Monitor.init.after evs).done.map Record.ok) = [true] ∧
      (Lib.Exec.run (step ⟨false⟩) (fun _ _ => true) s windowSteps).map
        (fun r => r.2.any badDispatch) = some true := by
  obtain ⟨s, evs, hrun, hp⟩ := Lib.Exec.exists_of_run (A := Act)
    (fun _ a (h : a.isDriver) => h)
    (fun r => r.2.any isDispatch && ((Monitor.init.after r.2).done.map Record.ok == [true] &&
      (Lib.Exec.run (step ⟨false⟩) (fun _ _ => true) r.1 windowSteps).map
        (fun r => r.2.any badDispatch) == some true))
    (show (Lib.Exec.run (step ⟨false⟩) _ bigCards sectorRun).map _ = some true by decide +kernel)
  simp only [Bool.and_eq_true, beq_iff_eq] at hp
  refine ⟨s, evs, ?_, hp⟩
  exact hrun.mono_of_invariant (P := AllIdle) (fun _ => rfl)
    (fun _ _ _ _ h hdrv hs => allIdle_step h hdrv hs) fun _ a h _ => calm_of_allIdle h a

/-- The run of the written sector dispatches, and only well. -/
theorem dispatches_ok_of_calm_sector :
    ∃ s evs, Lib.Exec (step ⟨false⟩) Calm bigCards sectorRun evs s ∧ evs.any isDispatch ∧
      ∀ state cnt, Event.dispatch state cnt ∈ evs → DispatchOk state cnt := by
  obtain ⟨s, evs, hrun, hany, -⟩ := exists_sectorRun
  exact ⟨s, evs, hrun, hany, dispatches_ok_of_calm hrun⟩

/-- An interrupt in the window dispatches past the end of the table. -/
theorem window_dispatches_past_table :
    ∃ as evs s, Lib.Exec (step ⟨false⟩) Lib.anyStep bigCards as evs s ∧
      ∃ state cnt, Event.dispatch state cnt ∈ evs ∧ ¬ DispatchOk state cnt := by
  obtain ⟨s, evs, hrun, -, -, hwindow⟩ := exists_sectorRun
  obtain ⟨s', evs', hrun', hbad⟩ :=
    Lib.Exec.exists_of_run (fun _ _ _ => trivial) (fun r => r.2.any badDispatch) hwindow
  obtain ⟨e, hmem, he⟩ := any_eq_true.mp hbad
  refine ⟨sectorRun ++ windowSteps, evs ++ evs', s',
    (hrun.mono fun _ _ _ => trivial).trans hrun', ?_⟩
  cases e with
  | dispatch state cnt =>
    exact ⟨state, cnt, mem_append_right _ hmem, by simpa [badDispatch] using he⟩
  | accept | attempt | moved | stopped | ended => simp [badDispatch] at he

end PsxLinux.Bu
