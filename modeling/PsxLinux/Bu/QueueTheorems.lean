import PsxLinux.Bu.SystemTheorems

/-!
# Who starts the requests that wait

`do_bu_request` returns at once while `bu_lock` is set, so a request that arrives then is
started by whoever drops the lock. The request path looks at the queue again each time it
does. `bu_revalidate` does not: a request that arrives while a process is critical stays on
the queue after the lock is free.

`Plugged` is the block layer's side of the contract (`do_bu_request` is called when a request
is added to an empty queue, and only then); `Unhurried` adds that no request arrives while a
process is critical.
-/

namespace PsxLinux.Bu

open Function

/-- The block layer enters `do_bu_request` exactly for a request added to an empty queue. -/
def Plugged (s : Sys) (a : Act) : Prop :=
  ∀ r pos call io, a = .request r pos call io → (call ↔ s.drv.queue = [])

/-- In addition no request arrives while a `bu_revalidate` holds the lock. -/
def Unhurried (s : Sys) (a : Act) : Prop :=
  Plugged s a ∧ ∀ r pos call io, a = .request r pos call io → NoneCritical s

/-! ## The handlers inside the window

With an empty queue an interrupt inside the window only moves the stale `bu_curr`, or ends in
a crash. -/

section Empty

variable (cfg : Config) {d : Drv}

lemma release_empty (ok : Bool) (h : d.queue = []) :
    (release ok d).1.crashed ∧ (release ok d).1.queue = [] := by
  simp [release, endRequest, h, Drv.crash]

lemma serve_empty (p : Port) (h : d.queue = []) :
    (serve cfg p d).1.crashed ∧ (serve cfg p d).1.queue = [] ∧
      (serve cfg p d).2.2 = .ret := by
  have hrel : ∀ ok, (afterRelease (release ok d)).2.2 = .ret := by
    intro ok
    simp [afterRelease, (release_empty ok h).2]
  unfold serve
  split_ifs
  · exact ⟨(release_empty false h).1, (release_empty false h).2, hrel false⟩
  · simp [h, Drv.crash]
  · exact ⟨(release_empty true h).1, (release_empty true h).2, hrel true⟩

lemma continueRequest_empty (io : ℕ → Port) (h : d.queue = []) :
    (continueRequest cfg io d).1.crashed ∧ (continueRequest cfg io d).1.queue = [] := by
  obtain ⟨hc, hq, hret⟩ := serve_empty cfg (d := { d with cont := true })
    (io (chunks d.queue + 1)) h
  unfold continueRequest doBuRequest
  generalize serve cfg (io (chunks d.queue + 1)) { d with cont := true } = res at hc hq hret
  obtain ⟨d', evs, next⟩ := res
  simp only at hret
  rw [hret]
  exact ⟨hc, hq⟩

/-- What the handlers leave of a system with an empty queue: a crash, or other values of
`bu_curr`, the timer and `bu_state`. -/
def StaleOnly (d d' : Drv) : Prop :=
  d'.queue = [] ∧ (d'.crashed ∨
    (d'.lock = d.lock ∧ d'.crashed = d.crashed ∧ d'.current = d.current ∧ d'.isOpen = d.isOpen ∧
      d'.cont = d.cont))

lemma buInterrupt_empty (p : Port) (io : ℕ → Port) (h : d.queue = []) :
    StaleOnly d (buInterrupt cfg p io d).1 := by
  unfold buInterrupt
  split_ifs
  iterate 2 exact ⟨h, .inr ⟨rfl, rfl, rfl, rfl, rfl⟩⟩
  · cases buRdRoutine d.curr p with
    | error f => exact ⟨h, .inl rfl⟩
    | ok ans =>
      obtain ⟨bu, sent, moved, status⟩ := ans
      cases status with
      | none =>
        obtain ⟨hc, hq⟩ := continueRequest_empty cfg
          (d := { d with curr := bu, timer := false }) io h
        exact ⟨hq, .inl hc⟩
      | some k =>
        simp only
        split_ifs
        · simp only [h]
          exact ⟨rfl, .inl rfl⟩
        · exact ⟨h, .inr ⟨rfl, rfl, rfl, rfl, rfl⟩⟩

/-- A timeout with nothing in the queue. -/
lemma buTimeout_empty (io : ℕ → Port) (h : d.queue = []) :
    StaleOnly d (buTimeout cfg io { d with timer := false }).1 := by
  unfold buTimeout timeoutTests
  split_ifs
  iterate 2 exact ⟨h, .inr ⟨rfl, rfl, rfl, rfl, rfl⟩⟩
  · obtain ⟨hc, hq⟩ := continueRequest_empty cfg (d := { d with timer := false }) io h
    exact ⟨hq, .inl hc⟩

end Empty

/-! ## The invariant -/

/-- A system in which nothing waits behind a free lock. -/
inductive QueueInv (cfg : Config) (s : Sys) : Prop
  /-- Nothing follows a crash. -/
  | crashed (crash : s.drv.crashed) (empty : s.drv.queue = [])
  /-- The lock is free or belongs to a request in service. -/
  | request (cont : s.drv.cont = false) (none : NoneCritical s) (m : Monitor) (mon : MonOk cfg m)
      (drv : (Released s.drv m ∧ s.drv.queue = []) ∨ ∃ r svc, Active cfg s.drv m r svc)
  /-- The lock belongs to a process, and nothing waits for it. -/
  | process (cont : s.drv.cont = false) (t : ℕ) (crit : Crit s.drv (s.rev t))
      (only : OnlyCritical s t) (empty : s.drv.queue = [])

section Steps

variable {cfg : Config} {s : Sys}

lemma monOk_init : MonOk cfg .init := ⟨rfl, by simp [Monitor.init]⟩

lemma queueInv_stale {t : ℕ} {d' : Drv} (hcont : s.drv.cont = false)
    (hcrit : Crit s.drv (s.rev t)) (honly : OnlyCritical s t) (h : StaleOnly s.drv d') :
    QueueInv cfg ⟨d', if signals s.drv then wakeUp s.rev else s.rev⟩ := by
  obtain ⟨hq, hcrash | ⟨hl, hx, hc, ho, hct⟩⟩ := h
  · exact .crashed hcrash hq
  · have hcrit' := hcrit.of_eq hl hx hc ho
    split_ifs
    · refine .process (hct.trans hcont) t ((wakeUp_spec d' s.rev t).2.1 hcrit') ?_ hq
      intro u hu
      exact (wakeUp_spec d' s.rev u).1.trans (honly u hu)
    · exact .process (hct.trans hcont) t hcrit' honly hq

lemma queueInv_handled {m : Monitor} {req : Request} {fuel : ℕ} {res : Drv × List Event}
    (hnone : NoneCritical s) (h : Handled cfg m req fuel res) :
    QueueInv cfg ⟨res.1, s.rev⟩ := by
  refine .request h.cont hnone _ h.mon ?_
  rcases h.ends with hact | ⟨hidle, hq⟩
  · exact .inr hact
  · exact .inl ⟨hidle.toReleased, hq⟩

section
variable (h : QueueInv cfg s)
include h

lemma QueueInv.move {t : ℕ} {r : Rev} (hold : (s.rev t).critical = false)
    (hnew : r.critical = false) : QueueInv cfg { s with rev := update s.rev t r } := by
  cases h with
  | crashed hc hq => exact .crashed hc hq
  | request hcont hnone m hm hdrv =>
    exact .request hcont (fun u => critical_update hnew (hnone u)) m hm hdrv
  | process hcont t₀ hcrit honly hq =>
    have hne : t₀ ≠ t := by
      rintro rfl
      simp [hcrit.critical] at hold
    refine .process hcont t₀ ?_ (fun u hu => critical_update hnew (honly u hu)) hq
    simpa [update_of_ne hne] using hcrit

variable {evs : List Event}

variable {io : ℕ → Port} {s' : Sys}

lemma queueInv_request {new : Request} {pos : ℕ} {call : Bool}
    (hok : Unhurried s (.request new pos call io))
    (hs : step cfg s (.request new pos call io) = some (s', evs)) : QueueInv cfg s' := by
  have hcall := hok.1 new pos call io rfl
  have hnone := hok.2 new pos call io rfl
  cases h with
  | crashed hc _ => exact absurd hc (not_crashed_of_step hs)
  | request hcont _ m hm hdrv =>
    rcases hdrv with ⟨hrel, hq⟩ | ⟨r, svc, hact⟩
    · -- the queue was empty, so the request function is called and finds the lock free
      rcases step_request_cases hs with ⟨-, rfl, -⟩ | ⟨hno, -, -⟩
      · rw [doBuRequest_fresh io (s.drv.enqueue new pos) hcont]
        have hset := fromStart_spec cfg io _ (s.drv.enqueue new pos) m { hrel with } hm
          (Nat.lt_succ_self _)
        refine .request (hset.cont.trans hcont) hnone _ hset.mon ?_
        rcases hset.ends with hact | ⟨hrel', hq', -⟩
        · exact .inr hact
        · exact .inl ⟨hrel', hq'⟩
      · rw [hno] at hcall
        exact absurd (hcall.mpr hq) (by simp)
    · obtain ⟨rfl, -⟩ := step_request_locked hcont hact.lock hs
      exact .request hcont hnone m hm (.inr ⟨r, svc, hact.enqueue new pos⟩)
  | process _ t hcrit _ _ =>
    have := hnone t
    simp [hcrit.critical] at this

lemma queueInv_interrupt {p : Port} (hs : step cfg s (.interrupt p io) = some (s', evs)) :
    QueueInv cfg s' := by
  have hrun := not_crashed_of_step hs
  obtain ⟨rfl, -⟩ := step_interrupt_cases hs
  cases h with
  | crashed hc _ => exact absurd hc hrun
  | request hcont hnone m hm hdrv =>
    rcases hdrv with ⟨hrel, hq⟩ | ⟨r, svc, hact⟩
    · have hneg : s.drv.current < 0 := by rw [hrel.current]; decide
      rw [buInterrupt_idle p io hneg, signals_idle hneg]
      exact .request hcont hnone m hm (.inl ⟨hrel, hq⟩)
    · rw [signals_closed hact.isOpen]
      exact queueInv_handled hnone (buInterrupt_spec p io hact hm hcont)
  | process hcont t hcrit honly hq =>
    exact queueInv_stale hcont hcrit honly (buInterrupt_empty cfg p io hq)

lemma queueInv_timeout (hs : step cfg s (.timeout io) = some (s', evs)) : QueueInv cfg s' := by
  have hrun := not_crashed_of_step hs
  obtain ⟨-, rfl, -⟩ := step_timeout_cases hs
  cases h with
  | crashed hc _ => exact absurd hc hrun
  | request hcont hnone m hm hdrv =>
    rcases hdrv with ⟨hrel, hq⟩ | ⟨r, svc, hact⟩
    · -- a timer left over from the window
      have hneg : s.drv.current < 0 := by rw [hrel.current]; decide
      rw [buTimeout_idle io (d := { s.drv with timer := false }) hneg, signals_idle hneg]
      exact .request hcont hnone m hm (.inl ⟨{ hrel with }, hq⟩)
    · rw [signals_closed hact.isOpen]
      exact queueInv_handled hnone (buTimeout_spec io hact hm)
  | process hcont t hcrit honly hq =>
    exact queueInv_stale hcont hcrit honly (buTimeout_empty cfg io hq)

lemma queueInv_proc {t : ℕ} {p : Port}
    (hs : step cfg s (.proc t p) = some (s', evs)) : QueueInv cfg s' := by
  have hrun := not_crashed_of_step hs
  obtain ⟨d', r', hrev, rfl⟩ := step_proc_cases hs
  by_cases hcritical : (s.rev t).critical
  · cases h with
    | crashed hc _ => exact absurd hc hrun
    | request _ hnone _ _ _ =>
      have := hnone t
      simp [hcritical] at this
    | process hcont t₀ hcrit honly hq =>
      have ht : t = t₀ := by
        by_contra hne
        have := honly t hne
        simp [hcritical] at this
      subst ht
      have hspec := revStep_spec hcrit hrev
      have hothers : ∀ u, u ≠ t → (update s.rev t r' u).critical = false := by
        intro u hu
        rw [update_of_ne hu]
        exact honly u hu
      rcases hspec.next with ⟨hcrit', -⟩ | ⟨rfl, hl, hc, ho, hx, -, -⟩
      · refine .process (hspec.cont.trans hcont) t ?_ hothers (hspec.queue.trans hq)
        simpa only [update_self] using hcrit'
      · -- the lock is dropped, with nothing waiting
        refine .request (hspec.cont.trans hcont) (fun u => ?_) .init monOk_init
          (.inl ⟨⟨hl, hc, ho, hx, rfl⟩, hspec.queue.trans hq⟩)
        by_cases hu : u = t
        · rw [hu]; simp [Rev.critical]
        · exact hothers u hu
  · have hnon : (s.rev t).critical = false := by simpa using hcritical
    obtain ⟨-, ⟨rfl, hr'⟩ | ⟨hfree, rfl, card, rfl⟩⟩ := revStep_noncritical hnon hrev
    · exact h.move hnon hr'
    · -- the lock is taken
      cases h with
      | crashed hc _ => exact absurd hc hrun
      | request hcont hnone m hm hdrv =>
        rcases hdrv with ⟨hrel, hq⟩ | ⟨r, svc, hact⟩
        · refine .process hcont t ?_ ?_ hq
          · have hcrit : Crit { s.drv with lock := true } (.setCurrent card) :=
              ⟨rfl, rfl, hrel.crashed, ⟨hrel.current, hrel.isOpen⟩, trivial⟩
            simpa only [update_self] using hcrit
          · intro u hu
            simpa only [update_of_ne hu] using hnone u
        · rw [hact.lock] at hfree; cases hfree
      | process _ _ hcrit _ _ => rw [hcrit.lock] at hfree; cases hfree

/-- **One step of the system**, in a run in which no request arrives while a process is
critical. -/
theorem queueInv_step {a : Act} (hok : Unhurried s a)
    (hs : step cfg s a = some (s', evs)) : QueueInv cfg s' := by
  cases a with
  | request new pos call io => exact queueInv_request h hok hs
  | interrupt p io => exact queueInv_interrupt h hs
  | timeout io => exact queueInv_timeout h hs
  | enter t card =>
    obtain ⟨hidle, rfl, -⟩ := step_enter_cases hs
    exact h.move (by rw [hidle]; rfl) rfl
  | proc t p => exact queueInv_proc h hs

end

end Steps

/-! ## Whole runs -/

section Runs

variable {cfg : Config} {devices : ℕ → FirstBlock} {sizes : ℕ → UInt32} {total : UInt32}

/-- **No request waits behind a free lock**, in every run in which no request arrives while a
`bu_revalidate` holds the lock. -/
theorem queue_empty_of_unhurried {s : Sys} {as : List Act} {evs : List Event}
    (hrun : Lib.Exec (step cfg) Unhurried (initSys devices sizes total) as evs s)
    (hfree : s.drv.lock = false) : s.drv.queue = [] := by
  have hinv : QueueInv cfg s := by
    refine hrun.invariant_state ?_ fun t a u fs h hok hs => queueInv_step h hok hs
    exact .request rfl (fun _ => rfl) .init monOk_init (.inl ⟨⟨rfl, rfl, rfl, rfl, rfl⟩, rfl⟩)
  cases hinv with
  | crashed _ hq => exact hq
  | request _ _ m _ hdrv =>
    rcases hdrv with ⟨-, hq⟩ | ⟨r, svc, hact⟩
    · exact hq
    · rw [hact.lock] at hfree; cases hfree
  | process _ _ _ _ hq => exact hq

end Runs

/-- The block layer's contract, as a test. -/
def pluggedTest (s : Sys) : Act → Bool
  | .request _ _ call _ => call == s.drv.queue.isEmpty
  | _ => true

lemma plugged_of_test (s : Sys) (a : Act) (h : pluggedTest s a) : Plugged s a := by
  rintro r pos call io rfl
  simp only [pluggedTest, beq_iff_eq] at h
  rw [h, List.isEmpty_iff]

/-- A write request whose card stays silent: ten timeouts end it. -/
def silentRun : List Act := writeSector :: List.replicate 10 (.timeout fun _ => answering 0)

/-- A request on a silent card: started at once, given up after ten timeouts. -/
theorem queue_empty_of_unhurried_silent :
    ∃ evs s, Lib.Exec (step ⟨false⟩) Unhurried bigCards silentRun evs s ∧
      s.drv.lock = false ∧ s.drv.queue = [] := by
  obtain ⟨s, evs, hrun, hfree⟩ := Lib.Exec.exists_of_run
    (fun s a (h : (a.isDriver && pluggedTest s a)) => h) (fun r => !r.1.drv.lock)
    (show (Lib.Exec.run (step ⟨false⟩) _ bigCards silentRun).map _ = some true by decide +kernel)
  have hrun' : Lib.Exec (step ⟨false⟩) Unhurried bigCards silentRun evs s := by
    refine hrun.mono_of_invariant (P := AllIdle) (fun _ => rfl) ?_ ?_
    · intro t a u fs h hok hs
      exact allIdle_step h (Bool.and_eq_true_iff.mp hok).1 hs
    · intro t a h hok
      refine ⟨plugged_of_test t a (Bool.and_eq_true_iff.mp hok).2, fun _ _ _ _ _ u => ?_⟩
      rw [h u]
      rfl
  have hlock : s.drv.lock = false := by simpa using hfree
  exact ⟨evs, s, hrun', hlock, queue_empty_of_unhurried hrun' hlock⟩

/-- One try of `bu_check` on a card that does not answer. -/
def silentTry : List Act :=
  List.replicate 7 (.proc 0 (answering 0)) ++ [.timeout fun _ => answering 0] ++
    List.replicate 2 (.proc 0 (answering 0))

/-- A process revalidates an empty slot; a request arrives right after it took the lock. -/
def strandedRun : List Act :=
  [.enter 0 0, .proc 0 (answering 0), writeSector] ++ List.replicate 5 (.proc 0 (answering 0)) ++
    (List.replicate 10 silentTry).flatten ++ List.replicate 5 (.proc 0 (answering 0))

/-- `bu_revalidate` drops the lock and leaves the request on the queue. -/
theorem revalidate_strands_request :
    ∃ as evs s, Lib.Exec (step ⟨false⟩) Plugged bigCards as evs s ∧
      s.drv.lock = false ∧ s.drv.queue ≠ [] := by
  refine ⟨strandedRun, exists_comm.1 ?_⟩
  exact Lib.Exec.exists_of_test plugged_of_test _ (by decide +kernel) fun _ _ _ => id

end PsxLinux.Bu
