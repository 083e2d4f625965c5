import PsxLinux.Bu.RequestTheorems

/-!
# What the interrupt and timer handlers do to a service

A handler that finds an attempt under way moves it on, retries it, or ends the service and
starts the next one. `Handled` states this together with the progress it makes: either the
service in question has its record, or the handler calls it can still take have gone down.
-/

namespace PsxLinux.Bu

/-- Nothing in service and no timer pending. -/
structure Idle (d : Drv) (m : Monitor) : Prop extends Released d m where
  timer : d.timer = false

/-- How a handler leaves a driver that was serving `req`. -/
structure Handled (cfg : Config) (m : Monitor) (req : Request) (fuel : ℕ)
    (res : Drv × List Event) : Prop where
  disp : DispatchesOk res.2
  mon : MonOk cfg (m.after res.2)
  cont : res.1.cont = false
  ends : (∃ r svc, Active cfg res.1 (m.after res.2) r svc) ∨
    (Idle res.1 (m.after res.2) ∧ res.1.queue = [])
  progress : (∃ rec, rec.svc.req = req ∧ m.done ++ [rec] <+: (m.after res.2).done) ∨
    (∃ r svc, Active cfg res.1 (m.after res.2) r svc ∧ svc.req = req ∧
      (m.after res.2).done = m.done ∧ fuelLeft res.1 < fuel)

/-! ## The log under the events of an attempt -/

/-- The data bytes of one dispatch are added to the latest attempt. -/
lemma after_moved {m : Monitor} {svc : Service} {a : Attempt} {as : List Attempt}
    (hcur : m.cur = some svc) (has : svc.attempts = a :: as) (bs : List UInt8) :
    m.after (bs.map .moved) =
      { m with cur := some { svc with attempts := { a with moved := a.moved ++ bs } :: as } } := by
  induction bs generalizing m svc a with
  | nil => simp [← has, ← hcur]
  | cons b bs ih =>
    have hstep : m.step (.moved b) = { m with
        cur := some { svc with attempts := { a with moved := a.moved ++ [b] } :: as } } := by
      obtain ⟨req, start, len, devices, attempts⟩ := svc
      simp only at has
      simp only [Monitor.step, Monitor.onAttempt, hcur, has]
    rw [List.map_cons, Monitor.after_cons, hstep, ih rfl rfl]
    simp

lemma step_stopped {m : Monitor} {svc : Service} {a : Attempt} {as : List Attempt}
    (hcur : m.cur = some svc) (has : svc.attempts = a :: as) :
    m.step .stopped =
      { m with cur := some { svc with attempts := { a with stopped := true } :: as } } := by
  obtain ⟨req, start, len, devices, attempts⟩ := svc
  simp only at has
  simp only [Monitor.step, Monitor.onAttempt, hcur, has]

lemma attemptsAt_length_cons (a a' : Attempt) (as : List Attempt) (k : ℕ) (h : a'.step = a.step) :
    (attemptsAt (a' :: as) k).length = (attemptsAt (a :: as) k).length := by
  unfold attemptsAt
  rw [List.filter_cons, List.filter_cons, h]
  split_ifs <;> rfl

variable {bs : List UInt8}

section Log

variable {cfg : Config} {svc : Service} {data : ℕ → UInt8} {step tries : ℕ} {a : Attempt}
  {as : List Attempt}

lemma forall_attempts {P : Attempt → Prop} (has : svc.attempts = a :: as)
    (h : ∀ b ∈ svc.attempts, P b) : P a ∧ ∀ b ∈ as, P b := by
  rwa [has, List.forall_mem_cons] at h

lemma logOk_moved (h : LogOk cfg svc data step tries) (has : svc.attempts = a :: as)
    (hdata : DataOk svc.req.cmd data { a with moved := bs }) :
    LogOk cfg { svc with attempts := { a with moved := bs } :: as } data step tries := by
  have hcount : ∀ k, (attemptsAt ({ a with moved := bs } :: as) k).length =
      (attemptsAt svc.attempts k).length := by
    intro k
    rw [has]
    exact attemptsAt_length_cons _ _ _ _ rfl
  have hlocated := forall_attempts has h.located
  constructor
  · exact List.forall_mem_cons.2 (forall_attempts has h.upTo)
  · exact List.forall_mem_cons.2 (forall_attempts has h.here)
  · intro k hk
    obtain ⟨b, hb, hbk, hst⟩ := h.before k hk
    rw [has] at hb
    rcases List.mem_cons.mp hb with rfl | hb
    · exact ⟨_, List.mem_cons_self, hbk, hst⟩
    · exact ⟨b, List.mem_cons_of_mem _ hb, hbk, hst⟩
  · exact List.forall_mem_cons.2 hlocated
  · exact List.forall_mem_cons.2 ⟨hdata, (forall_attempts has h.data).2⟩
  · intro k
    rw [hcount]
    exact h.count k
  · rw [hcount]
    exact h.tries
  · exact List.forall_mem_cons.2 (forall_attempts has h.within)
  · exact h.le

/-- The latest attempt ran to its end, and the request goes on with its next block. -/
lemma logOk_stopped {data' : ℕ → UInt8} (h : LogOk cfg svc data step tries)
    (has : svc.attempts = a :: as) (ha_step : a.step = step)
    (hdata : DataOk svc.req.cmd data' { a with stopped := true })
    (hread : svc.req.cmd = .read → ∀ k < step, blockAt data' k = blockAt data k)
    (hwrite : svc.req.cmd = .write → data' = data) :
    LogOk cfg { svc with attempts := { a with stopped := true } :: as } data' (step + 1) 0 := by
  have hupTo : ∀ b ∈ { a with stopped := true } :: as, b.step ≤ step :=
    List.forall_mem_cons.2 (forall_attempts has h.upTo)
  have hlocated := forall_attempts has h.located
  have hwithin := forall_attempts has h.within
  constructor
  · intro b hb
    exact (hupTo b hb).trans (Nat.le_succ _)
  · intro b hb hs
    have := hupTo b hb
    omega
  · intro k hk
    by_cases hks : k = step
    · exact ⟨_, List.mem_cons_self, by rw [hks]; exact ha_step, rfl⟩
    · obtain ⟨b, hb, hbk, hst⟩ := h.before k (by omega)
      rw [has] at hb
      rcases List.mem_cons.mp hb with rfl | hb
      · exact absurd (hbk.symm.trans ha_step) hks
      · exact ⟨b, List.mem_cons_of_mem _ hb, hbk, hst⟩
  · exact List.forall_mem_cons.2 hlocated
  · refine List.forall_mem_cons.2 ⟨hdata, fun b hb => ?_⟩
    have hold := (forall_attempts has h.data).2 b hb
    refine ⟨fun hr hst => ?_, fun hw => ?_⟩
    · -- an older complete read is of an earlier block
      have hne : b.step ≠ step := fun he => by
        have := (forall_attempts has h.here).2 b hb he
        simp [hst] at this
      have hlt : b.step < step := lt_of_le_of_ne ((forall_attempts has h.upTo).2 b hb) hne
      rw [hread hr b.step hlt]
      exact hold.1 hr hst
    · rw [hwrite hw]
      exact hold.2 hw
  · intro k
    have := attemptsAt_length_cons a { a with stopped := true } as k rfl
    rw [← has] at this
    rw [this]
    exact h.count k
  · have hnone : attemptsAt ({ a with stopped := true } :: as) (step + 1) = [] := by
      unfold attemptsAt
      rw [List.filter_eq_nil_iff]
      intro b hb
      have := hupTo b hb
      simp only [decide_eq_true_eq]
      omega
    rw [hnone]
    rfl
  · exact List.forall_mem_cons.2 hwithin
  · show step + 1 ≤ svc.len
    omega

end Log

/-! ## Blocks of the buffer -/

lemma getElem_readBlock (data : ℕ → UInt8) (off i : ℕ) (h : i < 128) :
    (readBlock data off)[i] = data (off + i) := by
  simp [readBlock]

section

variable (data : ℕ → UInt8) (block : Vector UInt8 128)

lemma readBlock_writeBlock_self (off : ℕ) : readBlock (writeBlock data off block) off = block := by
  apply Vector.ext
  intro i hi
  rw [getElem_readBlock]
  have h : off ≤ off + i ∧ off + i - off < 128 := by omega
  have hi' : off + i - off = i := by omega
  rw [writeBlock, dif_pos h]
  simp only [hi']
  rfl

lemma readBlock_writeBlock_ne {off off' : ℕ} (h : off + 128 ≤ off' ∨ off' + 128 ≤ off) :
    readBlock (writeBlock data off' block) off = readBlock data off := by
  apply Vector.ext
  intro i hi
  rw [getElem_readBlock, getElem_readBlock, writeBlock, dif_neg]
  omega

lemma blockAt_writeBlock_self (k : ℕ) :
    blockAt (writeBlock data (k * buBlkSize) block) k = block.toList := by
  rw [blockAt, readBlock_writeBlock_self]

lemma blockAt_writeBlock_lt {j k : ℕ} (h : j < k) :
    blockAt (writeBlock data (k * buBlkSize) block) j = blockAt data j := by
  have : j * buBlkSize + 128 ≤ k * buBlkSize := by unfold buBlkSize; omega
  rw [blockAt, readBlock_writeBlock_ne data block (.inl this)]
  rfl

end

/-! ## `bu_continue` -/

/-- `do_bu_request` with `bu_continue` set, on a request in service. -/
lemma continueRequest_spec {cfg : Config} {d : Drv} {m : Monitor} {r : Request} {svc : Service}
    (io : ℕ → Port) (h : Serving cfg d m r svc) (hm : MonOk cfg m) (ht : d.timer = false) :
    Handled cfg m svc.req (budget d.len d.step d.tries) (continueRequest cfg io d) := by
  have h' : Serving cfg { d with cont := true } m r svc := { h with }
  unfold continueRequest doBuRequest
  simp only [if_true]
  have hserve := serve_spec (io (chunks d.queue + 1)) h' hm
  generalize serve cfg (io (chunks d.queue + 1)) { d with cont := true } = res at hserve ⊢
  obtain ⟨d', evs, next⟩ := res
  cases hserve.served with
  | goesOn act same hdone hfuel =>
    have act' : Active cfg { d' with cont := false } (m.after evs) _ _ := { act with }
    exact ⟨hserve.disp, hserve.mon, rfl, .inl ⟨_, _, act'⟩, .inr ⟨_, _, act', same, hdone, hfuel⟩⟩
  | @ends _ rec rel empty htimer _ same hdone =>
    cases next with
    | ret =>
      refine ⟨hserve.disp, hserve.mon, rfl, .inr ⟨⟨{ rel with }, htimer.trans ht⟩, empty rfl⟩,
        .inl ⟨rec, same, ?_⟩⟩
      simp only [hdone, List.prefix_rfl]
    | start =>
      have hrest := fromStart_spec cfg io _ d' _ rel hserve.mon (Nat.lt_succ_self _)
      refine ⟨hserve.disp.append hrest.disp, by simpa using hrest.mon, rfl, ?_,
        .inl ⟨rec, same, ?_⟩⟩
      · rcases hrest.ends with ⟨r', svc', act⟩ | ⟨rel', hq, htimer'⟩
        · rw [Monitor.after_append]
          exact .inl ⟨r', svc', { act with }⟩
        · rw [Monitor.after_append]
          exact .inr ⟨⟨{ rel' with }, htimer'.trans (htimer.trans ht)⟩, hq⟩
      · rw [← hdone, Monitor.after_append]
        exact hrest.done

/-- Events of the handler itself, put before those of the request function it calls. -/
lemma Handled.prepend {cfg : Config} {m : Monitor} {req : Request} {fuel fuel' : ℕ}
    {evs : List Event} {res : Drv × List Event} (hdisp : DispatchesOk evs)
    (h : Handled cfg (m.after evs) req fuel res) (hdone : (m.after evs).done = m.done)
    (hfuel : fuel ≤ fuel') : Handled cfg m req fuel' (res.1, evs ++ res.2) := by
  refine ⟨hdisp.append h.disp, ?_, h.cont, ?_, ?_⟩
  · rw [Monitor.after_append]; exact h.mon
  · rw [Monitor.after_append]; exact h.ends
  · rw [Monitor.after_append, ← hdone]
    rcases h.progress with hp | ⟨r, svc, act, hreq, hd, hlt⟩
    · exact .inl hp
    · exact .inr ⟨r, svc, act, hreq, hd, hlt.trans_le hfuel⟩

/-! ## The handlers on an attempt under way -/

section Handlers

variable {cfg : Config} {d : Drv} {m : Monitor} {r : Request} {svc : Service}

variable {bu : BuT}

lemma movedSoFar_full (h : bu.cnt = 128) : movedSoFar bu = bu.request.buffer.toList := by
  unfold movedSoFar
  rw [h]
  exact List.take_of_length_le (by simp)

lemma Active.serving_of_failed (h : Active cfg d m r svc) (hreq : bu.request = d.curr.request) :
    Serving cfg { d with curr := bu, timer := false } m r svc :=
  { h.toServing with
    mode := by simp only [hreq]; exact h.mode
    card := by simp only [hreq]; exact h.card }

lemma Active.moved (h : Active cfg d m r svc) (hadv : Advanced d.curr bu bs) (hrun : Running bu)
    (hdir : WritePos d.curr.state d.curr.cnt ↔ WritePos bu.state bu.cnt) :
    ∃ svc', svc'.req = svc.req ∧
      Active cfg { d with curr := bu, timer := true } (m.after (bs.map .moved)) r svc' ∧
      (m.after (bs.map .moved)).stray = m.stray ∧ (m.after (bs.map .moved)).done = m.done := by
  obtain ⟨a, as, has, hstep, hmoved⟩ := h.latest
  have hbuf : r.cmd = .write → bu.request.buffer = readBlock r.bh.data (d.step * buBlkSize) :=
    fun hw => (hadv.write (h.dir.mpr hw)).trans (h.buffer hw)
  have hdata : DataOk svc.req.cmd r.bh.data { a with moved := a.moved ++ bs } := by
    have hns : a.stopped = false := h.log.here a (by rw [has]; exact List.mem_cons_self) hstep
    refine ⟨fun _ hst => by simp [hns] at hst, fun hw => ⟨?_, fun hst => by simp [hns] at hst⟩⟩
    rw [hmoved, ← hadv.data]
    simp only [hstep]
    -- the bytes a write has sent so far are a prefix of its block
    have h := hbuf (h.cmd.trans hw)
    unfold movedSoFar blockAt
    rw [h]
    exact List.take_prefix _ _
  rw [after_moved h.cur has]
  refine ⟨{ svc with attempts := { a with moved := a.moved ++ bs } :: as }, rfl, ?_, rfl, rfl⟩
  exact {
    h with
    cur := rfl
    mode := hadv.frame.2.2.2.trans h.mode
    card := fun hc => hadv.frame.2.2.1.trans (h.card hc)
    log := logOk_moved h.log has hdata
    timer := rfl, running := hrun
    dir := hdir.symm.trans h.dir
    buffer := hbuf
    latest := ⟨_, _, rfl, hstep, by rw [hmoved]; exact hadv.data.symm⟩ }

lemma Active.stopped {q : List Request} (h : Active cfg d m r svc) (hadv : Advanced d.curr bu bs)
    (hcnt : bu.cnt = 128) :
    ∃ svc', svc'.req = svc.req ∧ Serving cfg
      { d with
        curr := bu, timer := false, queue := storeBlock r d.step bu.request.buffer :: q
        step := d.step + 1, tries := 0 }
      (m.after (bs.map .moved ++ [.stopped])) (storeBlock r d.step bu.request.buffer) svc' ∧
      (m.after (bs.map .moved ++ [.stopped])).stray = m.stray ∧
      (m.after (bs.map .moved ++ [.stopped])).done = m.done := by
  obtain ⟨a, as, has, hstep, hmoved⟩ := h.latest
  have hall : a.moved ++ bs = bu.request.buffer.toList := by
    rw [hmoved, ← hadv.data, movedSoFar_full hcnt]
  have hcmd : (storeBlock r d.step bu.request.buffer).cmd = r.cmd := by
    unfold storeBlock; split_ifs <;> rfl
  have hread : r.cmd = .read → (storeBlock r d.step bu.request.buffer).bh.data =
      writeBlock r.bh.data (d.step * buBlkSize) bu.request.buffer := by
    intro hr; simp [storeBlock, hr]
  have hwrite : r.cmd = .write → storeBlock r d.step bu.request.buffer = r := by
    intro hw; simp [storeBlock, hw]
  have hdata : DataOk svc.req.cmd (storeBlock r d.step bu.request.buffer).bh.data
      { a with moved := a.moved ++ bs, stopped := true } := by
    rw [← h.cmd]
    refine ⟨fun hr _ => ?_, fun hw => ?_⟩
    · rw [hread hr, hall]
      simp only [hstep, blockAt_writeBlock_self]
    · have hfull : a.moved ++ bs = blockAt r.bh.data a.step := by
        rw [hall, hadv.write (h.dir.mpr hw), h.buffer hw, hstep]
        rfl
      rw [hwrite hw]
      exact ⟨hfull ▸ List.prefix_rfl, fun _ => hfull⟩
  have hlog : LogOk cfg { svc with attempts := { a with moved := a.moved ++ bs } :: as } r.bh.data
      d.step d.tries := by
    have hns : a.stopped = false := h.log.here a (by rw [has]; exact List.mem_cons_self) hstep
    refine logOk_moved h.log has ⟨fun _ hst => by simp [hns] at hst, fun hw => ?_⟩
    rw [← h.cmd] at hw hdata
    rw [hwrite hw] at hdata
    exact ⟨(hdata.2 hw).1, fun hst => by simp [hns] at hst⟩
  rw [Monitor.after_append, after_moved h.cur has, Monitor.after_cons, Monitor.after_nil,
    step_stopped rfl rfl]
  refine ⟨{ svc with attempts := { a with moved := a.moved ++ bs, stopped := true } :: as },
    rfl, ?_, rfl, rfl⟩
  exact {
    h with
    head := ⟨q, rfl⟩, cur := rfl
    cmd := hcmd.trans h.cmd
    rw := by rw [hcmd]; exact h.rw
    mode := by rw [hcmd]; exact hadv.frame.2.2.2.trans h.mode
    card := fun hc => hadv.frame.2.2.1.trans (h.card hc)
    written := fun hw => by
      rw [hcmd] at hw
      rw [hwrite hw]
      exact h.written hw
    log := logOk_stopped hlog rfl hstep hdata
      (fun hr k hk => by rw [hread (h.cmd.trans hr)]; exact blockAt_writeBlock_lt _ _ hk)
      (fun hw => by rw [hwrite (h.cmd.trans hw)]) }

lemma budget_succ {len step tries : ℕ} (hs : step < len) (ht : tries ≤ nChecks) :
    budget len (step + 1) 0 ≤ budget len step tries := by
  unfold budget
  unfold nChecks at ht
  omega

/-- **`bu_interrupt` with an attempt under way.** -/
theorem buInterrupt_spec (p : Port) (io : ℕ → Port) (h : Active cfg d m r svc)
    (hm : MonOk cfg m) (hcont : d.cont = false) :
    Handled cfg m svc.req (fuelLeft d) (buInterrupt cfg p io d) := by
  obtain ⟨ans, hans, hres⟩ := buRdRoutine_running p h.running
  have hdisp : ∀ bs : List UInt8, DispatchesOk
      (Event.dispatch d.curr.state d.curr.cnt :: bs.map .moved) := by
    intro bs state cnt hmem
    have : state = d.curr.state ∧ cnt = d.curr.cnt := by simpa using hmem
    rw [this.1, this.2]
    exact h.running.dispatchOk
  have hneg : ¬ d.current < 0 := by have := h.current; omega
  have htries : d.tries ≤ nChecks := by rw [← h.log.tries]; exact h.log.count _
  unfold buInterrupt
  rw [if_neg hneg, if_neg (by simp [h.isOpen])]
  simp only [hans]
  rcases hres with ⟨hstat, hmv, hreq, -⟩ | ⟨⟨k, hstat⟩, hadv⟩
  · -- the dispatch failed: try again
    rw [hstat, hmv]
    have hc := continueRequest_spec io (h.serving_of_failed hreq) hm rfl
    exact Handled.prepend (hdisp []) hc rfl (Nat.le_add_right _ _)
  · simp only [hstat]
    rcases hadv.next with ⟨hstop, hcnt⟩ | ⟨hrun, hless, hdir⟩
    · -- the frame is complete: on to the next block
      obtain ⟨q, hq⟩ := h.head
      obtain ⟨svc', hreq, hsv, hstray, hdone⟩ := h.stopped hadv hcnt
      rw [if_pos hstop]
      simp only [hq]
      have hc := continueRequest_spec io hsv (hm.of_eq hstray hdone) rfl
      rw [hreq] at hc
      have hdisp' : DispatchesOk (Event.dispatch d.curr.state d.curr.cnt ::
          (ans.moved.map .moved ++ [.stopped])) := by
        intro state cnt hmem
        exact hdisp ans.moved state cnt (by simpa using hmem)
      have hfuel : budget d.len (d.step + 1) 0 ≤ fuelLeft d :=
        (budget_succ h.step_lt htries).trans (Nat.le_add_right _ _)
      simpa using Handled.prepend hdisp' hc hdone hfuel
    · obtain ⟨svc', hreq, hact, hstray, hdone⟩ := h.moved hadv hrun hdir
      rw [if_neg (by simp [hrun.stop])]
      exact ⟨hdisp _, hm.of_eq hstray hdone, hcont, .inl ⟨r, svc', hact⟩,
        .inr ⟨r, svc', hact, hreq, hdone, Nat.add_lt_add_left hless _⟩⟩

/-- **`bu_timeout` with an attempt under way.** -/
theorem buTimeout_spec (io : ℕ → Port) (h : Active cfg d m r svc) (hm : MonOk cfg m) :
    Handled cfg m svc.req (fuelLeft d) (buTimeout cfg io { d with timer := false }) := by
  have hneg : ¬ d.current < 0 := by have := h.current; omega
  have hsv : Serving cfg { d with timer := false } m r svc := { h.toServing with }
  unfold buTimeout timeoutTests
  rw [if_neg hneg, if_neg (by simp [h.isOpen])]
  have hc := continueRequest_spec io hsv hm rfl
  exact Handled.prepend .nil hc rfl (Nat.le_add_right _ _)

end Handlers

end PsxLinux.Bu
