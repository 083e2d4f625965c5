import PsxLinux.Bu.SystemTheorems

/-!
# Completion of requests

`bu_timeout` tests `bu_current` and `bu_open` with interrupts on. As long as no interrupt
arrives between these tests and `spin_lock_irqsave`, the two parts of the handler can be put
together where the lock is taken: every such run of `splitStep` is a run of `step`.
-/

namespace PsxLinux.Bu

open List

variable {cfg : Config} {s s' : SplitSys} {a : Act} {as : List Act} {evs : List Event}

/-- No interrupt arrives in the window of `bu_revalidate` or in that of `bu_timeout`. -/
def SplitCalm (s : SplitSys) (a : Act) : Prop :=
  Calm s.sys a ∧ ∀ p io, a = .interrupt p io → s.expired = false

/-- The system before the expiry of the timer whose `bu_timeout` is under way. -/
def SplitSys.whole (s : SplitSys) : Sys :=
  if s.expired then { s.sys with drv := { s.sys.drv with timer := true } } else s.sys

/-- In the window of `bu_timeout` its tests still come out as they did. -/
def SplitSys.Tested (s : SplitSys) : Prop :=
  s.expired → timeoutTests s.sys.drv = (s.sys.drv, true)

lemma whole_of_idle (h : s.expired = false) : s.whole = s.sys := by
  simp [SplitSys.whole, h]

/-- What the tests leave when the rest of `bu_timeout` follows. -/
lemma timeoutTests_expired {d d' : Drv} (h : timeoutTests d = (d', true)) :
    d' = { d with timer := false } ∧ ¬ d.current < 0 ∧ d.isOpen = false := by
  unfold timeoutTests at h
  split_ifs at h with hneg hopen
  · cases h
  · cases h
  · obtain ⟨rfl, -⟩ := h
    exact ⟨rfl, hneg, by simpa using hopen⟩

variable {io : ℕ → Port}

/-- Outside the window of `bu_timeout` the other steps are those of the whole system. -/
lemma splitStep_other (hidle : s.expired = false) (ha : ∀ io, a ≠ .timeout io)
    (hs : splitStep cfg s a = some (s', evs)) :
    s'.expired = false ∧ step cfg s.sys a = some (s'.sys, evs) := by
  have hmap : ((step cfg s.sys a).map fun r => ((⟨r.1, s.expired⟩ : SplitSys), r.2)) =
      some (s', evs) := by
    cases a with
    | timeout io => exact absurd rfl (ha io)
    | request | interrupt | enter | proc => simpa [splitStep, hidle] using hs
  obtain ⟨⟨t, ev⟩, ht, heq⟩ := Option.map_eq_some_iff.1 hmap
  obtain ⟨rfl, rfl⟩ := Prod.mk.inj heq
  exact ⟨hidle, ht⟩

lemma step_timeout_eq {d d' : Drv} (rev : ℕ → Rev) (hrun : ¬ d.crashed)
    (htimer : d.timer) (h : buTimeout cfg io { d with timer := false } = (d', evs)) :
    step cfg ⟨d, rev⟩ (.timeout io) = some (⟨d', if signals d then wakeUp rev else rev⟩, evs) := by
  rw [step, if_neg hrun]
  dsimp only
  rw [if_pos htimer, h]

/-- The tests are all of `bu_timeout`, or the whole system has not moved yet. -/
lemma timeoutStep_tests (hidle : s.expired = false)
    (hs : timeoutStep cfg io s = some (s', evs)) :
    (s'.expired ∧ s'.Tested ∧ s'.whole = s.sys ∧ evs = []) ∨
      (s'.expired = false ∧ step cfg s.sys (.timeout io) = some (s'.sys, evs)) := by
  obtain ⟨⟨d, rev⟩, expired⟩ := s
  subst hidle
  unfold timeoutStep at hs
  by_cases hrun : d.crashed
  · cases (if_pos hrun).symm.trans hs
  by_cases htimer : d.timer
  · rw [if_neg hrun, if_neg Bool.false_ne_true, if_pos htimer] at hs
    cases ht : timeoutTests { d with timer := false } with
    | mk d' expired =>
      rw [ht] at hs
      obtain ⟨rfl, rfl⟩ := Lib.some_pair_inj hs
      cases expired with
      | true =>
        obtain ⟨rfl, -, hopen⟩ := timeoutTests_expired ht
        have hsame : { d with timer := true } = d := by rw [← htimer]
        refine .inl ⟨rfl, fun _ => ht, ?_, rfl⟩
        rw [signals_closed (d := d) hopen]
        exact congrArg (Sys.mk · rev) hsame
      | false =>
        have hthrough : buTimeout cfg io { d with timer := false } = (d', []) := by
          unfold buTimeout
          rw [ht]
        exact .inr ⟨rfl, step_timeout_eq rev hrun htimer hthrough⟩
  · rw [if_neg hrun, if_neg Bool.false_ne_true, if_neg htimer] at hs
    cases hs

/-- The locked part of `bu_timeout` is the timer expiry of the whole system. -/
lemma timeoutStep_locked (hexpired : s.expired) (htest : s.Tested)
    (hs : timeoutStep cfg io s = some (s', evs)) :
    s'.expired = false ∧ step cfg s.whole (.timeout io) = some (s'.sys, evs) := by
  obtain ⟨⟨d, rev⟩, expired⟩ := s
  subst hexpired
  have ht : timeoutTests d = (d, true) := htest rfl
  obtain ⟨hoff, -, hopen⟩ := timeoutTests_expired ht
  unfold timeoutStep at hs
  by_cases hrun : d.crashed
  · cases (if_pos hrun).symm.trans hs
  rw [if_neg hrun, if_pos rfl] at hs
  cases hc : continueRequest cfg io d with
  | mk d' ev =>
    rw [hc] at hs
    obtain ⟨rfl, rfl⟩ := Lib.some_pair_inj hs
    have hwhole : buTimeout cfg io { d with timer := false } = (d', ev) := by
      unfold buTimeout
      rw [← hoff, ht]
      exact hc
    have hstep := step_timeout_eq (d := { d with timer := true }) rev hrun rfl hwhole
    rw [signals_closed (d := { d with timer := true }) hopen] at hstep
    exact ⟨rfl, hstep⟩

/-- A step outside the windows makes the whole system stand still or take the same step. -/
lemma splitStep_cases (htest : s.Tested) (hcalm : SplitCalm s a)
    (hs : splitStep cfg s a = some (s', evs)) :
    (s.expired = false ∧ s'.expired ∧ s'.Tested ∧ s'.whole = s.whole ∧ evs = []) ∨
      ((s.expired → a.isHandler) ∧ s'.expired = false ∧
        step cfg s.whole a = some (s'.sys, evs)) := by
  by_cases hexp : s.expired
  · -- only the locked part of `bu_timeout` can follow
    cases a with
    | timeout io => exact .inr ⟨fun _ => rfl, timeoutStep_locked hexp htest hs⟩
    | interrupt p io => cases hexp.symm.trans (hcalm.2 p io rfl)
    | request | enter | proc => simp [splitStep, hexp, Act.isHandler] at hs
  · have hidle : s.expired = false := by simpa using hexp
    rw [whole_of_idle hidle]
    by_cases ha : ∃ io, a = .timeout io
    · obtain ⟨io, rfl⟩ := ha
      exact (timeoutStep_tests hidle hs).imp (⟨hidle, ·⟩) (⟨fun _ => rfl, ·⟩)
    · have hother := splitStep_other hidle (fun io hio => ha ⟨io, hio⟩) hs
      exact .inr ⟨fun h => absurd h hexp, hother⟩

lemma SplitCalm.whole (h : SplitCalm s a) : Calm s.whole a := by
  intro p io ha t
  have hrev : s.whole.rev = s.sys.rev := by
    unfold SplitSys.whole
    split <;> rfl
  rw [hrev]
  exact h.1 p io ha t

/-- **A run of the split system is one of the whole system**, with at most twice as many
handler steps and one more in the window. -/
theorem exec_whole (htest : s.Tested) (hrun : Lib.Exec (splitStep cfg) SplitCalm s as evs s') :
    s'.Tested ∧ ∃ bs, Lib.Exec (step cfg) Calm s.whole bs evs s'.whole ∧
      (as.filter Act.isHandler).length ≤
        2 * (bs.filter Act.isHandler).length + s'.expired.toNat := by
  induction hrun with
  | refl => exact ⟨htest, [], .refl _, Nat.zero_le _⟩
  | @tail t u as es fs a _ hcalm hs ih =>
    obtain ⟨ht, bs, hexec, hlen⟩ := ih
    rcases splitStep_cases ht hcalm hs with ⟨hidle, hexp, htest', hsame, rfl⟩ |
      ⟨hhandler, hidle, hstep⟩
    · refine ⟨htest', bs, ?_, ?_⟩
      · rw [append_nil, hsame]
        exact hexec
      · rw [hidle] at hlen
        rw [length_handlers, hexp]
        exact Nat.add_le_add hlen (by split <;> decide)
    · refine ⟨fun h => absurd h (by simp [hidle]), bs ++ [a], ?_, ?_⟩
      · rw [whole_of_idle hidle]
        exact hexec.tail hcalm.whole hstep
      · have hflag : t.expired.toNat ≤ if a.isHandler then 1 else 0 := by
          cases hexp : t.expired with
          | false => exact Nat.zero_le _
          | true => rw [hhandler hexp]; decide
        rw [length_handlers, length_handlers]
        omega

section Completion

variable {devices : ℕ → FirstBlock} {sizes : ℕ → UInt32} {total : UInt32}

/-- The service in progress is that of an active driver. -/
lemma SysInv.active {t : Sys} {m : Monitor} {svc : Service} (h : SysInv cfg t m)
    (hcur : m.cur = some svc) : ∃ r, Active cfg t.drv m r svc := by
  rcases h.who with ⟨-, hidle | ⟨r, svc', hact⟩⟩ | ⟨u, -, -, hnone, -⟩
  · rw [hidle.cur] at hcur; cases hcur
  · have hsame : svc' = svc := Option.some.inj (hact.cur.symm.trans hcur)
    exact ⟨r, hsame ▸ hact⟩
  · rw [hnone] at hcur; cases hcur

/-- **Completion of requests.** In every run in which no interrupt arrives in the window of
`bu_revalidate` or in that of `bu_timeout`

* nothing happens out of place: `end_request` is called only for the request in service, so
  at most once for each acceptance, and every service that ended is as `RecordOk` says;
* a service in progress has the timer armed or `bu_timeout` under way, and ends within
  `2820 * len` more steps of the handlers, whatever else happens. -/
theorem requests_complete_of_calm
    (hrun : Lib.Exec (splitStep cfg) SplitCalm ⟨initSys devices sizes total, false⟩ as evs s) :
    (Monitor.init.after evs).stray = false ∧
      (∀ rec ∈ (Monitor.init.after evs).done, RecordOk cfg rec) ∧
      ∀ svc, (Monitor.init.after evs).cur = some svc →
        (s.sys.drv.timer ∨ s.expired) ∧
        ∀ as' evs' s', Lib.Exec (splitStep cfg) SplitCalm s as' evs' s' →
          2820 * svc.len ≤ (as'.filter Act.isHandler).length →
          ∃ rec, rec.svc.req = svc.req ∧
            (Monitor.init.after evs).done ++ [rec] <+: (Monitor.init.after (evs ++ evs')).done := by
  obtain ⟨htest, bs, hwhole, -⟩ := exec_whole (by simp [SplitSys.Tested]) hrun
  have hinv := (@sysInv_run evs cfg devices sizes total _ _ hwhole).1
  refine ⟨hinv.mon.stray, hinv.mon.done, fun svc hcur => ?_⟩
  obtain ⟨r, hact⟩ := hinv.active hcur
  refine ⟨?_, fun as' evs' s' hrun' hmany => ?_⟩
  · by_cases hexp : s.expired
    · exact .inr hexp
    · rw [← whole_of_idle (by simpa using hexp)]
      exact .inl hact.timer
  · obtain ⟨-, bs', hwhole', hlen⟩ := exec_whole htest hrun'
    rw [Monitor.after_append]
    rcases (progress_run hinv hact hwhole').2 with hrec | ⟨_, _, _, _, _, hfuel⟩
    · exact hrec
    · have hbound := fuelLeft_le hact
      have hflag := s'.expired.toNat_le
      omega

end Completion

def Act.isTimeout : Act → Bool
  | .timeout _ => true
  | _ => false

/-- Runs without timeouts are the same in both systems. -/
lemma exec_split {t t' : Sys} (hrun : Lib.Exec (step cfg) Calm t as evs t')
    (has : ∀ a ∈ as, a.isTimeout = false) :
    Lib.Exec (splitStep cfg) SplitCalm ⟨t, false⟩ as evs ⟨t', false⟩ := by
  induction hrun with
  | refl => exact .refl _
  | @tail u v as es fs a _ hcalm hs ih =>
    refine .tail (ih fun b hb => has b (mem_append_left _ hb)) ⟨hcalm, fun _ _ _ => rfl⟩ ?_
    cases a with
    | timeout io => cases has (.timeout io) (by simp)
    | request | interrupt | enter | proc => simp [splitStep, hs]

/-- The written sector's record is a good one, and nothing is left in service. -/
theorem requests_complete_of_calm_sector :
    ∃ s evs, Lib.Exec (splitStep ⟨false⟩) SplitCalm ⟨bigCards, false⟩ sectorRun evs s ∧
      (Monitor.init.after evs).done.map Record.ok = [true] ∧
      (Monitor.init.after evs).stray = false ∧
      ∀ rec ∈ (Monitor.init.after evs).done, RecordOk ⟨false⟩ rec := by
  obtain ⟨s, evs, hrun, -, hdone, -⟩ := exists_sectorRun
  have hsplit := exec_split hrun (by decide +kernel)
  obtain ⟨hstray, hrec, -⟩ := requests_complete_of_calm hsplit
  exact ⟨_, evs, hsplit, hdone, hstray, hrec⟩

lemma splitCalm_of_isQuiet (s : SplitSys) (a : Act) (h : a.isQuiet) : SplitCalm s a := by
  refine ⟨calm_of_isQuiet s.sys a h, ?_⟩
  rintro p io rfl
  cases h

/-- A write attempt that fails before its data phase has transmitted nothing. -/
theorem write_attempt_transmits_less :
    ∃ as evs s, Lib.Exec (splitStep ⟨false⟩) SplitCalm ⟨bigCards, false⟩ as evs s ∧
      ∃ rec ∈ (Monitor.init.after evs).done, rec.svc.req.cmd = .write ∧
        ∃ a ∈ rec.svc.attempts, a.moved ≠ blockAt rec.buffer a.step := by
  -- the card stays silent, and ten timeouts of two steps each end the request
  refine ⟨writeSector :: replicate 20 (.timeout fun _ => answering 0), exists_comm.1 ?_⟩
  exact Lib.Exec.exists_of_test splitCalm_of_isQuiet _ (by decide +kernel) fun _ _ _ => id

/-- The written sector, with the last interrupt in the window of `bu_timeout`. -/
def windowRun : List Act :=
  sectorRun.dropLast ++ [.timeout fun _ => answering 0] ++ sectorRun.drop 548 ++
    [.timeout fun _ => answering 0]

/-- An interrupt in the window ends the request, and `bu_timeout` then ends one that the empty
queue does not hold. -/
theorem timeout_window_crashes :
    ∃ s evs, Lib.Exec (splitStep ⟨false⟩) Lib.anyStep ⟨bigCards, false⟩ windowRun evs s ∧
      s.sys.drv.crashed :=
  Lib.Exec.exists_of_decide (fun s _ => s.sys.drv.crashed) (by decide +kernel)
    fun _ _ _ => id

end PsxLinux.Bu
