import PsxLinux.Timer.WheelTheorems

/-!
# Runs of the timer wheel

Every step of the wheel is a step of its agenda, or none (`refines_step`), so the events of a
run are a trace of the agenda. What a caller of the timer functions may rely on follows from
what holds of such traces.
-/

namespace PsxLinux.Timer

open Lib Function

variable {τ : Type} [DecidableEq τ]

/-- The levels are where the phase expects them. -/
def PhaseOk (now : ℕ) (base : ℕ → ℕ) : Phase → Prop
  | .idle | .loopHead => Fresh now base
  | .atRepeat | .inFn => Cascaded now base

/-- The wheel holds the agenda, and met no fault. -/
def Refines (s : Sys τ) (a : Agenda τ) : Prop :=
  s.fault = none ∧ ∃ place base, Lists s.wheel a.now place base ∧ Marked s.wheel place ∧
    (∀ t, a.due t = (place t).map Prod.snd) ∧ PhaseOk a.now base s.phase

/-! ## The calls -/

section Calls

variable {w : Wheel τ} {now : ℕ} {place : τ → Option (ℕ × ℕ)} {base : ℕ → ℕ}

/-- **`detach_timer`** takes the timer off its list if it is on one, whatever its `expires`. -/
theorem Lists.detach (h : Lists w now place base) (hm : Marked w place) (t : τ) :
    ∃ w', detachTimer w t = .ok w' ∧
      (∀ e, detachTimer (w.setExpires t e) t = .ok (w'.setExpires t e)) ∧
      Lists w' now (update place t none) base ∧
      w'.timerPending = w.timerPending ∧ w'.timerJiffies = w.timerJiffies := by
  cases hp : place t with
  | none =>
    have hpend : w.timerPending t = false := by rw [hm t, hp]; rfl
    refine ⟨w, ?_, fun e => ?_, ?_, rfl, rfl⟩
    · simp [detachTimer, hpend]
    · simp [detachTimer, Wheel.setExpires, hpend]
    · rw [← hp, update_eq_self]
      exact h
  | some r =>
    obtain ⟨l, d⟩ := r
    have hpend : w.timerPending t := by rw [hm t, hp]; rfl
    obtain ⟨hdel, hlists⟩ := h.del hp
    refine ⟨_, ?_, fun e => ?_, hlists, rfl, rfl⟩
    · rw [detachTimer, if_pos hpend, hdel]
    · have hqueued : w.queued t := by
        by_contra hq
        simp [listDel, hq] at hdel
      have hdel' : listDel (w.setExpires t e) t = .ok ((w.setExpires t e).without t) :=
        if_pos hqueued
      exact (if_pos hpend).trans hdel'

lemma Lists.queue {w' : Wheel τ} {t : τ} (h : Lists w' now (update place t none) base)
    (hm : Marked w place) (hpend : w'.timerPending = w.timerPending) (e : UInt32) :
    ∃ l, Lists (internalAddTimer (w'.setExpires t e) t) now
        (update place t (some (l, deadline now e))) base ∧
      Marked (internalAddTimer (w'.setExpires t e) t)
        (update place t (some (l, deadline now e))) := by
  have hset := h.setExpires (update_self t none place) e
  obtain ⟨l, -, hadd, -, hlists⟩ := hset.add (update_self t none place)
  have hexp : (w'.setExpires t e).expires t = e := update_self _ _ _
  rw [hexp] at hadd hlists
  rw [update_idem] at hlists
  refine ⟨l, hlists, hm.add ?_⟩
  rw [hadd]
  show update w'.timerPending t true = _
  rw [hpend]
  rfl

end Calls

/-! ## Steps -/

/-- The events are one step of the agenda, or none. -/
def AtMostNext (a : Agenda τ) (evs : List (Event τ)) (a' : Agenda τ) : Prop :=
  (evs = [] ∧ a' = a) ∨ ∃ ev, evs = [ev] ∧ a.Next ev a'

section Steps

variable {s s' : Sys τ} {a : Agenda τ} {evs : List (Event τ)} {t : τ} {e : UInt32}

lemma due_update {place : τ → Option (ℕ × ℕ)} (h : ∀ t, a.due t = (place t).map Prod.snd)
    (t : τ) (p : Option (ℕ × ℕ)) (u : τ) :
    update a.due t (p.map Prod.snd) u = (update place t p u).map Prod.snd := by
  by_cases hu : u = t
  · rw [hu, update_self, update_self]
  · rw [update_of_ne hu, update_of_ne hu]
    exact h u

omit [DecidableEq τ] in
lemma Refines.clock (h : Refines s a) : s.wheel.timerJiffies = UInt32.ofNat a.now := by
  obtain ⟨-, place, base, hl, -⟩ := h
  exact hl.clock

section
variable (h : Refines s a)
include h

/-- **`add_timer`** of a timer that is not pending. -/
theorem refines_addTimer (hpend : s.wheel.timerPending t = false) :
    Refines { s with wheel := internalAddTimer (s.wheel.setExpires t e) t }
      { a with due := update a.due t (some (deadline a.now e)) } := by
  obtain ⟨hfault, place, base, hl, hm, hdue, hphase⟩ := h
  have hp : place t = none := by
    have hnone := hm t
    rw [hpend] at hnone
    exact Option.isNone_iff_eq_none.mp (by simpa using hnone.symm)
  have hl' : Lists s.wheel a.now (update place t none) base := by
    rw [← hp, update_eq_self]
    exact hl
  obtain ⟨l, hlists, hmark⟩ := hl'.queue hm rfl e
  exact ⟨hfault, _, base, hlists, hmark, due_update hdue t (some (l, deadline a.now e)), hphase⟩

/-- **`mod_timer`** -/
theorem refines_modTimer :
    ∃ w, modTimer s.wheel t e = .ok w ∧ Refines { s with wheel := w }
      { a with due := update a.due t (some (deadline a.now e)) } := by
  obtain ⟨hfault, place, base, hl, hm, hdue, hphase⟩ := h
  obtain ⟨w', -, hdet, hl', hpend, -⟩ := hl.detach hm t
  obtain ⟨l, hlists, hmark⟩ := hl'.queue hm hpend e
  refine ⟨internalAddTimer (w'.setExpires t e) t, ?_, hfault, _, base, hlists, hmark,
    due_update hdue t (some (l, deadline a.now e)), hphase⟩
  unfold modTimer
  rw [hdet e]

/-- Detaching a timer and clearing its links takes it off the agenda. -/
lemma refines_clear (t : τ) (phase : Phase)
    (hsame : ∀ base, PhaseOk a.now base s.phase → PhaseOk a.now base phase) :
    ∃ w, detachTimer s.wheel t = .ok w ∧ w.timerJiffies = s.wheel.timerJiffies ∧
      Refines { s with wheel := w.clear t, phase := phase }
        { a with due := update a.due t none } := by
  obtain ⟨hfault, place, base, hl, hm, hdue, hphase⟩ := h
  obtain ⟨w', hdet, -, hl', hpend, hclock⟩ := hl.detach hm t
  refine ⟨w', hdet, hclock, hfault, _, base, { hl' with }, ?_, due_update hdue t none,
    hsame base hphase⟩
  refine hm.add ?_
  show update w'.timerPending t false = _
  rw [hpend]
  rfl

/-- **The head of the loop**: the tick is cascaded, or `run_timer_list` is left. -/
theorem refines_loopHead (hphase : s.phase = .loopHead) :
    ∃ s', loopHead s = (s', []) ∧ Refines s' a := by
  obtain ⟨hfault, place, base, hl, hm, hdue, hfresh⟩ := h
  rw [hphase] at hfresh
  unfold loopHead
  split_ifs with htime hzero
  · -- a block of level 1 begins
    have hroot : a.now % 256 = 0 := hl.index_zero ▸ hzero
    obtain ⟨w', place', base', hrun, hl', hm', hsame, hc⟩ :=
      cascadeFrom_spec (noofTvecs - 1) rfl hl hm
        (fun _ => Nat.dvd_of_mod_eq_zero hroot) (fun l h₁ h₂ => absurd h₁ (by omega))
        fun l h₁ h₂ => hfresh l h₁ h₂
    rw [hrun]
    exact ⟨_, rfl, hfault, place', base', hl', hm', fun t => (hdue t).trans (hsame t).symm, hc⟩
  · -- no block begins, at any level
    have hroot : ¬ gran 1 ∣ a.now := fun hd =>
      hzero (hl.index_zero.trans (Nat.mod_eq_zero_of_dvd hd))
    refine ⟨_, rfl, hfault, place, base, hl, hm, hdue, fun l hl0 hl5 => ?_⟩
    rw [hfresh l hl0 hl5]
    refine ceil_of_not_dvd (gran_pos l) fun hd => hroot ?_
    obtain ⟨k, rfl⟩ := Nat.exists_eq_succ_of_ne_zero (Nat.pos_iff_ne_zero.mp hl0)
    exact (gran_dvd (Nat.zero_le k)).trans hd
  · exact ⟨_, rfl, hfault, place, base, hl, hm, hdue, hfresh⟩

/-- **A call** at the label `repeat`: the first timer of the current slot is due now. -/
theorem refines_call {rest : List τ} (hphase : s.phase = .atRepeat)
    (hlist : s.wheel.vec 0 (s.wheel.index 0) = t :: rest) :
    a.due t = some a.now ∧ ∃ w, repeatStep s =
        ({ s with wheel := w, phase := .inFn }, [.called t (UInt32.ofNat a.now)]) ∧
      Refines { s with wheel := w, phase := .inFn }
        { a with due := update a.due t none } := by
  obtain ⟨w, hdet, hclock, href⟩ := refines_clear h t .inFn (fun base hb => by
    rw [hphase] at hb
    exact hb)
  refine ⟨?_, w.clear t, ?_, href⟩
  · obtain ⟨-, place, base, hl, -, hdue, -⟩ := h
    obtain ⟨d, hp, hslot⟩ := (hl.mem 0 _ t).mp (by rw [hlist]; exact List.mem_cons_self)
    have hd := hl.first_block hp hslot
    rw [hl.root] at hd
    rw [hdue, hp, ← hd]
    show some d = some (d / 1)
    rw [Nat.div_one]
  · rw [← h.clock, ← hclock]
    unfold repeatStep
    simp only [hlist, hdet, Sys.after]

end

omit [DecidableEq τ] in
/-- Nothing is due now when the current slot is empty: the other levels are ahead. -/
lemma Lists.none_due {w : Wheel τ} {now : ℕ} {place : τ → Option (ℕ × ℕ)} {base : ℕ → ℕ}
    (hl : Lists w now place base) (hc : Cascaded now base) (hlist : w.vec 0 (w.index 0) = [])
    (t : τ) (l : ℕ) : place t ≠ some (l, now) := by
  intro hp
  obtain ⟨hle, -⟩ := hl.window t l now hp
  by_cases hl0 : l = 0
  · subst hl0
    have hmem : t ∈ w.vec 0 (w.index 0) := by
      refine (hl.mem 0 _ t).mpr ⟨now, hp, ?_⟩
      rw [hl.index_zero]
      show now % 256 = now / 1 % 256
      rw [Nat.div_one]
    rw [hlist] at hmem
    simp at hmem
  · rw [hc l (by omega) (hl.level t l now hp)] at hle
    omega

omit [DecidableEq τ] in
/-- The clock moves on, once nothing is due. -/
lemma Lists.advance {w : Wheel τ} {now : ℕ} {place : τ → Option (ℕ × ℕ)} {base : ℕ → ℕ}
    (hl : Lists w now place base) (hc : Cascaded now base) (hnone : ∀ t l, place t ≠ some (l, now)) :
    Lists { w with
        timerJiffies := w.timerJiffies + 1
        index := update w.index 0 ((w.index 0 + 1) &&& tvrMask) }
      (now + 1) place (update base 0 (now + 1)) ∧
      Fresh (now + 1) (update base 0 (now + 1)) := by
  have hceil : ∀ l, (now + 1 + gran l - 1) / gran l = now / gran l + 1 := by
    intro l
    rw [show now + 1 + gran l - 1 = now + gran l by omega, Nat.add_div_right _ (gran_pos l)]
  have hroot : now / gran 0 = now := Nat.div_one now
  refine ⟨{ hl with
    clock := ?_, index := ?_, root := ?_, ahead := ?_, behind := ?_, window := ?_ }, ?_⟩
  · show w.timerJiffies + 1 = UInt32.ofNat (now + 1)
    rw [hl.clock, UInt32.ofNat_add]
    rfl
  · intro l hl5
    show update w.index 0 _ l = _
    by_cases hl0 : l = 0
    · subst hl0
      rw [and_tvrMask, hl.index 0 hl5, hl.root]
      exact Nat.mod_add_mod _ _ _
    · rw [update_of_ne hl0, update_of_ne hl0]
      exact hl.index l hl5
  · exact update_self _ _ _
  · intro l hl5
    rw [hceil]
    by_cases hl0 : l = 0
    · rw [hl0, update_self, hroot]
    · rw [update_of_ne hl0, hc l (by omega) hl5]
  · intro l hl5
    by_cases hl0 : l = 0
    · rw [hl0]
      show now + 1 ≤ (now + 1) / 1 + 1
      omega
    · rw [update_of_ne hl0, hc l (by omega) hl5]
      have hle : now / gran l ≤ (now + 1) / gran l := Nat.div_le_div_right (Nat.le_succ now)
      omega
  · intro t l d hp
    obtain ⟨hle, hlt⟩ := hl.window t l d hp
    by_cases hl0 : l = 0
    · subst hl0
      have hne : d ≠ now := by
        rintro rfl
        exact hnone t 0 hp
      have hd : d / gran 0 = d := Nat.div_one d
      rw [hl.root] at hle hlt
      rw [update_self]
      omega
    · rw [update_of_ne hl0]
      exact ⟨hle, hlt⟩
  · intro l hl0 hl5
    rw [update_of_ne (by omega), hc l hl0 hl5, hceil]

/-- **The end of an iteration** at the label `repeat`: nothing is due any more. -/
theorem refines_finish (h : Refines s a) (hphase : s.phase = .atRepeat)
    (hlist : s.wheel.vec 0 (s.wheel.index 0) = []) :
    (∀ t, a.due t ≠ some a.now) ∧ ∃ w, repeatStep s =
        ({ s with wheel := w, phase := .loopHead }, [.finished (UInt32.ofNat a.now)]) ∧
      Refines { s with wheel := w, phase := .loopHead } { a with now := a.now + 1 } := by
  have hclock := h.clock
  obtain ⟨hfault, place, base, hl, hm, hdue, hcasc⟩ := h
  rw [hphase] at hcasc
  have hnone := hl.none_due hcasc hlist
  obtain ⟨hlists, hfresh⟩ := hl.advance hcasc hnone
  refine ⟨?_, _, ?_, hfault, place, _, hlists, hm, hdue, hfresh⟩
  · intro t ht
    rw [hdue] at ht
    obtain ⟨⟨l, d⟩, hp, rfl⟩ := Option.map_eq_some_iff.mp ht
    exact hnone t l hp
  · rw [← hclock]
    unfold repeatStep
    simp only [hlist, Sys.after]

/-- **Every step** of the wheel is at most one of the agenda. -/
theorem refines_step {act : Act τ} (h : Refines s a) (hstep : step s act = some (s', evs)) :
    ∃ a', AtMostNext a evs a' ∧ Refines s' a' := by
  have hfault := h.1
  simp only [step, hfault, Option.isSome_none, Bool.false_eq_true, if_false] at hstep
  cases act with
  | addTimer t e =>
    simp only at hstep
    split_ifs at hstep with hlock hpend
    · cases hstep
      exact ⟨a, .inl ⟨rfl, rfl⟩, h⟩
    · cases hstep
      refine ⟨_, .inr ⟨_, rfl, ?_⟩, refines_addTimer h (by simpa using hpend)⟩
      rw [h.clock]
      exact .queued a t e
  | modTimer t e =>
    obtain ⟨w, hmod, href⟩ := refines_modTimer h (t := t) (e := e)
    simp only [hmod] at hstep
    split_ifs at hstep with hlock
    cases hstep
    refine ⟨_, .inr ⟨_, rfl, ?_⟩, href⟩
    rw [h.clock]
    exact .queued a t e
  | delTimer t =>
    obtain ⟨w, hdet, -, href⟩ := refines_clear h t s.phase fun _ hb => hb
    simp only [delTimer, hdet] at hstep
    split_ifs at hstep with hlock
    cases hstep
    exact ⟨_, .inr ⟨_, rfl, .removed a t⟩, href⟩
  | tick =>
    cases hstep
    exact ⟨a, .inl ⟨rfl, rfl⟩, rfl, h.2⟩
  | enter =>
    simp only at hstep
    split_ifs at hstep with hidle
    cases hstep
    refine ⟨a, .inl ⟨rfl, rfl⟩, ?_⟩
    obtain ⟨-, place, base, hl, hm, hdue, hphase⟩ := h
    rw [hidle] at hphase
    exact ⟨rfl, place, base, hl, hm, hdue, hphase⟩
  | go =>
    cases hphase : s.phase with
    | idle | inFn => simp [hphase] at hstep
    | loopHead =>
      obtain ⟨s₁, hs₁, href⟩ := refines_loopHead h hphase
      simp only [hphase, hs₁] at hstep
      cases hstep
      exact ⟨a, .inl ⟨rfl, rfl⟩, href⟩
    | atRepeat =>
      cases hlist : s.wheel.vec 0 (s.wheel.index 0) with
      | cons t rest =>
        obtain ⟨hnow, w, hrep, href⟩ := refines_call h hphase hlist
        simp only [hphase, hrep] at hstep
        cases hstep
        exact ⟨_, .inr ⟨_, rfl, .called hnow⟩, href⟩
      | nil =>
        obtain ⟨hnone, w, hrep, href⟩ := refines_finish h hphase hlist
        simp only [hphase, hrep] at hstep
        cases hstep
        exact ⟨_, .inr ⟨_, rfl, .finished hnone⟩, href⟩
  | ret =>
    simp only at hstep
    split_ifs at hstep with hin
    cases hstep
    refine ⟨a, .inl ⟨rfl, rfl⟩, ?_⟩
    obtain ⟨-, place, base, hl, hm, hdue, hphase⟩ := h
    rw [hin] at hphase
    exact ⟨rfl, place, base, hl, hm, hdue, hphase⟩

end Steps

/-! ## Runs -/

omit [DecidableEq τ] in
lemma refines_init (expires : τ → UInt32) : Refines (Sys.init expires) ⟨0, fun _ => none⟩ := by
  refine ⟨rfl, fun _ => none, fun _ => 0, ?_, fun _ => rfl, fun _ => rfl, ?_⟩
  · refine ⟨rfl, ?_, rfl, ?_, ?_, ?_, ?_, ?_, ?_, ?_⟩
    · exact fun l _ => (Nat.zero_mod _).symm
    · intro l _
      rw [Nat.zero_add, Nat.div_eq_of_lt (Nat.sub_lt (gran_pos l) Nat.one_pos)]
    · exact fun l _ => Nat.zero_le _
    · intro l i t
      simp [Sys.init]
    · exact fun l i => List.nodup_nil
    all_goals
      intro t l d hp
      simp at hp
  · intro l _ _
    rw [Nat.zero_add, Nat.div_eq_of_lt (Nat.sub_lt (gran_pos l) Nat.one_pos)]

/-- **Refinement.** The events of a run are a trace of an agenda that the wheel holds. -/
theorem refines_run {expires : τ → UInt32} {as : List (Act τ)} {evs : List (Event τ)} {s : Sys τ}
    (hrun : Exec step anyStep (Sys.init expires) as evs s) :
    ∃ a, Agenda.Trace evs a ∧ Refines s a := by
  refine hrun.invariant (P := fun s evs => ∃ a, Agenda.Trace evs a ∧ Refines s a)
    ⟨_, .init, refines_init expires⟩ ?_
  rintro s evs act s' fs ⟨a, htrace, href⟩ - hstep
  obtain ⟨a', ⟨rfl, rfl⟩ | ⟨ev, rfl, hnext⟩, href'⟩ := refines_step href hstep
  · exact ⟨a', by rw [List.append_nil]; exact htrace, href'⟩
  · exact ⟨a', htrace.next hnext, href'⟩

/-- **The timer wheel is exact.** In every run, with no bound on its length: no list is ever
corrupted. A timer queued for a time that is not past is called at most once, in no other
iteration than the one of that time, and has been called when that iteration is over. One
queued for a time that is past has been called when the next iteration to end is over. Both as
long as it is neither removed nor queued again; and after it is removed it is not called. -/
theorem timers_exact (expires : τ → UInt32) {as : List (Act τ)} {evs : List (Event τ)} {s : Sys τ}
    (hrun : Exec step anyStep (Sys.init expires) as evs s) :
    s.fault = none ∧
    (∀ t e now es₀ es, evs = es₀ ++ .queued t e now :: es → (∀ ev ∈ es, ev.retimes t = false) →
      es.countP (Event.isCall t) ≤ 1 ∧
      (0 ≤ (e - now).toInt32 → (∀ x, .called t x ∈ es → x = e) ∧
        ∀ es₁ es₂, es = es₁ ++ .finished e :: es₂ → es₁.countP (Event.isCall t) = 1) ∧
      ((e - now).toInt32 < 0 →
        ∀ es₁ x es₂, es = es₁ ++ .finished x :: es₂ → es₁.countP (Event.isCall t) = 1)) ∧
    (∀ t es₀ es, evs = es₀ ++ .removed t :: es → (∀ ev ∈ es, ev.isQueue t = false) →
      es.countP (Event.isCall t) = 0) := by
  obtain ⟨a, htrace, href⟩ := refines_run hrun
  refine ⟨href.1, ?_, ?_⟩
  · exact fun t e now es₀ es hevs hno => htrace.after_queued hevs hno
  · exact fun t es₀ es hevs hno => (htrace.after_removed hevs hno).2

/-- Two iterations: a timer queued for the past is called in the first, one for time 1 in the
second. -/
def twoIterations : List (Act ℕ) :=
  [.addTimer 0 1, .addTimer 1 0xffffffff, .tick, .enter, .go, .go, .ret, .go, .go, .go, .ret, .go]

/-- What is seen of them after the first timer was queued. -/
def twoIterationsSeen : List (Event ℕ) :=
  [.queued 1 0xffffffff 0, .called 1 0, .finished 0, .called 0 1, .finished 1]

theorem timers_exact_two_iterations :
    ∃ evs s, Exec step anyStep (Sys.init fun _ : ℕ => 0) twoIterations evs s ∧ s.fault = none ∧
      evs = .queued 0 1 0 :: twoIterationsSeen ∧
      twoIterationsSeen.countP (Event.isCall 0) ≤ 1 := by
  refine exists_comm.1 (Exec.exists_of_decide (fun _ evs => evs = .queued 0 1 0 :: twoIterationsSeen)
    (by decide +kernel) fun s evs hrun hevs => ?_)
  obtain ⟨hfault, hqueued, -⟩ := timers_exact (fun _ : ℕ => 0) hrun
  exact ⟨hfault, hevs, (hqueued 0 1 0 [] twoIterationsSeen hevs (by decide)).1⟩

end PsxLinux.Timer
