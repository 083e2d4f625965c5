import PsxLinux.Timer.Wheel

/-!
# What timers are for

The abstract timer service: an agenda with a clock that never wraps, and for each timer the
time it is due, if it is. A timer is called at the time it is due and no other, and the clock
does not move on while a timer is due. `Agenda.Trace` are the events such a service can
produce; the clock words in them are 32 bits wide.

What the trace of an agenda says about one timer after it was queued is
`Trace.after_queued`, and after it was removed `Trace.after_removed`.
-/

namespace PsxLinux.Timer

open Function List

variable {τ : Type} [DecidableEq τ]
variable {evs es₂ es₁ : List (Event τ)} {expires x : UInt32}

structure Agenda (τ : Type) where
  now : ℕ
  due : τ → Option ℕ

/-- When a timer queued now for `expires` is due: now, if that time is past. -/
def deadline (now : ℕ) (expires : UInt32) : ℕ :=
  if 0 ≤ (expires - UInt32.ofNat now).toInt32 then now + (expires - UInt32.ofNat now).toNat else now

lemma le_deadline (now : ℕ) (expires : UInt32) : now ≤ deadline now expires := by
  unfold deadline
  split_ifs <;> omega

namespace Agenda

/-- What may happen next. -/
inductive Next : Agenda τ → Event τ → Agenda τ → Prop
  | queued (a : Agenda τ) (timer : τ) (expires : UInt32) :
      Next a (.queued timer expires (UInt32.ofNat a.now))
        { a with due := update a.due timer (some (deadline a.now expires)) }
  | removed (a : Agenda τ) (timer : τ) :
      Next a (.removed timer) { a with due := update a.due timer none }
  | called {a : Agenda τ} {timer : τ} (hdue : a.due timer = some a.now) :
      Next a (.called timer (UInt32.ofNat a.now))
        { a with due := update a.due timer none }
  | finished {a : Agenda τ} (hdone : ∀ timer, a.due timer ≠ some a.now) :
      Next a (.finished (UInt32.ofNat a.now)) { a with now := a.now + 1 }

/-- The events lead from the empty agenda at time 0 to this one. -/
inductive Trace : List (Event τ) → Agenda τ → Prop
  | init : Trace [] ⟨0, fun _ => none⟩
  | next {evs : List (Event τ)} {a a' : Agenda τ} {ev : Event τ} :
      Trace evs a → Next a ev a' → Trace (evs ++ [ev]) a'

/-- Nothing that is due lies in the past. -/
lemma Trace.le_due {a : Agenda τ} (h : Trace evs a) {timer : τ} {d : ℕ}
    (hd : a.due timer = some d) : a.now ≤ d := by
  induction h generalizing timer d with
  | init => simp at hd
  | @next evs a a' ev _ hnext ih =>
    cases hnext with
    | queued timer' expires =>
      by_cases ht : timer = timer'
      · subst ht
        simp only [update_self, Option.some.injEq] at hd
        subst hd
        exact le_deadline a.now expires
      · exact ih (by simpa [update_of_ne ht] using hd)
    | removed timer' =>
      by_cases ht : timer = timer'
      · subst ht
        simp at hd
      · exact ih (by simpa [update_of_ne ht] using hd)
    | @called timer' hdue =>
      by_cases ht : timer = timer'
      · subst ht
        simp at hd
      · exact ih (by simpa [update_of_ne ht] using hd)
    | finished hdone =>
      have hle := ih hd
      have hne : a.now ≠ d := fun he => hdone timer (by rw [he]; exact hd)
      show a.now + 1 ≤ d
      omega

end Agenda

/-! ## One timer -/

/-- The call of this timer. -/
def Event.isCall (timer : τ) : Event τ → Bool
  | .called timer' _ => decide (timer' = timer)
  | _ => false

/-- The timer is queued again. -/
def Event.isQueue (timer : τ) : Event τ → Bool
  | .queued timer' _ _ => decide (timer' = timer)
  | _ => false

/-- The timer is queued again or removed. -/
def Event.retimes (timer : τ) : Event τ → Bool
  | .queued timer' _ _ => decide (timer' = timer)
  | .removed timer' => decide (timer' = timer)
  | _ => false

/-- Queued at time `start` for time `d` and not called yet: every iteration since then was one
before now. -/
structure Waiting (timer : τ) (start d : ℕ) (es : List (Event τ)) (a : Agenda τ) : Prop where
  due : a.due timer = some d
  calls : es.countP (Event.isCall timer) = 0
  started : start ≤ a.now
  past : ∀ x, .finished x ∈ es → ∃ n, start ≤ n ∧ n < a.now ∧ x = UInt32.ofNat n

/-- Called at time `d`, once: every iteration until then was one before `d`. -/
structure Served (timer : τ) (start d : ℕ) (es : List (Event τ)) (a : Agenda τ) : Prop where
  due : a.due timer = none
  once : ∃ es₁ es₂, es = es₁ ++ .called timer (UInt32.ofNat d) :: es₂ ∧
    es₁.countP (Event.isCall timer) = 0 ∧ es₂.countP (Event.isCall timer) = 0 ∧
    ∀ x, .finished x ∈ es₁ → ∃ n, start ≤ n ∧ n < d ∧ x = UInt32.ofNat n

section OneTimer

variable {timer : τ} {start d : ℕ} {es : List (Event τ)} {a a' : Agenda τ} {ev : Event τ}

lemma countP_concat_eq_zero (h : es.countP (Event.isCall timer) = 0)
    (hev : ev.isCall timer = false) : (es ++ [ev]).countP (Event.isCall timer) = 0 := by
  rw [countP_append, h, countP_singleton, hev]
  rfl

omit [DecidableEq τ] in
lemma mem_concat_finished (h : .finished x ∈ es ++ [ev])
    (hev : ∀ y, ev ≠ .finished y) : .finished x ∈ es := by
  rcases mem_append.mp h with h | h
  · exact h
  · exact absurd (mem_singleton.mp h).symm (hev x)

lemma Waiting.other (h : Waiting timer start d es a) (hdue : a'.due timer = a.due timer)
    (hnow : a'.now = a.now) (hcall : ev.isCall timer = false) (hev : ∀ y, ev ≠ .finished y) :
    Waiting timer start d (es ++ [ev]) a' where
  due := hdue.trans h.due
  calls := countP_concat_eq_zero h.calls hcall
  started := hnow ▸ h.started
  past := fun x hx => by
    rw [hnow]
    exact h.past x (mem_concat_finished hx hev)

lemma Served.other (h : Served timer start d es a) (hdue : a'.due timer = a.due timer)
    (hcall : ev.isCall timer = false) : Served timer start d (es ++ [ev]) a' := by
  obtain ⟨es₁, es₂, rfl, h₁, h₂, hpast⟩ := h.once
  refine ⟨hdue.trans h.due, es₁, es₂ ++ [ev], ?_, h₁, countP_concat_eq_zero h₂ hcall, hpast⟩
  rw [append_assoc, cons_append]

/-- What a step does to one timer: nothing, or it is queued again, removed or called. -/
lemma Agenda.Next.cases (h : a.Next ev a') (timer : τ) :
    (a'.due timer = a.due timer ∧ ev.isCall timer = false) ∨ ev.isQueue timer ∨
    (ev = .removed timer ∧ a'.due timer = none) ∨
    (a.due timer = some a.now ∧ ev = .called timer (UInt32.ofNat a.now) ∧ a'.due timer = none) := by
  cases h with
  | queued timer' expires =>
    by_cases ht : timer = timer'
    · exact .inr (.inl (decide_eq_true ht.symm))
    · exact .inl ⟨update_of_ne ht _ _, rfl⟩
  | removed timer' =>
    by_cases ht : timer = timer'
    · subst ht
      exact .inr (.inr (.inl ⟨rfl, update_self ..⟩))
    · exact .inl ⟨update_of_ne ht _ _, rfl⟩
  | @called timer' hdue =>
    by_cases ht : timer = timer'
    · subst ht
      exact .inr (.inr (.inr ⟨hdue, rfl, update_self ..⟩))
    · exact .inl ⟨update_of_ne ht _ _, decide_eq_false (Ne.symm ht)⟩
  | finished => exact .inl ⟨rfl, rfl⟩

lemma Event.isQueue_eq_false (h : ev.retimes timer = false) : ev.isQueue timer = false := by
  cases ev <;> first | exact h | rfl

lemma Waiting.next (h : Waiting timer start d es a) (hnext : a.Next ev a')
    (hev : ev.retimes timer = false) :
    Waiting timer start d (es ++ [ev]) a' ∨ Served timer start d (es ++ [ev]) a' := by
  rcases hnext.cases timer with ⟨hdue, hcall⟩ | hqueue | ⟨rfl, -⟩ | ⟨hdue, rfl, hnone⟩
  · left
    cases hnext with
    | queued | removed | called => exact h.other hdue rfl hcall fun y => by simp
    | finished hdone =>
      refine ⟨h.due, countP_concat_eq_zero h.calls rfl, Nat.le_succ_of_le h.started, ?_⟩
      intro x hx
      rcases mem_append.mp hx with hx | hx
      · obtain ⟨n, h₁, h₂, h₃⟩ := h.past x hx
        exact ⟨n, h₁, Nat.lt_succ_of_lt h₂, h₃⟩
      · have hx' : x = UInt32.ofNat a.now := by simpa using hx
        exact ⟨a.now, h.started, Nat.lt_succ_self _, hx'⟩
  · simp [Event.isQueue_eq_false hev] at hqueue
  · simp [Event.retimes] at hev
  · -- its own call: it was due, so now is `d`
    have hd : a.now = d := Option.some.inj (hdue.symm.trans h.due)
    refine .inr ⟨hnone, es, [], by rw [hd], h.calls, rfl, ?_⟩
    rw [← hd]
    exact h.past

lemma Served.next (h : Served timer start d es a) (hnext : a.Next ev a')
    (hev : ev.retimes timer = false) : Served timer start d (es ++ [ev]) a' := by
  rcases hnext.cases timer with ⟨hdue, hcall⟩ | hqueue | ⟨rfl, -⟩ | ⟨hdue, -, -⟩
  · exact h.other hdue hcall
  · simp [Event.isQueue_eq_false hev] at hqueue
  · simp [Event.retimes] at hev
  · simp [h.due] at hdue

/-- **Invariant rule from an event on.** -/
lemma Agenda.Trace.after {P : List (Event τ) → Agenda τ → Prop} {ok : Event τ → Prop}
    {es₀ : List (Event τ)} (h : Agenda.Trace evs a) (hevs : evs = es₀ ++ ev :: es)
    (hok : ∀ e ∈ es, ok e) (hinit : ∀ {a a'}, Agenda.Next a ev a' → P [] a')
    (hstep : ∀ {es a e a'}, P es a → Agenda.Next a e a' → ok e → P (es ++ [e]) a') : P es a := by
  induction h generalizing es with
  | init => simp at hevs
  | @next evs a a' e _ hnext ih =>
    -- the last event is the one given or one of those after it
    rcases eq_nil_or_concat es with rfl | ⟨es', e', rfl⟩
    · obtain ⟨-, he⟩ := append_inj' hevs rfl
      obtain rfl : e = ev := by simpa using he
      exact hinit hnext
    · rw [concat_eq_append] at hevs hok ⊢
      rw [← cons_append, ← append_assoc] at hevs
      obtain ⟨hevs', he⟩ := append_inj' hevs rfl
      obtain rfl : e = e' := by simpa using he
      exact hstep (ih hevs' fun e he => hok e (by simp [he])) hnext (hok e (by simp))

/-- After its last queueing a timer is waiting or was served. -/
lemma Agenda.Trace.tracked {es₀ : List (Event τ)} {now : UInt32} (h : Agenda.Trace evs a)
    (hevs : evs = es₀ ++ .queued timer expires now :: es)
    (hno : ∀ ev ∈ es, ev.retimes timer = false) :
    ∃ start, now = UInt32.ofNat start ∧ (Waiting timer start (deadline start expires) es a ∨
      Served timer start (deadline start expires) es a) := by
  refine h.after (P := fun es a => ∃ start, now = UInt32.ofNat start ∧
    (Waiting timer start (deadline start expires) es a ∨
      Served timer start (deadline start expires) es a)) hevs hno ?_ ?_
  · rintro a _ ⟨⟩
    exact ⟨a.now, rfl, .inl ⟨update_self _ _ _, rfl, Nat.le_refl _, fun x hx => by simp at hx⟩⟩
  · rintro es a ev a' ⟨start, hstart, hw | hs⟩ hnext hev
    · exact ⟨start, hstart, hw.next hnext hev⟩
    · exact ⟨start, hstart, .inr (hs.next hnext hev)⟩

/-- While a timer waits, the iterations that end are those before its time. -/
lemma Waiting.finished_before (h : Waiting timer start d es a) (hle : a.now ≤ d)
    (hes : es = es₁ ++ .finished x :: es₂) : ∃ n, start ≤ n ∧ n < d ∧ x = UInt32.ofNat n := by
  obtain ⟨n, h₁, h₂, h₃⟩ := h.past x (by rw [hes]; simp)
  exact ⟨n, h₁, by omega, h₃⟩

lemma Served.calls (h : Served timer start d es a) : es.countP (Event.isCall timer) = 1 := by
  obtain ⟨es₁, es₂, rfl, h₁, h₂, -⟩ := h.once
  rw [countP_append, countP_cons, h₁, h₂]
  simp [Event.isCall]

/-- When an iteration ends, a timer that was served had been called by then, or that was an
iteration before its time. -/
lemma Served.called_before (h : Served timer start d es a) (hes : es = es₁ ++ .finished x :: es₂) :
    es₁.countP (Event.isCall timer) = 1 ∨ ∃ n, start ≤ n ∧ n < d ∧ x = UInt32.ofNat n := by
  have hone := h.calls
  obtain ⟨fs₁, fs₂, hfs, h₁, h₂, hpast⟩ := h.once
  rw [hfs] at hes
  rcases append_eq_append_iff.mp hes with ⟨l, hl, hl'⟩ | ⟨l, hl, hl'⟩
  · cases l with
    | nil => simp at hl'
    | cons c l =>
      -- the call lies before the end of the iteration
      left
      cases hl'
      have hle : es₁.countP (Event.isCall timer) ≤ 1 := by
        rw [← hone, hfs, hes, countP_append]
        omega
      have hpos : 0 < es₁.countP (Event.isCall timer) :=
        countP_pos_iff.mpr
          ⟨.called timer (UInt32.ofNat d), by rw [hl]; simp, by simp [Event.isCall]⟩
      omega
  · right
    cases l with
    | nil => simp at hl'
    | cons c l =>
      cases hl'
      exact hpast x (by rw [hl]; simp)

/-- The clock word of a deadline that is not past is the time asked for. -/
lemma ofNat_deadline (h : 0 ≤ (expires - UInt32.ofNat start).toInt32) :
    UInt32.ofNat (deadline start expires) = expires := by
  unfold deadline
  rw [if_pos h, UInt32.ofNat_add, UInt32.ofNat_toNat]
  rw [UInt32.add_comm, UInt32.sub_add_cancel]

/-- No time before the deadline has its clock word. -/
lemma ofNat_ne_of_lt_deadline {n : ℕ} (hn : start ≤ n)
    (hlt : n < deadline start expires) (h : 0 ≤ (expires - UInt32.ofNat start).toInt32) :
    expires ≠ UInt32.ofNat n := by
  rintro rfl
  unfold deadline at hlt
  rw [if_pos h] at hlt
  have hsub : (UInt32.ofNat n - UInt32.ofNat start).toNat ≤ n - start := by
    have hcast : UInt32.ofNat n - UInt32.ofNat start = UInt32.ofNat (n - start) := by
      rw [UInt32.ofNat_sub hn]
    rw [hcast]
    exact Nat.mod_le _ _
  omega

/-- **After a timer was queued** and as long as it is neither queued again nor removed: if the
time asked for is not past, it is called in no other iteration than that one, and when that
iteration is over it was called, once and for all; otherwise it was called when the first
iteration is over. -/
theorem Agenda.Trace.after_queued {es₀ : List (Event τ)} {now : UInt32}
    (h : Agenda.Trace evs a) (hevs : evs = es₀ ++ .queued timer expires now :: es)
    (hno : ∀ ev ∈ es, ev.retimes timer = false) :
    es.countP (Event.isCall timer) ≤ 1 ∧
    (0 ≤ (expires - now).toInt32 → (∀ x, .called timer x ∈ es → x = expires) ∧
      ∀ es₁ es₂, es = es₁ ++ .finished expires :: es₂ → es₁.countP (Event.isCall timer) = 1) ∧
    ((expires - now).toInt32 < 0 →
      ∀ es₁ x es₂, es = es₁ ++ .finished x :: es₂ → es₁.countP (Event.isCall timer) = 1) := by
  obtain ⟨start, rfl, hw | hs⟩ := h.tracked hevs hno
  · have hnone := hw.calls
    have hle := h.le_due hw.due
    refine ⟨by omega, fun hpos => ⟨fun x hx => ?_, fun es₁ es₂ hes => ?_⟩, fun hneg => ?_⟩
    · have := countP_eq_zero.mp hnone _ hx
      simp [Event.isCall] at this
    · obtain ⟨n, h₁, h₂, h₃⟩ := hw.finished_before hle hes
      exact absurd h₃ (ofNat_ne_of_lt_deadline h₁ h₂ hpos)
    · intro es₁ x es₂ hes
      obtain ⟨n, h₁, h₂, -⟩ := hw.finished_before hle hes
      unfold deadline at h₂
      rw [if_neg (Int32.not_le.mpr hneg)] at h₂
      omega
  · refine ⟨Nat.le_of_eq hs.calls, fun hpos => ⟨fun x hx => ?_, fun es₁ es₂ hes => ?_⟩, fun hneg => ?_⟩
    · obtain ⟨fs₁, fs₂, rfl, h₁, h₂, -⟩ := hs.once
      rcases mem_append.mp hx with hx | hx
      · have := countP_eq_zero.mp h₁ _ hx
        simp [Event.isCall] at this
      · rcases mem_cons.mp hx with hx | hx
        · obtain ⟨-, rfl⟩ := Event.called.inj hx
          exact ofNat_deadline hpos
        · have := countP_eq_zero.mp h₂ _ hx
          simp [Event.isCall] at this
    · rcases hs.called_before hes with hcall | ⟨n, h₁, h₂, h₃⟩
      · exact hcall
      · exact absurd h₃ (ofNat_ne_of_lt_deadline h₁ h₂ hpos)
    · intro es₁ x es₂ hes
      rcases hs.called_before hes with hcall | ⟨n, h₁, h₂, -⟩
      · exact hcall
      · unfold deadline at h₂
        rw [if_neg (Int32.not_le.mpr hneg)] at h₂
        omega

/-- **After a timer was removed** and as long as it is not queued again, it is not called. -/
theorem Agenda.Trace.after_removed {es₀ : List (Event τ)} (h : Agenda.Trace evs a)
    (hevs : evs = es₀ ++ .removed timer :: es) (hno : ∀ ev ∈ es, ev.isQueue timer = false) :
    a.due timer = none ∧ es.countP (Event.isCall timer) = 0 := by
  refine h.after (P := fun es a => a.due timer = none ∧ es.countP (Event.isCall timer) = 0) hevs hno
    ?_ ?_
  · rintro a _ ⟨⟩
    exact ⟨update_self _ _ _, rfl⟩
  · rintro es a ev a' ⟨hdue, hcalls⟩ hnext hev
    rcases hnext.cases timer with ⟨hsame, hcall⟩ | hqueue | ⟨rfl, hnone⟩ | ⟨hdue', -, -⟩
    · exact ⟨hsame.trans hdue, countP_concat_eq_zero hcalls hcall⟩
    · simp [hev] at hqueue
    · exact ⟨hnone, countP_concat_eq_zero hcalls rfl⟩
    · simp [hdue] at hdue'

end OneTimer

end PsxLinux.Timer
