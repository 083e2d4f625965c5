import PsxLinux.Signal.PendingTheorems

/-!
# Signals over whole runs

The invariants of the abstract state over any sequence of events, and what they say about the
linked lists in every run. For a real-time signal the history is compared with the queue: what has
been delivered, followed by what is still queued, is what the sends queued, in their order.
-/

namespace PsxLinux.Signal

open Lib Function List

variable {n max : Nat} {a b : Abs n} {es : List (Event n)} {t : Fin n} {sig : Nat}
variable {e : Event n} {s : Sys n} {acts : List (Act n)}

def entries (sig : Nat) (queue : List Info) : List Info := queue.filter fun i => i.signo == sig

/-! ## Histories -/

/-- The sends of a signal that queued an entry, since the task was flushed last. -/
def accepted (t : Fin n) (sig : Nat) (es : List (Event n)) : List Send :=
  es.foldl (fun acc e => match e with
    | .queued u x _ => if u = t ∧ x.sig = sig then acc ++ [x] else acc
    | .flushed u => if u = t then [] else acc
    | _ => acc) []

/-- The entries of a signal that were delivered, since the task was flushed last. -/
def deliveredInfos (t : Fin n) (sig : Nat) (es : List (Event n)) : List Info :=
  es.foldl (fun acc e => match e with
    | .delivered u sig' info => if u = t ∧ sig' = sig then acc ++ [info] else acc
    | .flushed u => if u = t then [] else acc
    | _ => acc) []

/-- How often a signal was delivered with zeroed information. -/
def zeroedCount (t : Fin n) (sig : Nat) (es : List (Event n)) : Nat :=
  es.countP fun e => match e with
    | .zeroed u sig' => decide (u = t ∧ sig' = sig)
    | _ => false

/-- How often a signal was sent without queue space. -/
def unqueuedCount (t : Fin n) (sig : Nat) (es : List (Event n)) : Nat :=
  es.countP fun e => match e with
    | .unqueued u sig' => decide (u = t ∧ sig' = sig)
    | _ => false

/-! ## Entries of a list -/

section Entries
variable {queue : List Info} {i : Info} {sig' : Nat}

lemma entries_append {queue' : List Info} :
    entries sig (queue ++ queue') = entries sig queue ++ entries sig queue' :=
  filter_append ..

lemma entries_remove (h : sig ≠ sig') :
    entries sig (queue.filter fun i => !(i.signo == sig')) = entries sig queue := by
  unfold entries
  rw [filter_filter]
  refine filter_congr fun i _ => ?_
  by_cases hi : i.signo = sig
  · simp [hi, h]
  · simp [hi]

/-- Taking one signal leaves the entries of the others. -/
lemma entries_eraseP_of_ne (h : sig ≠ sig') :
    entries sig (queue.eraseP fun i => i.signo == sig') = entries sig queue := by
  unfold entries
  induction queue with
  | nil => rfl
  | cons i queue ih =>
    by_cases hi : i.signo = sig'
    · have hne : (i.signo == sig) = false := by simp [hi, Ne.symm h]
      rw [eraseP_cons_of_pos (by simp [hi]), filter_cons_of_neg (by simp [hne])]
    · rw [eraseP_cons_of_neg (by simp [hi]), filter_cons, filter_cons, ih]

/-- The first entry of a signal is the one that is taken. -/
lemma entries_of_find? (h : queue.find? (fun i => i.signo == sig) = some i) :
    entries sig queue = i :: entries sig (queue.eraseP fun i => i.signo == sig) := by
  unfold entries
  generalize (fun i : Info => i.signo == sig) = pass at h ⊢
  induction queue with
  | nil => cases h
  | cons j queue ih =>
    by_cases hj : pass j
    · rw [find?_cons_of_pos hj] at h
      rw [eraseP_cons_of_pos hj, filter_cons_of_pos hj, Option.some.inj h]
    · rw [find?_cons_of_neg hj] at h
      rw [eraseP_cons_of_neg hj, filter_cons_of_neg hj, filter_cons_of_neg hj]
      exact ih h

lemma entries_eq_nil (h : queue.find? (fun i => i.signo == sig) = none) :
    entries sig queue = [] := by
  unfold entries
  rw [filter_eq_nil_iff]
  exact find?_eq_none.1 h

lemma mem_entries : i ∈ entries sig queue ↔ i ∈ queue ∧ i.signo = sig := by
  simp [entries]

end Entries

/-! ## The invariant -/

/-- What holds of the pending signals of a task. -/
structure Pending.Ok (p : Pending) : Prop where
  range : ∀ i ∈ p.queue, 1 ≤ i.signo ∧ i.signo ≤ nsig
  bit : ∀ i ∈ p.queue, sigismember p.signal i.signo
  single : ∀ sig, sig < sigrtmin → (entries sig p.queue).length ≤ 1

lemma Pending.ok_empty : Pending.Ok ⟨[], sigemptyset⟩ :=
  ⟨by simp, by simp, by simp [entries]⟩

variable {p : Pending}

lemma Pending.Ok.entries_eq_nil (h : p.Ok)
    (hbit : sigismember p.signal sig = false) : entries sig p.queue = [] := by
  rw [eq_nil_iff_forall_not_mem]
  intro i hi
  obtain ⟨hmem, rfl⟩ := mem_entries.1 hi
  rw [h.bit i hmem] at hbit
  cases hbit

lemma Pending.Ok.remove (h : p.Ok) (hsig : 1 ≤ sig) : (p.remove sig).Ok := by
  refine ⟨fun i hi => h.range i (mem_of_mem_filter hi), ?_, ?_⟩
  · intro i hi
    obtain ⟨hmem, hne⟩ := mem_filter.1 hi
    have hne' : i.signo ≠ sig := by simpa using hne
    rw [Pending.remove, sigismember_del hsig (h.range i hmem).1, h.bit i hmem,
      decide_eq_true hne']
    rfl
  · intro sig' hlt
    have hle := h.single sig' hlt
    have hsub : (entries sig' (p.remove sig).queue).Sublist (entries sig' p.queue) :=
      Sublist.filter _ filter_sublist
    exact hsub.length_le.trans hle

lemma Pending.Ok.add (h : p.Ok) (hsig : 1 ≤ sig) :
    Pending.Ok ⟨p.queue, sigaddset p.signal sig⟩ := by
  refine ⟨h.range, fun i hi => ?_, h.single⟩
  rw [sigismember_add hsig (h.range i hi).1, h.bit i hi]
  rfl

/-- A queued signal is marked pending. -/
lemma Pending.Ok.push (h : p.Ok) {i : Info} (hi : 1 ≤ i.signo ∧ i.signo ≤ nsig)
    (hnew : i.signo < sigrtmin → sigismember p.signal i.signo = false) :
    Pending.Ok ⟨p.queue ++ [i], sigaddset p.signal i.signo⟩ := by
  refine ⟨?_, ?_, ?_⟩
  · intro j hj
    rcases mem_append.1 hj with hj | hj
    · exact h.range j hj
    · rw [mem_singleton.1 hj]
      exact hi
  · intro j hj
    rcases mem_append.1 hj with hj | hj
    · rw [sigismember_add hi.1 (h.range j hj).1, h.bit j hj]
      rfl
    · rw [mem_singleton.1 hj, sigismember_add hi.1 hi.1]
      simp
  · intro sig' hlt
    rw [entries_append, length_append]
    by_cases hsig' : i.signo = sig'
    · subst hsig'
      rw [h.entries_eq_nil (hnew hlt)]
      simp [entries]
    · have hnone : entries sig' [i] = [] := by simp [entries, hsig']
      rw [hnone]
      exact h.single sig' hlt

lemma Pending.Ok.clear (h : p.Ok) (hsig : 1 ≤ sig)
    (hnone : entries sig p.queue = []) : Pending.Ok ⟨p.queue, sigdelset p.signal sig⟩ := by
  refine ⟨h.range, fun i hi => ?_, h.single⟩
  have hne : i.signo ≠ sig := by
    rintro rfl
    have hmem : i ∈ entries i.signo p.queue := mem_entries.2 ⟨hi, rfl⟩
    rw [hnone] at hmem
    cases hmem
  rw [sigismember_del hsig (h.range i hi).1, h.bit i hi, decide_eq_true hne]
  rfl

/-- The mark goes with the last entry. -/
lemma Pending.Ok.take (h : p.Ok) (hsig : 1 ≤ sig) {e : Info}
    (hfind : p.queue.find? (fun i => i.signo == sig) = some e) : (p.take sig).Ok := by
  -- first without the entry and with the old bits
  have hless : Pending.Ok ⟨p.queue.eraseP fun i => i.signo == sig, p.signal⟩ := by
    have hsub : (p.queue.eraseP fun i => i.signo == sig).Sublist p.queue := eraseP_sublist
    refine ⟨fun i hi => h.range i (hsub.subset hi), fun i hi => h.bit i (hsub.subset hi), ?_⟩
    intro sig' hlt
    exact (hsub.filter _).length_le.trans (h.single sig' hlt)
  unfold Pending.take
  dsimp only
  split
  case isTrue => exact hless
  case isFalse hlast =>
    refine hless.clear hsig ?_
    rcases Nat.lt_or_ge sig sigrtmin with hlt | hge
    · -- it was the only entry
      have hone := h.single sig hlt
      rw [entries_of_find? hfind] at hone
      exact length_eq_zero_iff.1 (Nat.le_zero.1 (Nat.le_of_succ_le_succ hone))
    · have hnone : ((p.queue.eraseP fun i => i.signo == sig).any fun i => i.signo == sig) = false := by
        rw [← Bool.not_eq_true]
        exact fun hany => hlast ⟨hge, hany⟩
      unfold entries
      simpa using hnone

/-- The state of the task of an event, and no other, changes. -/
lemma Event.ok_apply (hok : ∀ t, (a t).Ok) (hlegal : e.Legal max a) (u : Fin n) :
    (e.apply a u).Ok := by
  have hupdate : ∀ {t : Fin n} {p : Pending}, p.Ok → (update a t p u).Ok := by
    intro t p hp
    by_cases hu : u = t
    · subst hu
      rwa [update_self]
    · rw [update_of_ne hu]
      exact hok u
  cases e with
  | cancelled t sig => exact hupdate ((hok t).remove hlegal.1)
  | queued t x info =>
    obtain ⟨-, hpos, hle, hsigno, -, hnew⟩ := hlegal
    have hpush := (hok t).push (hsigno ▸ ⟨hpos, hle⟩) (hsigno ▸ hnew)
    rw [hsigno] at hpush
    exact hupdate hpush
  | unqueued t sig => exact hupdate ((hok t).add hlegal.1)
  | delivered t sig info =>
    obtain ⟨hpos, -, dst, e, hfind, -⟩ := hlegal
    exact hupdate ((hok t).take hpos hfind)
  | zeroed t sig => exact hupdate ((hok t).clear hlegal.1 (entries_eq_nil hlegal.2.2.2))
  | flushed t => exact hupdate Pending.ok_empty

/-- **Run rule.** What holds with no event and is kept by every legal event holds after any
sequence of events. -/
theorem Happens.invariant {P : Abs n → List (Event n) → Prop} (h : Happens max a es b)
    (hinit : P a []) (hstep : ∀ b es e, P b es → e.Legal max b → P (e.apply b) (es ++ [e])) :
    P b es := by
  unfold Happens at h
  generalize ([] : List Unit) = us at h
  induction h with
  | refl => exact hinit
  | tail _ hlegal hs ih =>
    cases hs
    exact hstep _ _ _ ih hlegal

def Abs.none (n : Nat) : Abs n := fun _ => ⟨[], sigemptyset⟩

lemma happens_ok (h : Happens max (Abs.none n) es b) (t : Fin n) : (b t).Ok := by
  refine h.invariant (P := fun b _ => ∀ t, (b t).Ok) (fun _ => Pending.ok_empty) ?_ t
  intro b es e hok hlegal
  exact Event.ok_apply hok hlegal

/-! ## The number of entries -/

lemma total_update (a : Abs n) (t : Fin n) (p : Pending) :
    Abs.total (update a t p) + (a t).queue.length = a.total + p.queue.length :=
  tally_update (w := fun p : Pending => p.queue.length)

/-- Only a send with queue space makes a queue longer. -/
lemma Event.total_le (htotal : a.total ≤ max) (hlegal : e.Legal max a) :
    (e.apply a).total ≤ max := by
  have hshorter : ∀ {t : Fin n} {p : Pending}, p.queue.length ≤ (a t).queue.length →
      Abs.total (update a t p) ≤ max := by
    intro t p hle
    have h := total_update a t p
    omega
  cases e with
  | cancelled t sig => exact hshorter (length_filter_le ..)
  | queued t x info =>
    have h := total_update a t ⟨(a t).queue ++ [info], sigaddset (a t).signal x.sig⟩
    have hlt := hlegal.1
    simp only [length_append, length_singleton] at h
    rw [Event.apply]
    omega
  | unqueued t sig => exact hshorter (Nat.le_refl _)
  | delivered t sig info => exact hshorter length_eraseP_le
  | zeroed t sig => exact hshorter (Nat.le_refl _)
  | flushed t => exact hshorter (Nat.zero_le _)

/-- The queue entries are never more than the limit. -/
lemma happens_total (h : Happens max (Abs.none n) es b) : b.total ≤ max := by
  refine h.invariant (P := fun b _ => b.total ≤ max) ?_ ?_
  · simp [Abs.none, Abs.total]
  · exact fun b es e => Event.total_le

/-! ## Order of delivery -/

/-- What was delivered and what is queued is what the sends queued. -/
def InOrder (t : Fin n) (sig : Nat) (b : Abs n) (es : List (Event n)) : Prop :=
  Forall₂ Info.Matches (deliveredInfos t sig es ++ entries sig (b t).queue) (accepted t sig es)

lemma InOrder.quiet {u : Fin n} (h : InOrder t sig b es) (he : e.apply b = update b u p)
    (hdelivered : deliveredInfos t sig (es ++ [e]) = deliveredInfos t sig es)
    (haccepted : accepted t sig (es ++ [e]) = accepted t sig es)
    (hentries : u = t → entries sig p.queue = entries sig (b u).queue) :
    InOrder t sig (e.apply b) (es ++ [e]) := by
  unfold InOrder
  rw [he, hdelivered, haccepted]
  by_cases hu : u = t
  · subst hu
    rw [update_self, hentries rfl]
    exact h
  · rw [update_of_ne (Ne.symm hu)]
    exact h

lemma forall₂_replace {α β : Type} {R : α → β → Prop} {l m : List α} {i j : α} {xs : List β}
    (h : Forall₂ R (l ++ i :: m) xs) (hij : ∀ x, R i x → R j x) :
    Forall₂ R (l ++ j :: m) xs := by
  induction l generalizing xs with
  | nil =>
    cases h with
    | cons hhead htail => exact .cons (hij _ hhead) htail
  | cons k l ih =>
    cases h with
    | cons hhead htail => exact .cons hhead (ih htail)

/-- **One event** keeps the order of a real-time signal. -/
lemma InOrder.step (hsig : sigrtmin ≤ sig) (h : InOrder t sig b es)
    (hlegal : e.Legal max b) : InOrder t sig (e.apply b) (es ++ [e]) := by
  cases e with
  | cancelled u sig' =>
    refine h.quiet rfl (by simp [deliveredInfos]) (by simp [accepted]) fun _ => entries_remove ?_
    have hlt := hlegal.2
    omega
  | queued u x info =>
    obtain ⟨-, -, -, hsigno, hmatches, -⟩ := hlegal
    by_cases hsame : u = t ∧ x.sig = sig
    · obtain ⟨rfl, rfl⟩ := hsame
      have hone : entries x.sig [info] = [info] := by simp [entries, hsigno]
      have hdelivered : deliveredInfos u x.sig (es ++ [.queued u x info]) =
          deliveredInfos u x.sig es := by simp [deliveredInfos]
      have haccepted : accepted u x.sig (es ++ [.queued u x info]) =
          accepted u x.sig es ++ [x] := by simp [accepted]
      unfold InOrder
      rw [Event.apply, update_self, entries_append, hone, hdelivered, haccepted, ← append_assoc]
      exact rel_append h (.cons hmatches .nil)
    · refine h.quiet rfl (by simp [deliveredInfos]) (by simp [accepted, hsame]) fun hu => ?_
      have hne : x.sig ≠ sig := fun hx => hsame ⟨hu, hx⟩
      have hnone : entries sig [info] = [] := by simp [entries, hsigno, hne]
      rw [entries_append, hnone, append_nil]
  | unqueued u sig' =>
    exact h.quiet rfl (by simp [deliveredInfos]) (by simp [accepted]) fun _ => rfl
  | delivered u sig' info =>
    obtain ⟨-, -, dst, e, hfind, rfl⟩ := hlegal
    by_cases hsame : u = t ∧ sig' = sig
    · obtain ⟨rfl, rfl⟩ := hsame
      have hdelivered : deliveredInfos u sig' (es ++ [.delivered u sig' (copySiginfo dst e)]) =
          deliveredInfos u sig' es ++ [copySiginfo dst e] := by simp [deliveredInfos]
      have haccepted : accepted u sig' (es ++ [.delivered u sig' (copySiginfo dst e)]) =
          accepted u sig' es := by simp [accepted]
      have hsplit := entries_of_find? hfind
      unfold InOrder at h ⊢
      rw [hsplit] at h
      rw [Event.apply, update_self, hdelivered, haccepted, append_assoc]
      -- the entry moves from the queue to the deliveries, as a copy
      exact forall₂_replace h fun _ hmatches => hmatches.copy dst
    · exact h.quiet rfl (by simp [deliveredInfos, hsame]) (by simp [accepted]) fun hu =>
        entries_eraseP_of_ne fun hx => hsame ⟨hu, hx.symm⟩
  | zeroed u sig' =>
    exact h.quiet rfl (by simp [deliveredInfos]) (by simp [accepted]) fun _ => rfl
  | flushed u =>
    by_cases hu : u = t
    · subst hu
      unfold InOrder
      rw [Event.apply]
      simp [deliveredInfos, accepted, entries]
    · exact h.quiet rfl (by simp [deliveredInfos, hu]) (by simp [accepted, hu]) fun heq => absurd heq hu

/-- A real-time signal is delivered in the order in which it was sent. -/
lemma happens_inOrder (h : Happens max (Abs.none n) es b) (hsig : sigrtmin ≤ sig) :
    InOrder t sig b es := by
  refine h.invariant (P := fun b es => InOrder t sig b es) ?_ ?_
  · exact Forall₂.nil
  · exact fun b es e h hlegal => h.step hsig hlegal

/-! ## Zeroed information -/

/-- The bit is set and there is no entry: one send without queue space has not been delivered. -/
def bare (sig : Nat) (p : Pending) : Nat :=
  if sigismember p.signal sig ∧ entries sig p.queue = [] then 1 else 0

/-- Every delivery of zeroed information stands for a send without queue space. -/
def ZeroedOk (t : Fin n) (sig : Nat) (b : Abs n) (es : List (Event n)) : Prop :=
  zeroedCount t sig es + bare sig (b t) ≤ unqueuedCount t sig es

lemma ZeroedOk.quiet {u : Fin n} (h : ZeroedOk t sig b es) (he : e.apply b = update b u p)
    (hzeroed : zeroedCount t sig (es ++ [e]) = zeroedCount t sig es)
    (hunqueued : unqueuedCount t sig es ≤ unqueuedCount t sig (es ++ [e]))
    (hbare : u = t → bare sig p ≤ bare sig (b u)) : ZeroedOk t sig (e.apply b) (es ++ [e]) := by
  unfold ZeroedOk at h ⊢
  rw [he]
  by_cases hu : u = t
  · subst hu
    rw [update_self]
    omega
  · rw [update_of_ne (Ne.symm hu)]
    omega

lemma bare_le_one : bare sig p ≤ 1 := by
  unfold bare
  split <;> omega

/-- A signal whose bit is not set by an event does not become bare if its entries stay or the bit
goes. -/
lemma bare_le {q : Pending} (h : sigismember q.signal sig → entries sig q.queue = [] →
      sigismember p.signal sig ∧ entries sig p.queue = []) : bare sig q ≤ bare sig p := by
  unfold bare
  split
  case isTrue hq => rw [if_pos (h hq.1 hq.2)]
  case isFalse => exact Nat.zero_le _

lemma bare_del {sig' : Nat} {queue : List Info} (hsig : 1 ≤ sig) (hsig' : 1 ≤ sig')
    (hentries : sig ≠ sig' → entries sig queue = entries sig p.queue) :
    bare sig ⟨queue, sigdelset p.signal sig'⟩ ≤ bare sig p := by
  refine bare_le fun hbit hnone => ?_
  rw [sigismember_del hsig' hsig, Bool.and_eq_true, decide_eq_true_eq] at hbit
  exact ⟨hbit.1, (hentries hbit.2).symm.trans hnone⟩

/-- **One event** keeps the count of the deliveries without information. -/
lemma ZeroedOk.step (hsig : 1 ≤ sig) (h : ZeroedOk t sig b es)
    (hlegal : e.Legal max b) : ZeroedOk t sig (e.apply b) (es ++ [e]) := by
  cases e with
  | cancelled u sig' =>
    exact h.quiet rfl (by simp [zeroedCount]) (by simp [unqueuedCount]) fun _ =>
      bare_del hsig hlegal.1 entries_remove
  | queued u x info =>
    obtain ⟨-, hpos, -, hsigno, -, -⟩ := hlegal
    refine h.quiet rfl (by simp [zeroedCount]) (by simp [unqueuedCount]) fun _ =>
      bare_le fun hbit hnone => ?_
    rw [entries_append, append_eq_nil_iff] at hnone
    have hne : sig ≠ x.sig := by
      rintro rfl
      simp [entries, hsigno] at hnone
    rw [sigismember_add hpos hsig, decide_eq_false hne, Bool.or_false] at hbit
    exact ⟨hbit, hnone.1⟩
  | unqueued u sig' =>
    by_cases hsame : u = t ∧ sig' = sig
    · have hzeroed : zeroedCount t sig (es ++ [.unqueued u sig']) = zeroedCount t sig es := by
        simp [zeroedCount]
      have hunqueued : unqueuedCount t sig (es ++ [.unqueued u sig']) =
          unqueuedCount t sig es + 1 := by simp [unqueuedCount, hsame]
      have hone := @bare_le_one sig (Event.apply b (.unqueued u sig') t)
      unfold ZeroedOk at h ⊢
      omega
    · refine h.quiet rfl (by simp [zeroedCount]) (by simp [unqueuedCount]) fun hu =>
        bare_le fun hbit hnone => ⟨?_, hnone⟩
      have hne : sig ≠ sig' := fun hx => hsame ⟨hu, hx.symm⟩
      rwa [sigismember_add hlegal.1 hsig, decide_eq_false hne, Bool.or_false] at hbit
  | delivered u sig' info =>
    refine h.quiet rfl (by simp [zeroedCount]) (by simp [unqueuedCount]) fun _ => ?_
    unfold Pending.take
    dsimp only
    split
    case isTrue hmore =>
      refine bare_le fun hbit hnone => ⟨hbit, ?_⟩
      by_cases hne : sig = sig'
      · -- the signal has another entry
        subst hne
        have hany := hmore.2
        rw [any_eq_true] at hany
        obtain ⟨i, hi, hpass⟩ := hany
        have hmem : i ∈ entries sig _ := mem_filter.2 ⟨hi, hpass⟩
        rw [hnone] at hmem
        cases hmem
      · exact (entries_eraseP_of_ne hne).symm.trans hnone
    case isFalse => exact bare_del hsig hlegal.1 entries_eraseP_of_ne
  | zeroed u sig' =>
    by_cases hsame : u = t ∧ sig' = sig
    · obtain ⟨rfl, rfl⟩ := hsame
      have hzeroed : zeroedCount u sig' (es ++ [.zeroed u sig']) = zeroedCount u sig' es + 1 := by
        simp [zeroedCount]
      have hunqueued : unqueuedCount u sig' (es ++ [.zeroed u sig']) =
          unqueuedCount u sig' es := by simp [unqueuedCount]
      have hbefore : bare sig' (b u) = 1 := if_pos ⟨hlegal.2.2.1, entries_eq_nil hlegal.2.2.2⟩
      have hafter : bare sig' (Event.apply b (.zeroed u sig') u) = 0 := by
        rw [Event.apply, update_self]
        refine if_neg fun hbit => ?_
        rw [sigismember_del hsig hsig] at hbit
        simp at hbit
      unfold ZeroedOk at h ⊢
      omega
    · exact h.quiet rfl (by simp [zeroedCount, hsame]) (by simp [unqueuedCount]) fun _ =>
        bare_del hsig hlegal.1 fun _ => rfl
  | flushed u =>
    refine h.quiet rfl (by simp [zeroedCount]) (by simp [unqueuedCount]) fun _ => bare_le fun hbit _ => ?_
    simp at hbit

lemma happens_zeroed (h : Happens max (Abs.none n) es b) (hsig : 1 ≤ sig) :
    zeroedCount t sig es ≤ unqueuedCount t sig es := by
  have hall := h.invariant (P := fun b es => ZeroedOk t sig b es) ?_ ?_
  · exact Nat.le_of_add_right_le hall
  · simp [ZeroedOk, zeroedCount, bare, Abs.none]
  · exact fun b es e h hlegal => h.step hsig hlegal

/-! ## Runs of the calls -/

/-- No signal is pending and no entry is queued. -/
structure Sys.Idle (s : Sys n) : Prop where
  pending : ∀ t, (s.tasks t).pending = .empty
  signal : ∀ t, (s.tasks t).signal = sigemptyset
  none : s.nrQueuedSignals = 0

lemma Sys.Idle.refines (h : s.Idle) : s.Refines (Abs.none n) := by
  refine ⟨fun _ => [], ⟨?_, by simp, by simp, ?_⟩, ?_⟩
  · intro t
    rw [h.pending t]
    exact TailQueue.isQueue_empty
  · rw [h.none]
    simp
  · funext t
    simp [Sys.abs, Abs.none, h.signal t]

/-- **Refinement of runs.** The lists implement what the events of a run lead to. -/
theorem run_refines {s₀ : Sys n} (h₀ : s₀.Idle)
    (hrun : Exec (step max) (fun s act => act.Enabled s) s₀ acts es s) :
    ∃ a, Happens max (Abs.none n) es a ∧ s.Refines a := by
  refine hrun.invariant (P := fun s es => ∃ a, Happens max (Abs.none n) es a ∧ s.Refines a)
    ⟨_, .nil _, h₀.refines⟩ ?_
  rintro s es act s' fs ⟨a, hev, hs⟩ hok hstep
  obtain ⟨s₁, es₁, a₁, hrun₁, hev₁, h₁⟩ := @step_simulates n max s a hs act hok
  obtain ⟨rfl, rfl⟩ := Prod.mk.inj (Option.some.inj (hstep.symm.trans hrun₁))
  exact ⟨a₁, hev.trans hev₁, h₁⟩

/-- One task without pending signals that handles every signal. -/
def idleTask : Sys 1 where
  tasks := fun _ => ⟨.empty, sigemptyset, false, true, ⟨fun _ => 2, sigemptyset, false⟩⟩
  next := fun _ => none
  info := fun _ => ⟨0, 0, 0, fun _ => 0⟩
  live := fun _ => false
  nrQueuedSignals := 0

lemma idleTask_idle : idleTask.Idle := ⟨fun _ => rfl, fun _ => rfl, rfl⟩

end PsxLinux.Signal
