import PsxLinux.Lib.Tally
import PsxLinux.Signal.Pending
import Mathlib.Algebra.BigOperators.Fin
import Mathlib.Data.BitVec

/-!
# Pending signals as lists

The abstract state of a task is a list of `siginfo` and a set of signals, and what happens to it are
the events. `Sys.Refines` relates the linked lists to it: the lists of different tasks share no entry,
and `nr_queued_signals` is their total length. Every function refines the events it emits, and its
list walks end.
-/

namespace PsxLinux.Signal

open Lib Function List TailQueue

/-! ## Signal sets -/

section Sigset
variable {set mask : Sigset} {sig sig' : Nat}
variable {task : Task} {es : List (Event n)}

@[simp] lemma sigismember_empty : sigismember sigemptyset sig = false := by
  simp [sigismember, sigemptyset]

/-- A word is written in which only the bit of one signal differs. -/
lemma sigismember_update {word : BitVec 32} (h : 1 ≤ sig) (h' : 1 ≤ sig')
    (hword : ∀ k, k < 32 → k ≠ (sig - 1) % 32 → word.getLsbD k = (set ((sig - 1) / 32)).getLsbD k) :
    sigismember (update set ((sig - 1) / 32) word) sig' =
      if sig' = sig then word.getLsbD ((sig - 1) % 32) else sigismember set sig' := by
  unfold sigismember
  by_cases hsame : (sig' - 1) / 32 = (sig - 1) / 32
  · rw [hsame, update_self]
    split_ifs with hsig
    · rw [hsig]
    · exact hword _ (by omega) (by omega)
  · have hne : sig' ≠ sig := fun h => hsame (by rw [h])
    rw [update_of_ne hsame, if_neg hne]

lemma sigismember_add (h : 1 ≤ sig) (h' : 1 ≤ sig') :
    sigismember (sigaddset set sig) sig' = (sigismember set sig' || decide (sig' = sig)) := by
  have hbit : (sig - 1) % 32 < 32 := Nat.mod_lt _ (by decide)
  rw [sigaddset, sigismember_update h h' fun k _ hne => by simp [hne.symm]]
  by_cases hsig : sig' = sig <;> simp [hsig, hbit]

lemma sigismember_del (h : 1 ≤ sig) (h' : 1 ≤ sig') :
    sigismember (sigdelset set sig) sig' = (sigismember set sig' && decide (sig' ≠ sig)) := by
  have hbit : (sig - 1) % 32 < 32 := Nat.mod_lt _ (by decide)
  rw [sigdelset, sigismember_update h h' fun k hk hne => by simp [hk, hne]]
  by_cases hsig : sig' = sig <;> simp [hsig, hbit]

/-- A signal is pending and not in the mask. -/
def Ready (set mask : Sigset) (sig : Nat) : Prop :=
  1 ≤ sig ∧ sig ≤ nsig ∧ sigismember set sig ∧ sigismember mask sig = false

lemma getLsbD_ready {i k : Nat} (hk : k < 32) :
    (set i &&& ~~~mask i).getLsbD k ↔
      sigismember set (i * 32 + k + 1) ∧ sigismember mask (i * 32 + k + 1) = false := by
  have hword : (i * 32 + k + 1 - 1) / 32 = i := by omega
  have hbit : (i * 32 + k + 1 - 1) % 32 = k := by omega
  unfold sigismember
  rw [hword, hbit]
  simp [hk]

/-- In a word that is not empty, `ffz` of the complement finds the lowest bit. -/
lemma ffz_not {x : BitVec 32} (hx : x ≠ 0) :
    ffz (~~~x) < 32 ∧ x.getLsbD (ffz (~~~x)) ∧
      ∀ k, k < ffz (~~~x) → x.getLsbD k = false := by
  have hset : ∀ k, k < ffz (~~~x) → k < 32 → x.getLsbD k = false := by
    intro k hk hk32
    have h := Bitmap.firstZero_set (Nat.zero_le k) hk
    simpa [hk32] using h
  have hlt : ffz (~~~x) < 32 := by
    by_contra hge
    apply hx
    apply BitVec.eq_of_getLsbD_eq
    intro k hk
    rw [hset k (by omega) hk]
    simp
  refine ⟨hlt, ?_, fun k hk => hset k hk (by omega)⟩
  have hclear : (~~~x).getLsbD (ffz (~~~x)) = false :=
    Bitmap.firstZero_clear (lt_of_lt_of_eq hlt (Nat.zero_add 32).symm)
  simpa [hlt] using hclear

/-- The loop over the words finds the lowest signal that is ready. -/
lemma nextSignalFrom_spec {n i : Nat} (hi : i + n = 4)
    (hbefore : ∀ sig, sig ≤ i * 32 → ¬ Ready set mask sig) :
    nextSignalFrom set mask n i = 0 ∧ (∀ sig, ¬ Ready set mask sig) ∨
    Ready set mask (nextSignalFrom set mask n i) ∧
      ∀ sig, sig < nextSignalFrom set mask n i → ¬ Ready set mask sig := by
  induction n generalizing i with
  | zero =>
    refine .inl ⟨rfl, fun sig hready => hbefore sig ?_ hready⟩
    have hle := hready.2.1
    unfold nsig at hle
    omega
  | succ n ih =>
    unfold nextSignalFrom
    by_cases hx : set i &&& ~~~mask i = 0
    · rw [if_neg (by simpa using hx)]
      refine ih (by omega) fun sig hsig => ?_
      by_cases hlow : sig ≤ i * 32
      · exact hbefore sig hlow
      · obtain ⟨k, hk⟩ : ∃ k, sig = i * 32 + k + 1 := ⟨sig - i * 32 - 1, by omega⟩
        rw [hk]
        -- a word without a ready signal is 0
        have hk : k < 32 := by omega
        intro hready
        have h := getLsbD_ready hk |>.2 hready.2.2
        rw [hx] at h
        simp at h
    · rw [if_pos hx]
      obtain ⟨hlt, hbit, hlow⟩ := ffz_not hx
      have hnum : ffz (~~~(set i &&& ~~~mask i)) + i * 32 + 1 =
          i * 32 + ffz (~~~(set i &&& ~~~mask i)) + 1 := by omega
      refine .inr ⟨?_, ?_⟩
      · rw [hnum]
        refine ⟨by omega, ?_, (getLsbD_ready hlt).1 hbit⟩
        unfold nsig
        omega
      · intro sig hsig hready
        by_cases hle : sig ≤ i * 32
        · exact hbefore sig hle hready
        · obtain ⟨k, rfl⟩ : ∃ k, sig = i * 32 + k + 1 := ⟨sig - i * 32 - 1, by omega⟩
          have hk : k < ffz (~~~(set i &&& ~~~mask i)) := by omega
          have hset := (getLsbD_ready (by omega)).2 hready.2.2
          rw [hlow k hk] at hset
          cases hset

/-- `next_signal` returns the lowest signal that is ready, and 0 only if there is none. -/
lemma nextSignal_spec :
    nextSignal set mask = 0 ∧ (∀ sig, ¬ Ready set mask sig) ∨
    Ready set mask (nextSignal set mask) ∧
      ∀ sig, sig < nextSignal set mask → ¬ Ready set mask sig := by
  refine nextSignalFrom_spec rfl fun sig hsig hready => ?_
  have hpos := hready.1
  omega

end Sigset

/-! ## Information -/

/-- The information is that of the send, in every word that means something. -/
def Info.Matches (i : Info) (x : Send) : Prop :=
  match x.info with
  | .user => i.signo = x.sig ∧ i.errno = 0 ∧ i.code = siUser ∧ i.sifields 0 = x.pid ∧
      i.sifields 1 = x.uid
  | .kernel => i.signo = x.sig ∧ i.errno = 0 ∧ i.code = siKernel ∧ i.sifields 0 = 0 ∧
      i.sifields 1 = 0
  | .info j => i.signo = j.signo ∧ i.errno = j.errno ∧ i.code = j.code ∧
      ∀ k, k < knownFields j.code → i.sifields k = j.sifields k

lemma Send.fill_matches (x : Send) (old : Info) : (x.fill old).Matches x := by
  obtain ⟨sig, info, pid, uid⟩ := x
  cases info with
  | user => exact ⟨rfl, rfl, rfl, rfl, rfl⟩
  | kernel => exact ⟨rfl, rfl, rfl, rfl, rfl⟩
  | info i => exact ⟨rfl, rfl, rfl, fun k hk => if_pos hk⟩

lemma Info.Matches.copy {i : Info} {x : Send} (h : i.Matches x) (dst : Info) :
    (copySiginfo dst i).Matches x := by
  have hfew : ∀ k, k < 2 → k < knownFields i.code := by
    intro k hk
    unfold knownFields
    split <;> omega
  unfold Info.Matches at h ⊢
  split
  case h_1 hx | h_2 hx =>
    rw [hx] at h
    obtain ⟨hsig, herrno, hcode, hpid, huid⟩ := h
    exact ⟨hsig, herrno, hcode, (if_pos (hfew 0 (by decide))).trans hpid,
      (if_pos (hfew 1 (by decide))).trans huid⟩
  case h_3 j hx =>
    rw [hx] at h
    obtain ⟨hsig, herrno, hcode, hfields⟩ := h
    refine ⟨hsig, herrno, hcode, fun k hk => ?_⟩
    rw [← hfields k hk]
    exact if_pos (hcode ▸ hk)

/-! ## The abstract state -/

/-- The pending signals of a task. -/
structure Pending where
  queue : List Info
  signal : Sigset

abbrev Abs (n : Nat) := Fin n → Pending

section Events
variable {n : Nat}

def Abs.total (a : Abs n) : Nat := ∑ t, (a t).queue.length

/-- A signal is taken out with all its entries. -/
def Pending.remove (p : Pending) (sig : Nat) : Pending :=
  ⟨p.queue.filter fun i => !(i.signo == sig), sigdelset p.signal sig⟩

/-- The first entry of a signal is taken out. The bit stays for a real-time signal that has
another. -/
def Pending.take (p : Pending) (sig : Nat) : Pending :=
  let rest := p.queue.eraseP fun i => i.signo == sig
  ⟨rest, if sigrtmin ≤ sig ∧ (rest.any fun i => i.signo == sig) then p.signal
    else sigdelset p.signal sig⟩

/-- What an event does. -/
def Event.apply (a : Abs n) : Event n → Abs n
  | .cancelled t sig => update a t ((a t).remove sig)
  | .queued t x info =>
    update a t ⟨(a t).queue ++ [info], sigaddset (a t).signal x.sig⟩
  | .unqueued t sig => update a t ⟨(a t).queue, sigaddset (a t).signal sig⟩
  | .delivered t sig _ => update a t ((a t).take sig)
  | .zeroed t sig => update a t ⟨(a t).queue, sigdelset (a t).signal sig⟩
  | .flushed t => update a t ⟨[], sigemptyset⟩

/-- When an event may happen. -/
def Event.Legal (max : Nat) (a : Abs n) : Event n → Prop
  | .cancelled _ sig => 1 ≤ sig ∧ sig < sigrtmin
  | .queued t x info => a.total < max ∧ 1 ≤ x.sig ∧ x.sig ≤ nsig ∧ info.signo = x.sig ∧
      info.Matches x ∧ (x.sig < sigrtmin → sigismember (a t).signal x.sig = false)
  | .unqueued t sig => 1 ≤ sig ∧ sig ≤ nsig ∧
      (sig < sigrtmin → sigismember (a t).signal sig = false)
  | .delivered t sig info => 1 ≤ sig ∧ sig ≤ nsig ∧ ∃ dst e,
      (a t).queue.find? (fun i => i.signo == sig) = some e ∧ info = copySiginfo dst e
  | .zeroed t sig => 1 ≤ sig ∧ sig ≤ nsig ∧ sigismember (a t).signal sig ∧
      (a t).queue.find? (fun i => i.signo == sig) = none
  | .flushed _ => True

def eventStep (a : Abs n) (e : Event n) : Option (Abs n × List Unit) := some (e.apply a, [])

/-- The events lead from one abstract state to another. -/
def Happens (max : Nat) (a : Abs n) (es : List (Event n)) (b : Abs n) : Prop :=
  Exec eventStep (Event.Legal max) a es [] b

lemma Happens.nil {max : Nat} (a : Abs n) : Happens max a [] a := .refl a

lemma Happens.single {max : Nat} {a : Abs n} {e : Event n} (h : e.Legal max a) :
    Happens max a [e] (e.apply a) := Exec.single h rfl

lemma Happens.trans {max : Nat} {a b c : Abs n} {fs : List (Event n)}
    (h₁ : Happens max a es b) (h₂ : Happens max b fs c) : Happens max a (es ++ fs) c :=
  Exec.trans h₁ h₂

end Events

/-! ## Refinement -/

namespace Sys

variable {n max : Nat} {s s' : Sys n} {l : Fin n → List Nat} {t : Fin n} {a : Abs n}

/-- The queues of the tasks are these lists of entries. -/
structure Repr (s : Sys n) (l : Fin n → List Nat) : Prop where
  queue : ∀ t, TailQueue.IsQueue s.next (s.tasks t).pending (l t)
  disjoint : ∀ t u, t ≠ u → ∀ q ∈ l t, q ∉ l u
  live : ∀ t, ∀ q ∈ l t, s.live q
  total : s.nrQueuedSignals = ∑ t, ((l t).length : Int)

/-- The abstract state of some lists. -/
def abs (s : Sys n) (l : Fin n → List Nat) : Abs n :=
  fun t => ⟨(l t).map s.info, (s.tasks t).signal⟩

/-- The linked lists implement the abstract state. -/
def Refines (s : Sys n) (a : Abs n) : Prop := ∃ l, s.Repr l ∧ a = s.abs l

/-- A call ends, and its events lead from the abstract state to one that its result implements. -/
def Simulates (max : Nat) (a : Abs n) (r : Option (Sys n × List (Event n))) : Prop :=
  ∃ s es a', r = some (s, es) ∧ Happens max a es a' ∧ s.Refines a'

/-- The fuel is enough for the queue of every task. -/
lemma Repr.length_lt (h : s.Repr l) : (l t).length < s.fuel := by
  have hle : ((l t).length : Int) ≤ s.nrQueuedSignals := by
    rw [h.total]
    exact Finset.single_le_sum (fun u _ => Int.natCast_nonneg _) (Finset.mem_univ t)
  unfold fuel
  omega

lemma Repr.total_abs (h : s.Repr l) : s.nrQueuedSignals = ((s.abs l).total : Int) := by
  rw [h.total]
  simp [Abs.total, abs]

/-- One task gets other bits and another queue, made of its own entries and of entries that were
not allocated. -/
lemma Repr.refines (h : s.Repr l) {l' : List Nat} (htasks : s'.tasks = update s.tasks t task)
    (hqueue : TailQueue.IsQueue s'.next task.pending l')
    (hcells : ∀ q ∈ l', q ∈ l t ∨ s.live q = false)
    (hnext : ∀ q, q ∉ l t → s.live q → s'.next q = s.next q)
    (hinfo : ∀ q, s.live q → s'.info q = s.info q)
    (hlive : ∀ q, q ∈ l' ∨ q ∉ l t ∧ s.live q → s'.live q)
    (hnr : s'.nrQueuedSignals + (l t).length = s.nrQueuedSignals + l'.length)
    (ha : a = update (s.abs l) t ⟨l'.map s'.info, task.signal⟩) : s'.Refines a := by
  have hother : ∀ u, u ≠ t → ∀ q ∈ l u, q ∉ l t ∧ s.live q :=
    fun u hu q hq => ⟨h.disjoint u t hu q hq, h.live u q hq⟩
  have hnew : ∀ u, u ≠ t → ∀ q ∈ l', q ∉ l u := by
    intro u hu q hq hqu
    obtain ⟨hqt, hql⟩ := hother u hu q hqu
    rcases hcells q hq with hmem | hdead
    · exact hqt hmem
    · rw [hql] at hdead
      cases hdead
  refine ⟨update l t l', ⟨?_, ?_, ?_, ?_⟩, ?_⟩
  · refine (forall_update_iff l fun u lu => TailQueue.IsQueue _ (s'.tasks u).pending lu).2
      ⟨?_, fun u hu => ?_⟩
    · rw [htasks, update_self]
      exact hqueue
    · rw [htasks, update_of_ne hu]
      exact (h.queue u).congr fun q hq => hnext q (hother u hu q hq).1 (hother u hu q hq).2
  · refine (forall_update_iff l fun u lu => ∀ v, u ≠ v → ∀ q ∈ lu, q ∉ update l t l' v).2
      ⟨fun v hv q hq => ?_, fun u hu => ?_⟩
    · rw [update_of_ne hv.symm]
      exact hnew v hv.symm q hq
    · refine (forall_update_iff l fun v lv => u ≠ v → ∀ q ∈ l u, q ∉ lv).2
        ⟨fun _ q hqu hq => hnew u hu q hq hqu, fun v _ => h.disjoint u v⟩
  · refine (forall_update_iff l fun _ lu => ∀ q ∈ lu, s'.live q).2
      ⟨fun q hq => hlive q (.inl hq), fun u hu q hq => hlive q (.inr (hother u hu q hq))⟩
  · have hsum := tally_update (w := fun q : List Nat => (q.length : Int)) (f := l) (i := t) (v := l')
    have htotal := h.total
    simp only [tally] at hsum
    omega
  · rw [ha]
    funext u
    by_cases hu : u = t
    · subst hu
      simp [abs, htasks]
    · have hmap : (l u).map s'.info = (l u).map s.info :=
        map_congr_left fun q hq => hinfo q (h.live u q hq)
      simp [abs, htasks, update_of_ne hu, hmap]

lemma Repr.setTask (h : s.Repr l) (hqueue : task.pending = (s.tasks t).pending) :
    (s.setTask t task).Refines (update (s.abs l) t ⟨(s.abs l t).queue, task.signal⟩) := by
  refine h.refines rfl (hqueue ▸ h.queue t) (fun q hq => .inl hq) (fun _ _ _ => rfl)
    (fun _ _ => rfl) ?_ rfl rfl
  rintro q (hq | hq)
  · exact h.live t q hq
  · exact hq.2

lemma Refines.setTask (h : s.Refines a)
    (hqueue : task.pending = (s.tasks t).pending) (hsignal : task.signal = (s.tasks t).signal) :
    (s.setTask t task).Refines a := by
  obtain ⟨l, hl, rfl⟩ := h
  have hsame : update (s.abs l) t ⟨(s.abs l t).queue, task.signal⟩ = s.abs l := by
    rw [hsignal]
    exact update_eq_self t (s.abs l)
  exact hsame ▸ hl.setTask hqueue

/-! ## The functions -/

lemma free_live {cells : List Nat} {q : Nat} (hlive : s.live q) (hq : q ∉ cells) :
    (s.free cells).live q := by
  simp [free, hlive, hq]

/-- `flush_signals` and `exit_sighand` differ in the flags they clear first. -/
lemma flushSigqueue_simulates (h : s.Refines a) (hqueue : task.pending = (s.tasks t).pending)
    (hsignal : task.signal = (s.tasks t).signal) :
    Simulates max a (((s.setTask t task).flushSigqueue t).map fun s' => (s', [.flushed t])) := by
  obtain ⟨l, hl, rfl⟩ := h.setTask hqueue hsignal
  have hwalk := walk_eq (hl.queue t).chain (hl.length_lt)
  unfold flushSigqueue
  dsimp only
  rw [hwalk]
  refine ⟨_, _, _, rfl, .single trivial, hl.refines rfl isQueue_empty (by simp)
    (fun _ _ _ => rfl) (fun _ _ => rfl) ?_ (by simp [free, Sys.setTask]) rfl⟩
  rintro q (hq | ⟨hq, hlive⟩)
  · simp at hq
  · exact free_live hlive hq

/-- `rm_from_queue` removes a signal and its entries. -/
lemma rmFromQueue_simulates (h : s.Refines a) {sig : Nat} (hsig : 1 ≤ sig ∧ sig < sigrtmin) :
    Simulates max a (s.rmFromQueue t sig) := by
  obtain ⟨l, hl, rfl⟩ := h
  unfold rmFromQueue
  dsimp only
  split
  case isFalse => exact ⟨s, [], s.abs l, rfl, .nil _, l, hl, rfl⟩
  case isTrue =>
    have hwhole : TailQueue.IsQueue s.next (s.tasks t).pending ([] ++ l t) := hl.queue t
    obtain ⟨next, q, hrun, hq, hframe⟩ := hwhole.removeAll hl.length_lt (hl.queue t).chain
    have hrun' : removeAll (fun q => (s.info q).signo == sig) s.fuel s.next
        (s.tasks t).pending .head (s.tasks t).pending.head = _ := hrun
    rw [hrun']
    refine ⟨_, _, _, rfl, .single hsig, hl.refines rfl hq (fun q hq => .inl (mem_of_mem_filter hq))
      (fun q hq _ => hframe q hq) (fun _ _ => rfl) ?_ ?_ ?_⟩
    · rintro q (hq | ⟨hq, hlive⟩)
      · refine free_live (hl.live t q (mem_of_mem_filter hq)) fun hmem => ?_
        have hpass := (mem_filter.1 hmem).2
        have hfail := (mem_filter.1 hq).2
        simp [hpass] at hfail
      · exact free_live hlive fun hmem => hq (mem_of_mem_filter hmem)
    · have hlen := length_eq_length_filter_add (l := l t) fun q => (s.info q).signo == sig
      simp only [free, Sys.setTask, nil_append]
      omega
    · unfold Event.apply Pending.remove abs
      dsimp only
      rw [filter_map]
      rfl

lemma rmSignals_simulates (h : s.Refines a) {sigs : List Nat}
    (hsigs : ∀ sig ∈ sigs, 1 ≤ sig ∧ sig < sigrtmin) :
    Simulates max a (s.rmSignals t sigs) := by
  induction sigs generalizing s a with
  | nil => exact ⟨s, [], a, rfl, .nil _, h⟩
  | cons sig sigs ih =>
    obtain ⟨s₁, es₁, a₁, hrun₁, hev₁, h₁⟩ :=
      @rmFromQueue_simulates n max s t a h sig (hsigs sig (by simp))
    obtain ⟨s₂, es₂, a₂, hrun₂, hev₂, h₂⟩ := ih h₁ fun sig' hsig' => hsigs sig' (by simp [hsig'])
    refine ⟨s₂, es₁ ++ es₂, a₂, ?_, hev₁.trans hev₂, h₂⟩
    simp [rmSignals, hrun₁, hrun₂]

lemma cancels_lt {sig c : Nat} (h : c ∈ cancels sig) : 1 ≤ c ∧ c < sigrtmin := by
  unfold cancels at h
  unfold sigrtmin
  split_ifs at h
  · simp at h
    omega
  · simp at h
    omega
  · cases h

section Send
variable {x : Send} {alloc : Option Nat} (hsig : 1 ≤ x.sig ∧ x.sig ≤ nsig)
  (halloc : ∀ q, alloc = some q → s.live q = false)
  (hinfo : ∀ i, x.info = .info i → i.signo = x.sig)
  (hnew : x.sig < sigrtmin → sigismember (s.tasks t).signal x.sig = false)
include hsig halloc hinfo hnew

/-- A send queues an entry, sets the bit alone, or fails. -/
lemma sendSignal_simulates (h : s.Refines a) :
    ∃ s' ret es a', s.sendSignal max t x alloc = (s', ret, es) ∧ Happens max a es a' ∧
      s'.Refines a' := by
  obtain ⟨l, hl, rfl⟩ := h
  unfold sendSignal
  split
  case h_1 q hq =>
    split_ifs at hq with hmax
    have hdead : s.live q = false := halloc q hq
    have hne : ∀ r, s.live r → r ≠ q := by
      rintro r hlive rfl
      rw [hdead] at hlive
      cases hlive
    have happend := (hl.queue t).append fun hmem => hne q (hl.live t q hmem) rfl
    have hsigno : (x.fill (s.info q)).signo = x.sig := by
      unfold Send.fill
      split
      · rfl
      · rfl
      · rename_i i hi
        exact hinfo i hi
    have hlegal : (Event.queued t x (x.fill (s.info q))).Legal max (s.abs l) := by
      refine ⟨?_, hsig.1, hsig.2, hsigno, x.fill_matches _, hnew⟩
      have htotal := hl.total_abs
      omega
    refine ⟨_, _, _, _, rfl, .single hlegal, hl.refines rfl happend ?_
      (fun r hr hlive => append_next_of_not_mem (hl.queue t) hr (hne r hlive))
      (fun r hlive => update_of_ne (hne r hlive) _ _) ?_ ?_ ?_⟩
    · intro r hr
      rcases mem_append.1 hr with hr | hr
      · exact .inl hr
      · rw [mem_singleton.1 hr]
        exact .inr hdead
    · intro r hr
      by_cases hrq : r = q
      · subst hrq
        simp [Sys.setTask]
      · have hlive : s.live r := by
          rcases hr with hr | hr
          · exact hl.live t r (by simpa [hrq] using hr)
          · exact hr.2
        simpa [Sys.setTask, hrq] using hlive
    · simp only [Sys.setTask, length_append, length_singleton]
      omega
    · have hmap : (l t).map (update s.info q (x.fill (s.info q))) = (l t).map s.info :=
        map_congr_left fun r hr => update_of_ne (hne r (hl.live t r hr)) _ _
      simp only [Sys.setTask, map_append, hmap, map_cons, update_self]
      rfl
  case h_2 =>
    split
    case isTrue => exact ⟨s, _, [], s.abs l, rfl, .nil _, l, hl, rfl⟩
    case isFalse => exact ⟨_, _, _, _, rfl, .single ⟨hsig.1, hsig.2, hnew⟩, hl.setTask rfl⟩

lemma deliverSignal_simulates (h : s.Refines a) :
    ∃ s' ret es a', s.deliverSignal max t x alloc = (s', ret, es) ∧ Happens max a es a' ∧
      s'.Refines a' := by
  obtain ⟨s', ret, es, a', hrun, hev, h'⟩ :=
    @sendSignal_simulates n max s t a x alloc hsig halloc hinfo hnew h
  unfold deliverSignal
  rw [hrun]
  dsimp only
  split
  · exact ⟨_, ret, es, a', rfl, hev, h'.setTask rfl rfl⟩
  · exact ⟨s', ret, es, a', rfl, hev, h'⟩

end Send

/-- Entries that a walk removes are not allocated any more, and no other becomes allocated. -/
lemma live_of_rmSignals {sigs : List Nat} {q : Nat}
    (h : s.rmSignals t sigs = some (s', es)) (hq : s.live q = false) : s'.live q = false := by
  induction sigs generalizing s es with
  | nil =>
    cases h
    exact hq
  | cons sig sigs ih =>
    unfold rmSignals at h
    split at h
    · cases h
    · rename_i s₁ es₁ hrun
      obtain ⟨⟨s₂, es₂⟩, hrest, hpair⟩ := Option.map_eq_some_iff.1 h
      cases hpair
      refine ih hrest ?_
      unfold rmFromQueue at hrun
      dsimp only at hrun
      split at hrun
      · obtain ⟨r, -, hr⟩ := Option.map_eq_some_iff.1 hrun
        cases hr
        simp [free, Sys.setTask, hq]
      · cases hrun
        exact hq

lemma sendSigInfo_simulates (h : s.Refines a) {x : Send} {alloc : Option Nat} {bad : Bool}
    (hsig : 1 ≤ x.sig) (halloc : ∀ q, alloc = some q → s.live q = false)
    (hinfo : ∀ i, x.info = .info i → i.signo = x.sig) :
    Simulates max a ((s.sendSigInfo max t x alloc bad).map fun r => (r.1, r.2.2)) := by
  unfold sendSigInfo
  split
  case isTrue => exact ⟨s, [], a, rfl, .nil _, h⟩
  rename_i hle
  split
  case isTrue => exact ⟨s, [], a, rfl, .nil _, h⟩
  split
  case isTrue => exact ⟨s, [], a, rfl, .nil _, h⟩
  -- first the signals that this one cancels
  obtain ⟨s₁, es₁, a₁, hrun₁, hev₁, h₁⟩ :=
    @rmSignals_simulates n max s t a h (cancels x.sig) fun _ => cancels_lt
  have hstop : s.handleStopSignal t x.sig = some (s₁, es₁) := hrun₁
  rw [hstop]
  dsimp only
  split
  case isTrue => exact ⟨s₁, es₁, a₁, rfl, hev₁, h₁⟩
  split
  case isTrue => exact ⟨s₁, es₁, a₁, rfl, hev₁, h₁⟩
  case isFalse hnew =>
    have hnew' : x.sig < sigrtmin → sigismember (s₁.tasks t).signal x.sig = false := by
      intro hlt
      rw [← Bool.not_eq_true]
      exact fun hmem => hnew ⟨hlt, hmem⟩
    obtain ⟨s₂, ret, es₂, a₂, hrun₂, hev₂, h₂⟩ :=
      @deliverSignal_simulates n max s₁ t a₁ x alloc ⟨hsig, Nat.le_of_not_lt hle⟩
        (fun q hq => live_of_rmSignals hrun₁ (halloc q hq)) hinfo hnew' h₁
    rw [hrun₂]
    exact ⟨s₂, es₁ ++ es₂, a₂, rfl, hev₁.trans hev₂, h₂⟩

lemma find?_map_info {l₁ l₂ : List Nat} {q sig : Nat}
    (hbefore : ∀ r ∈ l₁, ((s.info r).signo == sig) = false)
    (hq : ((s.info q).signo == sig)) :
    ((l₁ ++ q :: l₂).map s.info).find? (fun i => i.signo == sig) = some (s.info q) ∧
    ((l₁ ++ q :: l₂).map s.info).eraseP (fun i => i.signo == sig) = (l₁ ++ l₂).map s.info := by
  induction l₁ with
  | nil => simp [hq]
  | cons r l₁ ih =>
    have hr := hbefore r (by simp)
    have hrest := ih fun r' hr' => hbefore r' (by simp [hr'])
    simp only [cons_append, map_cons, find?_cons, eraseP_cons, hr]
    exact ⟨hrest.1, by rw [hrest.2]; rfl⟩

/-- `collect_signal` of a pending signal delivers its first entry, or clears a bit without
entry. -/
lemma collectSignal_simulates (h : s.Refines a) {sig : Nat} {dst : Info}
    (hsig : 1 ≤ sig ∧ sig ≤ nsig) (hmem : sigismember (s.tasks t).signal sig) :
    ∃ s' info es a', s.collectSignal t sig dst = some (s', some info, es) ∧
      Happens max a es a' ∧ s'.Refines a' := by
  obtain ⟨l, hl, rfl⟩ := h
  unfold collectSignal
  rw [if_pos hmem]
  have hfind := @TailQueue.find_eq Nat s.next (l t) _ .head (fun q => (s.info q).signo == sig)
    (hl.queue t).chain s.fuel hl.length_lt
  rcases hfind with ⟨hfind, hnone⟩ | ⟨l₁, q, l₂, hsplit, hbefore, hpass, hfind⟩
  · rw [hfind]
    have hno : ((s.abs l) t).queue.find? (fun i => i.signo == sig) = none := by
      rw [find?_eq_none]
      intro i hi
      obtain ⟨q, hq, rfl⟩ := mem_map.1 hi
      simpa using hnone q hq
    exact ⟨_, _, _, _, rfl, .single ⟨hsig.1, hsig.2, hmem, hno⟩, hl.setTask rfl⟩
  · rw [hfind]
    have hqueue := hl.queue t
    rw [hsplit] at hqueue
    have hnodup := nodup_append.1 hqueue.nodup
    have hout := hqueue.unlink
    obtain ⟨hfirst, herase⟩ := @find?_map_info n s l₁ l₂ q sig hbefore hpass
    rw [← hsplit] at hfirst herase
    -- the second search starts where the entry was
    have hrest : TailQueue.Chain ((s.tasks t).pending.unlink s.next
        (lastLink .head l₁) q).1 (s.next q) l₂ := by
      refine hqueue.chain.drop.congr fun r hr => unlink_next_of_not_mem fun hmem' => ?_
      exact hnodup.2.2 r hmem' r (by simp [hr]) rfl
    have hfuel : l₂.length < s.fuel := by
      have hlen := hl.length_lt (t := t)
      rw [hsplit] at hlen
      simp only [length_append, length_cons] at hlen
      omega
    have hany : ((l₁ ++ l₂).map s.info).any (fun i => i.signo == sig) =
        l₂.any fun r => (s.info r).signo == sig := by
      have hl₁ : (l₁.any fun r => (s.info r).signo == sig) = false := by
        simpa using hbefore
      simp only [any_map, any_append, comp_def, hl₁, Bool.false_or]
    obtain ⟨another, hsecond, hanother⟩ : ∃ another,
        (if sigrtmin ≤ sig then find (fun q => (s.info q).signo == sig)
          ((s.tasks t).pending.unlink s.next (lastLink .head l₁) q).1 s.fuel
          (lastLink .head l₁) (s.next q) else some none) = some another ∧
        (another.isSome ↔ sigrtmin ≤ sig ∧
          (((l₁ ++ l₂).map s.info).any fun i => i.signo == sig)) := by
      rw [hany]
      by_cases hrt : sigrtmin ≤ sig
      · rw [if_pos hrt]
        rcases @TailQueue.find_eq Nat _ l₂ _ (lastLink .head l₁)
          (fun q => (s.info q).signo == sig) hrest s.fuel hfuel with
          ⟨hfind', hnone⟩ | ⟨m₁, r, m₂, hm, -, hr, hfind'⟩
        · refine ⟨_, hfind', ?_⟩
          have hno : (l₂.any fun r => (s.info r).signo == sig) = false := by simpa using hnone
          simp [hno]
        · refine ⟨_, hfind', ?_⟩
          have hyes : (l₂.any fun r => (s.info r).signo == sig) := by
            rw [hm, any_append, any_cons, hr]
            simp
          simp [hrt, hyes]
      · rw [if_neg hrt]
        exact ⟨none, rfl, by simp [hrt]⟩
    dsimp only
    rw [hsecond]
    have hsub : ∀ r ∈ l₁ ++ l₂, r ∈ l t := by
      intro r hr
      rw [hsplit]
      simpa using .imp_right .inr (mem_append.1 hr)
    refine ⟨_, _, _, _, rfl, .single ⟨hsig.1, hsig.2, dst, s.info q, hfirst, rfl⟩,
      hl.refines rfl hout (fun r hr => .inl (hsub r hr)) ?_ (fun _ _ => rfl) ?_ ?_ ?_⟩
    · intro r hr _
      rw [hsplit] at hr
      exact unlink_next_of_not_mem fun hmem' => hr (by simp [hmem'])
    · rintro r (hr | ⟨hr, hlive⟩)
      · have hrq : r ≠ q := by
          rintro rfl
          rcases mem_append.1 hr with hr | hr
          · exact hnodup.2.2 r hr r (by simp) rfl
          · exact (nodup_cons.1 hnodup.2.1).1 hr
        exact free_live (hl.live t r (hsub r hr)) (by simpa using hrq)
      · refine free_live hlive ?_
        rw [mem_singleton]
        rintro rfl
        exact hr (by rw [hsplit]; simp)
    · rw [hsplit]
      simp only [free, Sys.setTask, length_append, length_cons, length_nil]
      omega
    · unfold Event.apply Pending.take
      dsimp only
      have hqueue' : ((s.abs l) t).queue = (l t).map s.info := rfl
      rw [hqueue', herase]
      congr 2
      by_cases hsome : another.isSome
      · rw [if_pos hsome, if_pos (hanother.1 hsome)]
        rfl
      · rw [if_neg hsome, if_neg fun hboth => hsome (hanother.2 hboth)]
        rfl

/-- `dequeue_signal` returns the lowest signal that is ready. -/
lemma dequeueSignal_simulates (h : s.Refines a) {mask : Sigset} {dst : Info} :
    ∃ s' info es a', s.dequeueSignal t mask dst =
        some (s', (nextSignal (s.tasks t).signal mask, info), es) ∧
      Happens max a es a' ∧ s'.Refines a' := by
  unfold dequeueSignal
  rcases @nextSignal_spec (s.tasks t).signal mask with ⟨hzero, -⟩ | ⟨hready, -⟩
  · rw [hzero]
    exact ⟨_, none, [], a, rfl, .nil _, h.setTask rfl rfl⟩
  · rw [if_pos (by have hpos := hready.1; omega)]
    obtain ⟨s', info, es, a', hrun, hev, h'⟩ :=
      @collectSignal_simulates n max s t a h _ dst ⟨hready.1, hready.2.1⟩ hready.2.2.1
    rw [hrun]
    exact ⟨_, some info, es, a', rfl, hev, h'.setTask rfl rfl⟩

end Sys

/-- Every call ends and does what its events say. -/
lemma step_simulates {n max : Nat} {s : Sys n} {a : Abs n} (h : s.Refines a) {act : Act n}
    (hact : act.Enabled s) : Sys.Simulates max a (step max s act) := by
  cases act with
  | send t x alloc bad => exact Sys.sendSigInfo_simulates h hact.1 hact.2.1 hact.2.2
  | dequeue t mask dst =>
    obtain ⟨s', info, es, a', hrun, hev, h'⟩ := @Sys.dequeueSignal_simulates n max s t a h mask dst
    exact ⟨s', es, a', by rw [step, hrun]; rfl, hev, h'⟩
  | flush t => exact Sys.flushSigqueue_simulates h rfl rfl
  | exit t => exact Sys.flushSigqueue_simulates h rfl rfl
  | context t c => exact ⟨_, [], a, rfl, .nil _, h.setTask rfl rfl⟩

end PsxLinux.Signal
