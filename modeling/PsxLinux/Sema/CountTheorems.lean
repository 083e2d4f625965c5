import PsxLinux.Sema.Count

/-!
# No unit of a semaphore is lost or used twice

`Balanced` ties the two counters to the units still available, the calls that wait and the releases
between their two updates. Every operation on the counters keeps it, whoever makes it. What is left
for the system is who may stand where: a task gives up its wait only when no release is half done
above its own place in the stack, and a task sleeps only while there is no grant it could take.
-/

namespace PsxLinux.Sema

open Lib Function List Sys

lemma int32_eq {x : ℤ} (h : -2 ^ 31 ≤ x) (h' : x < 2 ^ 31) : int32 x = x :=
  Int.bmod_eq_of_le (by omega) (by omega)

/-! ## The counters -/

/-- The counters with `base` units not yet acquired, `W` calls waiting and `U` releases that have
been counted and not yet handed out. -/
structure Balanced (base : ℤ) (sem : Semaphore) (W U : ℕ) : Prop where
  counted : sem.count = base - W
  granted : sem.waking + U = W + min sem.count 0
  count_lo : -2 ^ 31 ≤ sem.count
  count_hi : sem.count < 2 ^ 31
  waking_lo : 0 ≤ sem.waking
  waking_hi : sem.waking < 2 ^ 31

namespace Balanced
variable {base : ℤ} {sem : Semaphore} {W U : ℕ}
variable {t : Fin k}

section

variable (h : Balanced base sem W U)
include h

lemma dec_count (hr : -2 ^ 31 < sem.count) : sem.dec.count = sem.count - 1 :=
  int32_eq (by omega) (by have := h.count_hi; omega)

lemma inc_count (hr : sem.count < 2 ^ 31 - 1) : sem.inc.count = sem.count + 1 :=
  int32_eq (by have := h.count_lo; omega) (by omega)

/-- `down` that gets a unit at once. -/
lemma acquire (hr : -2 ^ 31 < sem.count) (hc : 0 ≤ sem.dec.count) :
    Balanced (base - 1) sem.dec W U := by
  have hdec := h.dec_count hr
  have hw : sem.dec.waking = sem.waking := rfl
  obtain ⟨h₁, h₂, h₃, h₄, h₅, h₆⟩ := h
  constructor <;> omega

/-- `down` that has to wait. -/
lemma wait (hr : -2 ^ 31 < sem.count) (hc : sem.dec.count < 0) :
    Balanced base sem.dec (W + 1) U := by
  have hdec := h.dec_count hr
  have hw : sem.dec.waking = sem.waking := rfl
  obtain ⟨h₁, h₂, h₃, h₄, h₅, h₆⟩ := h
  constructor <;> omega

/-- `up` with nobody waiting. -/
lemma release (hr : sem.count < 2 ^ 31 - 1)
    (hc : 0 < sem.inc.count) : Balanced (base + 1) sem.inc W U := by
  have hinc := h.inc_count hr
  have hw : sem.inc.waking = sem.waking := rfl
  obtain ⟨h₁, h₂, h₃, h₄, h₅, h₆⟩ := h
  constructor <;> omega

/-- `up` that still has to wake somebody. -/
lemma release_wait (hr : sem.count < 2 ^ 31 - 1)
    (hc : sem.inc.count ≤ 0) : Balanced (base + 1) sem.inc W (U + 1) := by
  have hinc := h.inc_count hr
  have hw : sem.inc.waking = sem.waking := rfl
  obtain ⟨h₁, h₂, h₃, h₄, h₅, h₆⟩ := h
  constructor <;> omega

end

/-- The second half of such an `up`. -/
lemma grant (h : Balanced base sem W (U + 1)) (hr : sem.waking < 2 ^ 31 - 1) :
    Balanced base sem.incWaking W U := by
  have hinc : sem.incWaking.waking = sem.waking + 1 :=
    int32_eq (by have := h.waking_lo; omega) (by omega)
  have hc : sem.incWaking.count = sem.count := rfl
  obtain ⟨h₁, h₂, h₃, h₄, h₅, h₆⟩ := h
  constructor <;> omega

/-- A waiting call takes a grant. -/
lemma take (h : Balanced base sem (W + 1) U) (hpos : 0 < sem.waking) :
    Balanced (base - 1) sem.decWaking W U := by
  have hdec : sem.decWaking.waking = sem.waking - 1 :=
    int32_eq (by omega) (by have := h.waking_hi; omega)
  have hc : sem.decWaking.count = sem.count := rfl
  obtain ⟨h₁, h₂, h₃, h₄, h₅, h₆⟩ := h
  constructor <;> omega

/-- With no grant and fewer releases half done than calls waiting, `count` is negative, so that
putting a unit back owes nobody a grant. -/
lemma inc_of_waiting (h : Balanced base sem W U) (hzero : sem.waking ≤ 0) (hlt : U < W) :
    sem.count < 0 ∧ sem.inc.count = sem.count + 1 := by
  have h₂ := h.granted
  have hneg : sem.count < 0 := by omega
  exact ⟨hneg, h.inc_count (by omega)⟩

/-- A waiting call gives up; no grant was left for it. -/
lemma giveUp (h : Balanced base sem (W + 1) U) (hzero : sem.waking ≤ 0) (hle : U ≤ W) :
    Balanced base sem.inc W U := by
  obtain ⟨hneg, hinc⟩ := h.inc_of_waiting hzero (Nat.lt_succ_of_le hle)
  have hw : sem.inc.waking = sem.waking := rfl
  obtain ⟨h₁, h₂, h₃, h₄, h₅, h₆⟩ := h
  constructor <;> omega

section
variable (h : Balanced base sem W U)
include h

lemma congr {base' : ℤ} {W' U' : ℕ} (hbase : base' = base)
    (hW : W' = W) (hU : U' = U) : Balanced base' sem W' U' := by
  rw [hbase, hW, hU]
  exact h

lemma le : U ≤ W := by
  have h₂ := h.granted
  have h₅ := h.waking_lo
  omega

lemma base_nonneg : 0 ≤ base := by
  have h₁ := h.counted
  have h₂ := h.granted
  have h₅ := h.waking_lo
  omega

/-- The sum of the counters, from what the calls in progress are. -/
lemma sum_eq : sem.count + sem.waking = base - W + min base W - U := by
  have h₁ := h.counted
  have h₂ := h.granted
  omega

end

end Balanced

/-! ## The calls in progress -/

/-- Below each `down_trylock` no more releases are half done than calls wait. -/
def Backed (w : ℕ) : List Frame → Prop
  | [] => True
  | f :: rest =>
    (f = .trylock → rest.count .wakeOneMore ≤ w + rest.count .trylock) ∧ Backed w rest

/-- Inside the loop or on the way out: the task is on the wait queue. -/
def Pc.onQueue : Pc → Bool
  | .check | .schedule | .tail | .leave | .unqueue => true
  | .idle | .head | .queue => false

variable {k n : ℕ} {s s' : Sys k} {es fs : List Event}

/-- What a task may be in: only the current one is between two sleeps, it is on the wait queue while
it loops, and it sleeps only if there is no grant or a `wake_up` is still to come. -/
structure Placed (s : Sys k) (t : Fin k) (task : Task) : Prop where
  still : t ≠ s.cur → task.pc = .idle ∨ task.pc = .schedule
  queued : task.pc.onQueue → task.queued
  woken : task.Asleep → s.sem.waking = 0 ∨ .wakeUp ∈ s.stack

def base (n : ℕ) (es : List Event) : ℤ := n + ups es - acquisitions es

/-- What a run keeps. -/
structure Inv (n : ℕ) (s : Sys k) (es : List Event) : Prop where
  balanced : Balanced (base n es) s.sem s.waiters s.grants
  backed : Backed s.sleepers s.stack
  placed : ∀ t, Placed s t (s.tasks t)

lemma base_append : base n (es ++ fs) = base n es + ups fs - acquisitions fs := by
  simp only [base, ups, acquisitions, count_append]
  omega

lemma sleepers_setTask (t : Fin k) (task : Task) :
    (s.setTask t task).sleepers + (s.tasks t).waits.toNat = s.sleepers + task.waits.toNat :=
  tally_update

variable {task : Task}

lemma Placed.mono (h : Placed s t task) (hcur : s'.cur = s.cur)
    (hw : s.sem.waking = 0 ∨ .wakeUp ∈ s.stack → s'.sem.waking = 0 ∨ .wakeUp ∈ s'.stack) :
    Placed s' t task :=
  ⟨hcur ▸ h.still, h.queued, fun hsleep => hw (h.woken hsleep)⟩

lemma placed_cur (hq : task.pc.onQueue → task.queued)
    (hpc : task.pc ≠ .schedule) : Placed s s.cur task :=
  ⟨absurd rfl, hq, fun h => absurd h.1 hpc⟩

lemma placed_setTask (hp : Placed s t task) (hall : ∀ u ≠ t, Placed s u (s.tasks u)) :
    ∀ u, Placed (s.setTask t task) u ((s.setTask t task).tasks u) := by
  intro u
  have hu : Placed s u ((s.setTask t task).tasks u) := by
    rcases eq_or_ne u t with rfl | hne
    · simpa only [setTask, update_self] using hp
    · simpa only [setTask, update_of_ne hne] using hall u hne
  exact hu.mono rfl id

lemma Inv.setTask (h : Inv n s es) (hw : task.waits = (s.tasks t).waits) (hp : Placed s t task) :
    Inv n (s.setTask t task) es := by
  have hsl : (s.setTask t task).sleepers = s.sleepers := by
    have := sleepers_setTask (s := s) t task
    rw [hw] at this
    omega
  constructor
  · unfold waiters
    rw [hsl]
    exact h.balanced
  · rw [hsl]
    exact h.backed
  · exact placed_setTask hp fun u _ => h.placed u

/-! ## The steps -/

lemma base_acquired : base n (es ++ [.acquired]) = base n es - 1 := by
  rw [base_append]
  simp [ups, acquisitions]

lemma base_upStarted : base n (es ++ [.upStarted]) = base n es + 1 := by
  rw [base_append]
  simp [ups, acquisitions]

lemma Inv.down (h : Inv n s es) (hstack : s.stack = []) (hidle : (s.tasks s.cur).pc = .idle)
    (hr : -2 ^ 31 < s.sem.count) (mode : Mode) :
    Inv n (down s mode).1 (es ++ (down s mode).2) := by
  unfold Sema.down
  split_ifs with hc
  · have hsl := sleepers_setTask (s := { s with sem := s.sem.dec }) s.cur
      { s.tasks s.cur with pc := .head, mode := mode }
    simp only [Task.waits, hidle, Bool.toNat_false, Bool.toNat_true, Nat.add_zero] at hsl
    constructor
    · apply (h.balanced.wait hr hc).congr
      · rw [append_nil]
      · unfold waiters
        rw [hsl]
        exact Nat.add_right_comm ..
      · rfl
    · show Backed _ s.stack
      rw [hstack]
      trivial
    · apply placed_setTask
      · exact placed_cur nofun nofun
      · intro u _
        exact (h.placed u).mono rfl id
  · constructor
    · exact (h.balanced.acquire hr (not_lt.1 hc)).congr base_acquired rfl rfl
    · exact h.backed
    · intro t
      exact (h.placed t).mono rfl id

lemma Inv.up (h : Inv n s es) (hr : s.sem.count < 2 ^ 31 - 1) :
    Inv n (up s).1 (es ++ (up s).2) := by
  unfold Sema.up
  split_ifs with hc
  · constructor
    · apply (h.balanced.release_wait hr hc).congr base_upStarted
      · simp [waiters, sleepers]
      · simp [grants]
    · exact ⟨nofun, h.backed⟩
    · intro t
      exact (h.placed t).mono rfl (Or.imp_right (mem_cons_of_mem _))
  · constructor
    · exact (h.balanced.release hr (not_le.1 hc)).congr base_upStarted rfl rfl
    · exact h.backed
    · intro t
      exact (h.placed t).mono rfl id

lemma Inv.downTrylock (h : Inv n s es) (hr : -2 ^ 31 < s.sem.count) :
    Inv n (downTrylock s).1 (es ++ (downTrylock s).2) := by
  unfold Sema.downTrylock
  split_ifs with hc
  · constructor
    · apply (h.balanced.wait hr hc).congr
      · rw [append_nil]
      · simp [waiters, sleepers, Nat.add_assoc]
      · simp [grants]
    · -- what is half done below the new call was balanced when it came
      exact ⟨fun _ => h.balanced.le, h.backed⟩
    · intro t
      exact (h.placed t).mono rfl (Or.imp_right (mem_cons_of_mem _))
  · constructor
    · exact (h.balanced.acquire hr (not_lt.1 hc)).congr base_acquired rfl rfl
    · exact h.backed
    · intro t
      exact (h.placed t).mono rfl id

/-- Every task on the queue is awake after `wake_up`. -/
lemma Placed.wakeUp (h : Placed s t task) (hcur : s'.cur = s.cur) : Placed s' t task.wakeUp := by
  have hpc : task.wakeUp.pc = task.pc ∧ task.wakeUp.queued = task.queued := by
    unfold Task.wakeUp
    split_ifs <;> exact ⟨rfl, rfl⟩
  constructor
  · rw [hpc.1, hcur]
    exact h.still
  · rw [hpc.1, hpc.2]
    exact h.queued
  · rintro ⟨hsched, hstate⟩
    have hqueued : task.queued := by
      apply h.queued
      rw [← hpc.1, hsched]
      rfl
    simp [Task.wakeUp, hqueued] at hstate

variable {rest : List Frame}

lemma Inv.wakeOneMore (h : Inv n s es) (hstack : s.stack = .wakeOneMore :: rest)
    (hr : s.sem.waking < 2 ^ 31 - 1) :
    Inv n { s with sem := s.sem.incWaking, stack := .wakeUp :: rest } es := by
  constructor
  · have hb : Balanced (base n es) s.sem (s.sleepers + rest.count .trylock)
        (rest.count .wakeOneMore + 1) := by
      apply h.balanced.congr rfl
      · simp [waiters, hstack]
      · simp [grants, hstack]
    apply (hb.grant hr).congr rfl
    · simp [waiters, sleepers]
    · simp [grants]
  · have := h.backed
    rw [hstack] at this
    exact ⟨nofun, this.2⟩
  · intro t
    exact (h.placed t).mono rfl fun _ => .inr mem_cons_self

lemma Inv.wakeUp (h : Inv n s es) (hstack : s.stack = .wakeUp :: rest) :
    Inv n { s with tasks := fun t => (s.tasks t).wakeUp, stack := rest } es := by
  have hsl : sleepers { s with tasks := fun t => (s.tasks t).wakeUp, stack := rest } =
      s.sleepers := by
    apply tally_congr
    intro t
    change (s.tasks t).wakeUp.waits.toNat = _
    unfold Task.wakeUp
    split_ifs <;> rfl
  constructor
  · apply h.balanced.congr rfl
    · simp [waiters, hstack, hsl]
    · simp [grants, hstack]
  · have := h.backed
    rw [hstack] at this
    rw [hsl]
    exact this.2
  · intro t
    exact (h.placed t).wakeUp rfl

lemma Inv.trylock (h : Inv n s es) (hstack : s.stack = .trylock :: rest) :
    Inv n { s with sem := (wakingNonZeroTrylock s.sem).1, stack := rest }
      (es ++ if (wakingNonZeroTrylock s.sem).2 = 0 then [.acquired] else [.tryFailed]) := by
  have hbacked := h.backed
  have hb : Balanced (base n es) s.sem (s.sleepers + rest.count .trylock + 1)
      (rest.count .wakeOneMore) := by
    apply h.balanced.congr rfl
    · simp [waiters, hstack, Nat.add_assoc]
    · simp [grants, hstack]
  rw [hstack] at hbacked
  have hplaced : s.sem.waking = 0 ∨ Frame.wakeUp ∈ s.stack →
      s.sem.waking = 0 ∨ Frame.wakeUp ∈ rest := by
    simp [hstack]
  unfold wakingNonZeroTrylock
  split_ifs with hzero hret hret
  · simp at hret
  · constructor
    · apply (hb.giveUp hzero (hbacked.1 rfl)).congr
      · simp [base_append, ups, acquisitions]
      · rfl
      · rfl
    · exact hbacked.2
    · intro t
      exact (h.placed t).mono rfl hplaced
  · constructor
    · exact (hb.take (not_le.1 hzero)).congr base_acquired rfl rfl
    · exact hbacked.2
    · intro t
      refine (h.placed t).mono rfl fun hw => .inr ?_
      exact (hplaced hw).resolve_left (by omega)
  · simp at hret

/-- A pass of the loop takes a grant, gives up, or finds no grant and goes to sleep. -/
lemma check_cases (s : Sys k) (task : Task) :
    (0 < s.sem.waking ∧ check s task = ({ s with sem := s.sem.decWaking }.setTask s.cur
      { task with pc := .leave }, [.acquired])) ∨
    (s.sem.waking ≤ 0 ∧ check s task = ({ s with sem := s.sem.inc }.setTask s.cur
      { task with pc := .leave }, [.interrupted])) ∨
    (s.sem.waking ≤ 0 ∧ check s task = (s.setTask s.cur { task with pc := .schedule }, [])) := by
  unfold check
  cases task.mode with
  | down =>
    by_cases hw : 0 < s.sem.waking
    · left
      simp [wakingNonZero, hw]
    · right; right
      simp [wakingNonZero, hw, not_lt.1 hw]
  | downInterruptible =>
    by_cases hw : 0 < s.sem.waking
    · left
      simp [wakingNonZeroInterruptible, hw]
    · right
      cases hsig : task.sig with
      | true =>
        left
        simp [wakingNonZeroInterruptible, hw, not_lt.1 hw, eintr]
      | false =>
        right
        simp [wakingNonZeroInterruptible, hw, not_lt.1 hw]

lemma Inv.check (h : Inv n s es) (hstack : s.stack = []) (hpc : (s.tasks s.cur).pc = .check) :
    Inv n (check s (s.tasks s.cur)).1 (es ++ (check s (s.tasks s.cur)).2) := by
  have hqueued := (h.placed s.cur).queued (by rw [hpc]; rfl)
  have hzero : ∀ t, (s.tasks t).Asleep → s.sem.waking = 0 := by
    intro t hs
    simpa [hstack] using (h.placed t).woken hs
  -- a task that leaves the loop is one sleeper less
  have hleave : ∀ sem : Semaphore, s.sleepers = ({ s with sem := sem }.setTask s.cur
      { s.tasks s.cur with pc := .leave }).sleepers + 1 := by
    intro sem
    have hsl := sleepers_setTask (s := { s with sem := sem }) s.cur
      { s.tasks s.cur with pc := .leave }
    simp only [Task.waits, hpc, Bool.toNat_true, Bool.toNat_false] at hsl
    exact hsl.symm
  have hout : ∀ sem : Semaphore, Placed { s with sem := sem } s.cur
      { s.tasks s.cur with pc := .leave } :=
    fun sem => placed_cur (fun _ => hqueued) nofun
  have hb : ∀ sem : Semaphore, Balanced (base n es) s.sem (({ s with sem := sem }.setTask s.cur
      { s.tasks s.cur with pc := .leave }).waiters + 1) 0 := by
    intro sem
    apply h.balanced.congr rfl
    · rw [Sys.waiters, Sys.waiters, hleave sem]
      simp [Sys.setTask, hstack]
    · simp [grants, hstack]
  rcases check_cases s (s.tasks s.cur) with ⟨hw, heq⟩ | ⟨hw, heq⟩ | ⟨hw, heq⟩ <;> rw [heq]
  · constructor
    · apply ((hb _).take hw).congr base_acquired rfl
      simp [Sys.grants, Sys.setTask, hstack]
    · simp [Sys.setTask, hstack, Backed]
    · apply placed_setTask (hout _)
      intro u _
      -- nobody sleeps while a grant is there to be taken
      exact ⟨(h.placed u).still, (h.placed u).queued, fun hs => by have := hzero u hs; omega⟩
  · constructor
    · apply ((hb _).giveUp hw (Nat.zero_le _)).congr _ rfl
      · simp [Sys.grants, Sys.setTask, hstack]
      · simp [base_append, ups, acquisitions]
    · simp [Sys.setTask, hstack, Backed]
    · apply placed_setTask (hout _)
      intro u _
      exact (h.placed u).mono rfl id
  · rw [append_nil]
    apply h.setTask
    · simp [Task.waits, hpc]
    · have := h.balanced.waking_lo
      exact ⟨fun hne => absurd rfl hne, fun _ => hqueued, fun _ => .inl (by omega)⟩

lemma Inv.run (h : Inv n s es) (hstack : s.stack = [])
    (hrun : run s (s.tasks s.cur) = some (s', fs)) : Inv n s' (es ++ fs) := by
  have hqueued := (h.placed s.cur).queued
  unfold Sema.run at hrun
  cases hpc : (s.tasks s.cur).pc with
  | idle => simp [hpc] at hrun
  | check =>
    simp only [hpc, Option.some.injEq] at hrun
    have := h.check hstack hpc
    rwa [hrun] at this
  | head | queue | tail | leave | unqueue =>
    simp only [hpc] at hrun
    cases hrun
    rw [append_nil]
    apply h.setTask
    · simp [Task.waits, hpc]
    · apply placed_cur
      · simp_all [Pc.onQueue]
      · simp
  | schedule =>
    simp only [hpc, Option.ite_none_right_eq_some, Option.some.injEq, Prod.mk.injEq] at hrun
    obtain ⟨-, rfl, rfl⟩ := hrun
    rw [append_nil]
    apply h.setTask
    · simp [Task.waits, hpc]
    · apply placed_cur
      · intro _
        exact hqueued (by rw [hpc]; rfl)
      · simp

lemma Inv.setTask_of_pc (h : Inv n s es) (hpc : task.pc = (s.tasks t).pc)
    (hq : task.queued = (s.tasks t).queued)
    (hstate : task.state = (s.tasks t).state ∨ task.state = .running) :
    Inv n (s.setTask t task) es := by
  apply h.setTask (by unfold Task.waits; rw [hpc])
  constructor
  · rw [hpc]
    exact (h.placed t).still
  · rw [hpc, hq]
    exact (h.placed t).queued
  · rintro ⟨hsched, hne⟩
    apply (h.placed t).woken
    exact ⟨hpc ▸ hsched, hstate.resolve_right hne ▸ hne⟩

lemma leaveCpu_pc (task : Task) : task.leaveCpu.pc = task.pc := by
  unfold Task.leaveCpu
  split_ifs <;> rfl

lemma Inv.leaveCpu (h : Inv n s es) (t : Fin k) : Inv n (s.setTask t (s.tasks t).leaveCpu) es := by
  apply h.setTask_of_pc (leaveCpu_pc _)
  · unfold Task.leaveCpu
    split_ifs <;> rfl
  · unfold Task.leaveCpu
    split_ifs
    · exact .inr rfl
    · exact .inl rfl

lemma Inv.signal (h : Inv n s es) (t : Fin k) : Inv n (s.setTask t (s.tasks t).signal) es := by
  unfold Task.signal
  split_ifs
  · exact h.setTask_of_pc rfl rfl (.inr rfl)
  · exact h.setTask_of_pc rfl rfl (.inl rfl)

lemma Inv.switch (h : Inv n s es)
    (hcur : (s.tasks s.cur).pc = .idle ∨ (s.tasks s.cur).pc = .schedule) (t : Fin k) :
    Inv n { s with cur := t } es := by
  refine ⟨h.balanced, h.backed, fun u => ⟨fun _ => ?_, (h.placed u).queued, (h.placed u).woken⟩⟩
  rcases eq_or_ne u s.cur with rfl | hne
  · exact hcur
  · exact (h.placed u).still hne

lemma Inv.frame (h : Inv n s es) (hr : Act.InRange s .frame)
    (hstep : frameStep s = some (s', fs)) : Inv n s' (es ++ fs) := by
  unfold frameStep at hstep
  rcases hstack : s.stack with _ | ⟨f, rest⟩
  · simp [hstack] at hstep
  cases f <;> simp only [hstack] at hstep <;>
    obtain ⟨rfl, rfl⟩ := hstep
  case wakeOneMore =>
    rw [append_nil]
    exact h.wakeOneMore hstack (hr (by rw [hstack]; rfl))
  case wakeUp =>
    rw [append_nil]
    exact h.wakeUp hstack
  case trylock => exact h.trylock hstack

lemma Inv.step {a : Act k} (h : Inv n s es) (hr : a.InRange s)
    (hstep : step s a = some (s', fs)) : Inv n s' (es ++ fs) := by
  cases a with
  | down mode =>
    simp only [Sema.step, Option.ite_none_right_eq_some, Option.some.injEq] at hstep
    obtain ⟨⟨hstack, hidle⟩, heq⟩ := hstep
    have := h.down hstack hidle hr mode
    rwa [heq] at this
  | run =>
    simp only [Sema.step, Option.ite_none_right_eq_some] at hstep
    exact h.run hstep.1 hstep.2
  | up =>
    simp only [Sema.step, Option.some.injEq] at hstep
    have := h.up hr
    rwa [hstep] at this
  | downTrylock =>
    simp only [Sema.step, Option.some.injEq] at hstep
    have := h.downTrylock hr
    rwa [hstep] at this
  | frame => exact h.frame hr hstep
  | switch t =>
    simp only [Sema.step, Option.ite_none_right_eq_some, Option.some.injEq, Prod.mk.injEq] at hstep
    obtain ⟨⟨-, hcur⟩, -, rfl, rfl⟩ := hstep
    rw [append_nil]
    apply (h.leaveCpu s.cur).switch
    simpa only [Sys.setTask, update_self, leaveCpu_pc] using hcur
  | signal t =>
    cases hstep
    rw [append_nil]
    exact h.signal t
  | flushSignals t =>
    cases hstep
    rw [append_nil]
    exact h.setTask_of_pc rfl rfl (.inl rfl)

lemma inv_initial (hn : n < 2 ^ 31) (sig : Fin k → Bool) (cur : Fin k) :
    Inv n (initial n sig cur) [] := by
  have hsl : (initial n sig cur).sleepers = 0 := tally_eq_zero fun _ => rfl
  constructor
  · constructor
    all_goals
      simp only [initial, waiters, grants, base, ups, acquisitions, count_nil] at *
      omega
  · trivial
  · intro t
    exact ⟨fun _ => .inl rfl, nofun, nofun⟩

/-! ## Whole runs -/

/-- An interrupted wait gives its count back. -/
lemma Inv.failed_check (h : Inv n s es) (hstack : s.stack = []) (hpc : (s.tasks s.cur).pc = .check)
    (hfail : .interrupted ∈ (Sema.check s (s.tasks s.cur)).2) :
    (Sema.check s (s.tasks s.cur)).1.sem = s.sem.inc ∧ s.sem.inc.count = s.sem.count + 1 := by
  have hone : 1 ≤ s.sleepers := one_le_tally (i := s.cur) (by simp [Task.waits, hpc])
  rcases check_cases s (s.tasks s.cur) with ⟨-, heq⟩ | ⟨hw, heq⟩ | ⟨-, heq⟩ <;>
    rw [heq] at hfail ⊢
  · simp at hfail
  · refine ⟨rfl, (h.balanced.inc_of_waiting hw ?_).2⟩
    simpa [grants, waiters, hstack] using Nat.lt_of_succ_le hone
  · simp at hfail

/-- A `down_trylock` that fails gives its count back. -/
lemma Inv.failed_frame (h : Inv n s es) (hstep : frameStep s = some (s', fs))
    (hfail : .tryFailed ∈ fs) : s'.sem = s.sem.inc ∧ s.sem.inc.count = s.sem.count + 1 := by
  unfold frameStep at hstep
  rcases hstack : s.stack with _ | ⟨f, rest⟩
  · simp [hstack] at hstep
  cases f <;> simp only [hstack] at hstep <;>
    obtain ⟨rfl, rfl⟩ := hstep
  case wakeOneMore | wakeUp => cases hfail
  case trylock =>
    have hbacked := h.backed
    rw [hstack] at hbacked
    by_cases hzero : s.sem.waking ≤ 0
    · refine ⟨by simp [wakingNonZeroTrylock, hzero], (h.balanced.inc_of_waiting hzero ?_).2⟩
      have := hbacked.1 rfl
      simp [grants, waiters, hstack]
      omega
    · simp [wakingNonZeroTrylock, hzero] at hfail

/-- A call that fails puts back the one it took from `count`, exactly. -/
lemma Inv.failed {a : Act k} (h : Inv n s es) (hstep : Sema.step s a = some (s', fs))
    (hfail : .interrupted ∈ fs ∨ .tryFailed ∈ fs) :
    s'.sem.count = s.sem.count + 1 ∧ s'.sem.waking = s.sem.waking := by
  suffices hsem : s'.sem = s.sem.inc ∧ s.sem.inc.count = s.sem.count + 1 by
    rw [hsem.1]
    exact ⟨hsem.2, rfl⟩
  cases a with
  | run =>
    simp only [Sema.step, Option.ite_none_right_eq_some] at hstep
    obtain ⟨hstack, hrun⟩ := hstep
    unfold Sema.run at hrun
    cases hpc : (s.tasks s.cur).pc with
    | check =>
      simp only [hpc, Option.some.injEq] at hrun
      have hcheck := h.failed_check hstack hpc
      rw [hrun] at hcheck
      apply hcheck
      apply hfail.resolve_right
      -- the loop of `__down_interruptible` fails in one way only
      rcases check_cases s (s.tasks s.cur) with ⟨-, heq⟩ | ⟨-, heq⟩ | ⟨-, heq⟩ <;>
        rw [heq] at hrun <;> simp [← (Prod.mk.inj hrun).2]
    | idle => simp [hpc] at hrun
    | head | queue | tail | leave | unqueue | schedule => grind
  | frame =>
    apply h.failed_frame hstep
    apply hfail.resolve_left
    unfold Sema.step frameStep at hstep
    grind
  | down | up | downTrylock | switch | signal | flushSignals =>
    grind [Sema.step, Sema.down, Sema.up, Sema.downTrylock]

/-- **A semaphore hands out what it has.** In every run whose steps keep the counters in their 32
bits: no more units are acquired than there are, `count + waking` is what the releases, the
acquisitions and the calls in progress make it, whatever calls have failed, and nobody is left asleep
with a unit to spare. -/
theorem counting_semaphore (hn : n < 2 ^ 31) (sig : Fin k → Bool) (cur : Fin k) (as : List (Act k))
    (hrun : Exec step (fun s a => a.InRange s) (initial n sig cur) as es s) :
    acquisitions es ≤ n + ups es ∧
    (s.sem.count + s.sem.waking = base n es - s.waiters + min (base n es) s.waiters - s.grants ∧
      ∀ a s' fs, step s a = some (s', fs) → .interrupted ∈ fs ∨ .tryFailed ∈ fs →
        s'.sem.count = s.sem.count + 1 ∧ s'.sem.waking = s.sem.waking) ∧
    (s.Quiet → (∃ t, (s.tasks t).Asleep) → n + ups es = acquisitions es) := by
  have h : Inv n s es :=
    hrun.invariant (inv_initial hn sig cur) fun _ _ _ _ _ h hr hstep => h.step hr hstep
  refine ⟨?_, ⟨h.balanced.sum_eq, fun a s' fs hstep hfail => h.failed hstep hfail⟩, ?_⟩
  · have := h.balanced.base_nonneg
    unfold base at this
    omega
  · rintro ⟨hstack, -⟩ ⟨t, ht⟩
    have hzero : s.sem.waking = 0 := by simpa [hstack] using (h.placed t).woken ht
    have hone : (s.tasks t).waits.toNat ≤ s.sleepers :=
      le_tally (w := fun task : Task => task.waits.toNat) t
    rw [Task.waits, ht.1] at hone
    have hgrants : s.grants = 0 := by simp [grants, hstack]
    have hwaiters : s.waiters = s.sleepers := by simp [waiters, hstack]
    obtain ⟨h₁, h₂, -, -, -, -⟩ := h.balanced
    unfold base at h₁
    simp only [Bool.toNat_true] at hone
    omega

/-- One task sleeps in `down`; the other releases, and a handler takes the grant before the sleeper
is awake. It goes back to sleep, and nothing is left over. -/
theorem counting_semaphore_stolen :
    ∃ as es s, Exec step (fun s a => Act.InRange s a) (initial 0 (fun _ => false) 0 : Sys 2) as es s ∧
      s.Quiet ∧ (∃ t, (s.tasks t).Asleep) ∧ 0 + ups es = acquisitions es := by
  refine ⟨[.down .down, .run, .run, .run, .switch 1, .up, .frame, .downTrylock, .frame, .frame,
    .switch 0, .run, .run, .run], exists_comm.1 (Exec.exists_of_decide
      (fun s _ => s.Quiet ∧ ∃ t, (s.tasks t).Asleep) (by decide +kernel) ?_)⟩
  intro s es hrun ⟨hquiet, hasleep⟩
  exact ⟨hquiet, hasleep, (counting_semaphore (by decide) _ _ _ hrun).2.2 hquiet hasleep⟩

/-! ## The counter at its ends -/

/-- `down` while units are free, again and again. -/
lemma exec_downs (m : ℕ) {c w : ℤ} {tasks : Fin k → Task} {cur : Fin k}
    (hidle : (tasks cur).pc = .idle) (hlo : (m : ℤ) ≤ c) (hhi : c < 2 ^ 31) :
    Exec step anyStep ⟨⟨c, w⟩, tasks, cur, []⟩ (replicate m (.down .down))
      (replicate m .acquired) ⟨⟨c - m, w⟩, tasks, cur, []⟩ := by
  induction m with
  | zero => simpa using Exec.refl _
  | succ m ih =>
    rw [replicate_succ', replicate_succ']
    refine .tail (ih (by omega)) trivial ?_
    have hdec : int32 (c - m - 1) = c - (m + 1 : ℕ) := by
      rw [int32_eq (by omega) (by omega)]
      omega
    simp only [step, hidle, and_self, if_true, down, Semaphore.dec, hdec]
    rw [if_neg (by omega)]

lemma exec_up_at_limit (hn : n + 1 = 2 ^ 31) :
    ∃ as es s, Exec step anyStep (initial n (fun _ => false) 0 : Sys 1) as es s ∧
      n + ups es < acquisitions es := by
  let idle : Fin 1 → Task := (initial n (fun _ => false) 0 : Sys 1).tasks
  have hwrap : int32 ((n : ℤ) + 1) = -2 ^ 31 := by
    rw [show (n : ℤ) + 1 = 2 ^ 31 by omega]
    decide
  have hback : int32 (-2 ^ 31 - 1) = n := by
    rw [show n = 2 ^ 31 - 1 by omega]
    decide
  have hup : Exec step anyStep (initial n (fun _ => false) 0 : Sys 1) [.up, .frame, .frame]
      [.upStarted] ⟨⟨-2 ^ 31, 1⟩, idle, 0, []⟩ := by
    have hstep : step (initial n (fun _ => false) 0 : Sys 1) .up =
        some (⟨⟨-2 ^ 31, 0⟩, idle, 0, [.wakeOneMore]⟩, [.upStarted]) := by
      simp only [step, up, initial, Semaphore.inc, hwrap]
      rfl
    exact (Exec.single trivial hstep).trans (Exec.of_run (fun _ _ _ => trivial)
      (rfl : Exec.run step (fun _ _ => true) _ [.frame, .frame] = _))
  have hfree : Exec step anyStep ⟨⟨-2 ^ 31, 1⟩, idle, 0, []⟩ [.down .down] [.acquired]
      ⟨⟨n, 1⟩, idle, 0, []⟩ := by
    apply Exec.single trivial
    have hidle : (idle 0).pc = .idle := rfl
    simp only [step, down, Semaphore.dec, hback, hidle, and_self, if_true]
    rw [if_neg (by omega)]
  have hdowns : Exec step anyStep ⟨⟨n, 1⟩, idle, 0, []⟩ (replicate n (.down .down))
      (replicate n .acquired) ⟨⟨0, 1⟩, idle, 0, []⟩ := by
    have := exec_downs n (w := 1) (show (idle 0).pc = .idle from rfl) le_rfl (by omega)
    rwa [sub_self] at this
  have hlast : ∃ s, Exec step anyStep ⟨⟨0, 1⟩, idle, 0, []⟩ [.down .down, .run, .run, .run]
      [.acquired] s :=
    ⟨_, Exec.of_run (fun _ _ _ => trivial)
      (rfl : Exec.run step (fun _ _ => true) _ [.down .down, .run, .run, .run] = _)⟩
  obtain ⟨s, hlast⟩ := hlast
  refine ⟨_, _, s, hup.trans (hfree.trans (hdowns.trans hlast)), ?_⟩
  simp only [ups, acquisitions, count_append, count_replicate]
  simp

/-- With the largest count a release wraps `count` to the least value, which looks as if tasks were
waiting: `__up` adds a grant beside the unit it has counted, and both are acquired. -/
theorem up_at_limit_grants_twice :
    ∃ as es s, Exec step anyStep (initial (2 ^ 31 - 1) (fun _ => false) 0 : Sys 1) as es s ∧
      2 ^ 31 - 1 + ups es < acquisitions es :=
  exec_up_at_limit (by omega)

end PsxLinux.Sema
