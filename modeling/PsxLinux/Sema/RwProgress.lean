import Mathlib.Data.Prod.Lex
import PsxLinux.Sema.RwTheorems

/-!
# Exclusion and progress of read-write semaphores

The steps of a run without undone biases are those of `DirectStep`. While a writer waits, each of
them gives it the semaphore, or brings that nearer (`Sys.toDo`), or is a step of a task that does not
matter now; under weak fairness the wait therefore ends.
-/

namespace PsxLinux.Sema.Rw

open Lib Function

variable {k : ℕ} {s s' : Sys k} {es : List (Event k)} {t u : Fin k}

/-! ## What is still to happen -/

/-- How far a holder is from its release. -/
def Pc.rankOut : Pc → ℕ
  | .hold _ => 1
  | .wakeWait => 2
  | .readCount => 3
  | .grantSetRunning _ => 4
  | .grantRemove _ => 5
  | _ => 0

/-- How far a waiting writer is from the bit, and a release from its `wake_up`. -/
def Task.rankLook (task : Task) : ℕ :=
  match task.pc with
  | .grantTest _ | .wakeUp _ _ => 1
  | .grantAdd _ | .grantTestAgain _ => 2
  | .grantSchedule _ => if task.state = .running then 2 else 3
  | .grantSetState _ => 3
  | _ => 0

def Sys.out (s : Sys k) : ℕ := tally (fun task => task.pc.rankOut) s.tasks

def Sys.look (s : Sys k) : ℕ := tally Task.rankLook s.tasks

/-- What is still to happen before a waiting writer gets the semaphore, in this order: the holders
leave, other writers come, the bit is set, a waiting writer looks at it. -/
def Sys.toDo (s : Sys k) : ℕ ×ₗ ℕ ×ₗ ℕ ×ₗ ℕ :=
  toLex (s.out, toLex (2 - (s.writers + s.waiters), toLex (1 - (s.granted .write).toNat,
    if s.granted .write then s.look else 0)))

/-- Whose step brings a waiting writer nearer to the semaphore. -/
def Sys.Helps (s : Sys k) (t : Fin k) : Prop :=
  if 0 < s.out then 0 < (s.tasks t).pc.rankOut
  else if s.granted .write then (s.tasks t).Attends
  else (s.tasks t).pc = .setBit .write none

/-- The numbers that count for progress after one task has moved. -/
lemma tallies_of_tasks (t : Fin k) (task : Task) (h : s'.tasks = update s.tasks t task) :
    s'.out + (s.tasks t).pc.rankOut = s.out + task.pc.rankOut ∧
    s'.look + (s.tasks t).rankLook = s.look + task.rankLook ∧
    s'.writers + ((s.tasks t).pc.holds .write).toNat = s.writers + (task.pc.holds .write).toNat ∧
    s'.waiters + (s.tasks t).pc.waits.toNat = s.waiters + task.pc.waits.toNat := by
  unfold Sys.out Sys.look Sys.writers Sys.waiters
  rw [h]
  exact ⟨tally_update, tally_update, tally_update, tally_update⟩

/-- The measure falls when somebody gets nearer to the way out. -/
lemma toDo_lt_of_out (h : s'.out < s.out) : s'.toDo < s.toDo :=
  Prod.Lex.toLex_lt_toLex.2 (.inl h)

lemma toDo_lt_of_room (hout : s'.out = s.out)
    (h : 2 - (s'.writers + s'.waiters) < 2 - (s.writers + s.waiters)) : s'.toDo < s.toDo :=
  Prod.Lex.toLex_lt_toLex.2 (.inr ⟨hout, Prod.Lex.toLex_lt_toLex.2 (.inl h)⟩)

section

variable (hout : s'.out = s.out) (hroom : s'.writers + s'.waiters = s.writers + s.waiters)
include hout hroom

lemma toDo_lt_of_bit
    (h : s.granted .write = false) (h' : s'.granted .write) : s'.toDo < s.toDo := by
  apply Prod.Lex.toLex_lt_toLex.2
  refine .inr ⟨hout, Prod.Lex.toLex_lt_toLex.2 (.inr ⟨?_, Prod.Lex.toLex_lt_toLex.2 (.inl ?_)⟩)⟩
  · simp only [hroom]
  · simp [h, h']

lemma toDo_lt_of_look
    (h : s.granted .write) (h' : s'.granted .write) (hlook : s'.look < s.look) :
    s'.toDo < s.toDo := by
  unfold Sys.toDo
  rw [hout, hroom, h, h']
  simpa [Prod.Lex.toLex_lt_toLex] using hlook

/-- A step of a task that does not help, while the bit is clear, changes nothing that matters. -/
lemma toDo_eq_of_clear (h : s.granted .write = false) (h' : s'.granted .write = false)
    (hrank : (s.tasks t).pc.rankOut = 0) (hbit : (s.tasks t).pc ≠ .setBit .write none)
    (hother : ∀ u, u ≠ t → (s'.tasks u).pc = (s.tasks u).pc) :
    s'.toDo = s.toDo ∧ ∀ u, s.Helps u → some t ≠ some u ∧ s'.Helps u := by
  constructor
  · unfold Sys.toDo
    rw [hout, hroom, h, h']
    rfl
  · intro u hu
    have hut : u ≠ t := by
      rintro rfl
      unfold Sys.Helps at hu
      split_ifs at hu with hpos hg
      · omega
      · simp [h] at hg
      · exact hbit hu
    refine ⟨fun heq => hut (Option.some.inj heq).symm, ?_⟩
    unfold Sys.Helps at hu ⊢
    rw [hout, hother u hut, h']
    rw [h] at hu
    simpa using hu

end

lemma holds_le_rankOut (kind : Kind) (pc : Pc) : (pc.holds kind).toNat ≤ pc.rankOut := by
  have hle := Bool.toNat_le (pc.holds kind)
  cases pc <;> simp only [Pc.rankOut] <;> first | omega | exact le_rfl

lemma readers_le_out : s.readers ≤ s.out :=
  tally_mono fun t => holds_le_rankOut .read (s.tasks t).pc

lemma writers_le_out : s.writers ≤ s.out :=
  tally_mono fun t => holds_le_rankOut .write (s.tasks t).pc

/-- While somebody waits, somebody can help. -/
lemma Inv.exists_helps (h : Inv s) (hW : 0 < s.waiters) : ∃ t, s.Helps t := by
  unfold Sys.Helps
  split_ifs with hout hg
  · exact exists_of_tally_pos hout
  · exact h.attended hg
  · have hr := readers_le_out (s := s)
    have hH := writers_le_out (s := s)
    have hdue := h.shape.due hW (by omega)
    have hzero : (s.granted .write).toNat = 0 := by
      rw [Bool.eq_false_of_not_eq_true hg]
      rfl
    obtain ⟨t, ht⟩ : ∃ t, 0 < (decide ((s.tasks t).pc = .setBit .write none)).toNat :=
      exists_of_tally_pos (show 0 < s.wakers by omega)
    exact ⟨t, by by_contra hne; simp [hne] at ht⟩

lemma helps_canMove (h : s.Helps t) : (s.tasks t).CanMove := by
  have hnot : ∀ pc, (s.tasks t).pc = pc → pc ≠ .idle → (∀ kind, pc ≠ .schedule kind) →
      (∀ kind, pc ≠ .grantSchedule kind) → (s.tasks t).CanMove := by
    intro pc hpc hidle hs hg
    refine ⟨by rwa [hpc], ?_⟩
    rintro ⟨⟨kind, hk | hk⟩, -⟩
    · exact hs kind (hpc.symm.trans hk)
    · exact hg kind (hpc.symm.trans hk)
  unfold Sys.Helps at h
  split_ifs at h
  · cases hpc : (s.tasks t).pc <;> simp [hpc, Pc.rankOut] at h <;>
      exact hnot _ hpc (by simp) (by simp) (by simp)
  · rcases h with ⟨hw, ha⟩ | hpc
    · refine ⟨?_, ha⟩
      intro hidle
      simp [hidle, Pc.waits] at hw
    · exact hnot _ hpc (by simp) (by simp) (by simp)
  · exact hnot _ h (by simp) (by simp) (by simp)

variable {task : Task}

variable {task' : Task}

/-- A waiter that has been granted the lock gets nearer to taking it. -/
lemma Loops.rankLook_lt (h : Loops true task task') : task'.rankLook < task.rankLook := by
  cases h <;> simp_all [Task.rankLook]

lemma Loops.rankOut {g : Bool} (h : Loops g task task') :
    task.pc.rankOut = 0 ∧ task'.pc.rankOut = 0 ∧ task.pc ≠ .setBit .write none := by
  cases h <;> simp [Pc.rankOut]

/-- A task on its way out gets nearer. -/
lemma Leaves.rankOut_lt (h : Leaves task task') : task'.pc.rankOut < task.pc.rankOut := by
  cases h <;> simp [Pc.rankOut]

lemma rankLook_wakeAll (tasks : Fin k → Task) (q : WaitQueue k) (t : Fin k) :
    (wakeAll tasks q t).rankLook ≤ (tasks t).rankLook := by
  unfold Task.rankLook
  rw [wakeAll_pc]
  split <;> try exact le_rfl
  split_ifs with hafter hbefore hbefore
  · exact le_rfl
  · omega
  · exact absurd (wakeAll_running hbefore) hafter
  · exact le_rfl

lemma toDo_lt_of_leaving (hW : 0 < s.waiters) (htasks : s'.tasks = update s.tasks t task)
    (hrank : task.pc.rankOut < (s.tasks t).pc.rankOut)
    (hwaits : (s.tasks t).pc.waits = task.pc.waits) {stay : Prop} :
    0 < s'.waiters ∧ (s'.toDo < s.toDo ∨ stay) := by
  obtain ⟨hout, -, -, hW'⟩ := tallies_of_tasks t task htasks
  rw [hwaits] at hW'
  exact ⟨by omega, .inl (toDo_lt_of_out (by omega))⟩

/-- A task that holds nothing moves: nearer to the bit if it is set, and else it does not matter. -/
lemma toDo_of_looking (hW : 0 < s.waiters) (htasks : s'.tasks = update s.tasks t task)
    (hgr : s'.granted = s.granted) (hwrite : (s.tasks t).pc.holds .write = task.pc.holds .write)
    (hwaits : (s.tasks t).pc.waits = task.pc.waits) (hrank : (s.tasks t).pc.rankOut = 0)
    (hrank' : task.pc.rankOut = 0) (hbit : (s.tasks t).pc ≠ .setBit .write none)
    (hlook : s.granted .write → task.rankLook < (s.tasks t).rankLook) :
    0 < s'.waiters ∧ (s'.toDo < s.toDo ∨
      s'.toDo = s.toDo ∧ ∀ u, s.Helps u → some t ≠ some u ∧ s'.Helps u) := by
  obtain ⟨hout, hl, hw, hW'⟩ := tallies_of_tasks t task htasks
  rw [hwaits] at hW'
  rw [hwrite] at hw
  have hout' : s'.out = s.out := by omega
  have hroom : s'.writers + s'.waiters = s.writers + s.waiters := by omega
  refine ⟨by omega, ?_⟩
  cases hg : s.granted .write with
  | true =>
    have := hlook hg
    exact .inl (toDo_lt_of_look hout' hroom hg (by rw [hgr, hg]) (by omega))
  | false =>
    refine .inr (toDo_eq_of_clear hout' hroom hg (by rw [hgr, hg]) hrank hbit fun u hu => ?_)
    rw [htasks, update_of_ne hu]

lemma toDo_wakeAll (s : Sys k) (q : WaitQueue k) :
    Sys.out { s with tasks := wakeAll s.tasks q } = s.out ∧
    Sys.look { s with tasks := wakeAll s.tasks q } ≤ s.look ∧
    Sys.writers { s with tasks := wakeAll s.tasks q } = s.writers ∧
    Sys.waiters { s with tasks := wakeAll s.tasks q } = s.waiters := by
  refine ⟨tally_congr fun t => ?_, tally_mono (rankLook_wakeAll _ _),
    tally_congr fun t => ?_, tally_congr fun t => ?_⟩
  all_goals rw [wakeAll_pc]

/-- A step while a writer waits: it gives a waiting writer the semaphore, or it brings that nearer, or
it is the step of a task that does not help and leaves those who do. -/
lemma Inv.progress {a : Option (Fin k)} (h : Inv s) (hW : 0 < s.waiters)
    (hstep : DirectStep s a s' es) :
    (∃ t, (s.tasks t).pc.waits ∧ .acquired t ∈ es) ∨ 0 < s'.waiters ∧
      (s'.toDo < s.toDo ∨ s'.toDo = s.toDo ∧ ∀ t, s.Helps t → a ≠ some t ∧ s'.Helps t) := by
  cases hstep with
  | tick => exact .inr ⟨hW, .inr ⟨rfl, fun t ht => ⟨by simp, ht⟩⟩⟩
  | acquire t kind hidle hok hshape =>
    -- with a writer waiting nobody gets the semaphore on arrival
    exfalso
    obtain ⟨h₁, -, h₃, h₄, -, h₆, h₇, -⟩ := h.shape
    cases kind with
    | read =>
      change 0 < s.count at hok
      omega
    | write =>
      change 0 ≤ s.count at hok
      have hone := hshape.one
      simp only [decide_true, Bool.toNat_true] at hone
      omega
  | wait t hidle hshape =>
    generalize hs' : Sys.setPc _ t _ = s'
    have htasks : s'.tasks = Function.update s.tasks t ⟨.grantAdd .write, (s.tasks t).state⟩ := by
      rw [← hs']
      rfl
    obtain ⟨hout, -, hw, hW'⟩ := tallies_of_tasks _ _ htasks
    simp only [hidle, Pc.rankOut, Pc.holds, Pc.waits, Bool.toNat_false, Bool.toNat_true,
      Nat.add_zero] at hout hw hW'
    have htwo := hshape.two
    exact .inr ⟨by omega, .inl (toDo_lt_of_room hout (by omega))⟩
  | release t kind wakes r H hpc hr hH hshape =>
    refine .inr (toDo_lt_of_leaving hW rfl ?_ ?_)
    · cases wakes <;> simp [hpc, Pc.rankOut]
    · cases wakes <;> simp [hpc, Pc.waits]
  | enqueue t hpc =>
    refine .inr (toDo_of_looking hW rfl rfl ?_ ?_ ?_ rfl ?_ ?_)
    iterate 3
      rw [hpc]
      rfl
    · simp [hpc]
    · simp [Task.rankLook, hpc]
  | loops t task hl =>
    refine .inr (toDo_of_looking hW rfl rfl hl.sameRole.write hl.sameRole.waits hl.rankOut.1
      hl.rankOut.2.1 hl.rankOut.2.2 fun hg => ?_)
    rw [hg] at hl
    exact hl.rankLook_lt
  | takeBit t hpc hg => exact .inl ⟨t, by simp [hpc, Pc.waits], by simp⟩
  | dequeue t hpc =>
    refine .inr (toDo_lt_of_leaving hW rfl ?_ ?_)
    · simp [hpc, Pc.rankOut]
    · simp [hpc, Pc.waits]
  | leaves t task hl => exact .inr (toDo_lt_of_leaving hW rfl hl.rankOut_lt hl.sameRole.waits)
  | setBit t hpc =>
    generalize hs' : Sys.setPc _ t _ = s'
    have htasks : s'.tasks = Function.update s.tasks t ⟨.wakeUp .write none, (s.tasks t).state⟩ := by
      rw [← hs']
      rfl
    obtain ⟨hout, -, hw, hW'⟩ := tallies_of_tasks _ _ htasks
    simp only [hpc, Pc.holds, Pc.waits] at hout hw hW'
    refine .inr ⟨by omega, .inl (toDo_lt_of_bit hout (by omega) (h.waker hpc).1 ?_)⟩
    rw [← hs']
    simp [Sys.setPc, Sys.setTask]
  | wakeUp t hpc =>
    obtain ⟨hout₁, hlook₁, hw₁, hW₁⟩ := toDo_wakeAll s s.writeBiasWait
    generalize hs₁ : ({ s with tasks := Rw.wakeAll s.tasks s.writeBiasWait } : Sys k) = s₁ at *
    have hpc₁ : ∀ u, (s₁.tasks u).pc = (s.tasks u).pc := by
      intro u
      rw [← hs₁, wakeAll_pc]
    have hg₁ : s₁.granted = s.granted := by rw [← hs₁]
    obtain ⟨hout, hlook, hw, hW'⟩ := tallies_of_tasks t ⟨.idle, (s₁.tasks t).state⟩
      (rfl : (s₁.setPc t .idle).tasks = _)
    simp only [hpc₁, hpc, Pc.rankOut, Pc.holds, Pc.waits, Bool.toNat_false, Nat.add_zero,
      Task.rankLook] at hout hlook hw hW'
    refine .inr ⟨by omega, ?_⟩
    cases hg : s.granted .write with
    | true => exact .inl (toDo_lt_of_look (by omega) (by omega) hg (by rw [← hg, ← hg₁]; rfl) (by omega))
    | false =>
      refine .inr (toDo_eq_of_clear (by omega) (by omega) hg (by rw [← hg, ← hg₁]; rfl) ?_ ?_ ?_)
      · simp [hpc, Pc.rankOut]
      · simp [hpc]
      · intro u hu
        simp [Sys.setPc, Sys.setTask, hu, hpc₁]

/-! ## Whole runs -/

lemma DirectStep.no_bug {a : Option (Fin k)} (h : DirectStep s a s' es) : .bug ∉ es := by
  cases h <;> simp

/-- The invariant over a run, in which nothing is a bug. -/
lemma Inv.of_exec (hk : k < 0x01000000) {as : List (Act k)}
    (hrun : Exec step (fun s a => Act.Direct s a) (Rw.initial k) as es s) : Inv s ∧ .bug ∉ es := by
  apply hrun.invariant (P := fun s es => Inv s ∧ .bug ∉ es)
  · exact ⟨Inv.initial, nofun⟩
  · intro t es a u fs ⟨hinv, hes⟩ hok hstep
    have hd := step_direct hinv hk hok hstep
    exact ⟨hinv.directStep hd, by simp [hes, hd.no_bug]⟩

/-- A writer has the lock alone. -/
lemma Inv.exclusive (h : Inv s) (hne : t ≠ u) (hwrite : (s.tasks t).pc.holds .write)
    (kind : Kind) : (s.tasks u).pc.holds kind = false := by
  apply Bool.eq_false_of_not_eq_true
  intro hu
  have hone := h.shape.one
  cases kind with
  | read =>
    have hr : 1 ≤ s.readers := one_le_tally hu
    have hH : 1 ≤ s.writers := one_le_tally hwrite
    have := h.shape.readers (by omega)
    omega
  | write =>
    have htwo : ((s.tasks t).pc.holds .write).toNat + ((s.tasks u).pc.holds .write).toNat ≤
        s.writers := add_le_tally (w := fun task : Task => (task.pc.holds .write).toNat) hne
    rw [hwrite, hu, Bool.toNat_true] at htwo
    omega

/-- A lock that nobody has or wants is as it was made. -/
lemma Inv.free (h : Inv s)
    (hno : ∀ t, (s.tasks t).pc.waits = false ∧ ∀ kind, (s.tasks t).pc.holds kind = false) :
    s.count = rwLockBias ∧ ∀ bit, s.granted bit = false := by
  have hr : s.readers = 0 := tally_eq_zero fun t => by simp [(hno t).2]
  have hH : s.writers = 0 := tally_eq_zero fun t => by simp [(hno t).2]
  have hW : s.waiters = 0 := tally_eq_zero fun t => by simp [(hno t).1]
  obtain ⟨h₁, h₂, -, -, h₅, -⟩ := h.shape
  refine ⟨by rw [h₁, hr, hH, hW]; rfl, ?_⟩
  have hzero := h₅ hW
  rintro (_ | _)
  · exact h₂
  · cases hg : s.granted .write with
    | false => rfl
    | true => simp [hg] at hzero

/-- **Read-write semaphores.** In every run of fewer than `RW_LOCK_BIAS` tasks in which readers come
only while `count` is positive and writers only while it is not negative: a writer holds the
semaphore alone, `BUG()` is not reached, the semaphore is as it was when nobody holds or waits for it,
and while somebody waits some task inside is not asleep. In every endless run of this kind in which no
task that can move stands still forever, a holder before its release included, whenever somebody
waits, later a waiting task acquires the semaphore. -/
theorem rw_semaphore (hk : k < rwLockBias) :
    (∀ as es s, Exec step (fun s a => Act.Direct s a) (initial k) as es s →
      (∀ t u kind, t ≠ u → (s.tasks t).pc.holds .write → (s.tasks u).pc.holds kind = false) ∧
      .bug ∉ es ∧
      ((∀ t, (s.tasks t).pc.waits = false ∧ ∀ kind, (s.tasks t).pc.holds kind = false) →
        s.count = rwLockBias ∧ ∀ bit, s.granted bit = false) ∧
      ((∃ t, (s.tasks t).pc.waits) → ∃ t, (s.tasks t).CanMove)) ∧
    (∀ run, Endless step (fun s a => Act.Direct s a) (initial k) run →
      (∀ t, WeaklyFair (fun i => ((run.state i).tasks t).CanMove)
        fun i => (run.act i).task = some t) →
      ∀ i, (∃ t, ((run.state i).tasks t).pc.waits) →
        ∃ j, i ≤ j ∧ ∃ t, ((run.state j).tasks t).pc.waits ∧ .acquired t ∈ run.events j) := by
  have hk' : k < 0x01000000 := by
    unfold rwLockBias at hk
    omega
  refine ⟨fun as es s hrun => ?_, fun run hrun hfair i hi => ?_⟩
  · obtain ⟨h, hbug⟩ := Inv.of_exec hk' hrun
    refine ⟨fun t u kind hne hw => h.exclusive hne hw kind, hbug, h.free, fun ⟨t, ht⟩ => ?_⟩
    obtain ⟨u, hu⟩ := h.exists_helps (one_le_tally ht)
    exact ⟨u, helps_canMove hu⟩
  · have hinv : ∀ i, Inv (run.state i) := by
      intro i
      obtain ⟨as, es, hexec⟩ := hrun.exec i
      exact (Inv.of_exec hk' hexec).1
    apply run.eventually Sys.toDo (fun s => 0 < s.waiters) Sys.Helps fun a t => a.task = some t
    · intro j hW
      exact (hinv j).progress hW (step_direct (hinv j) hk' (hrun.guard j) (hrun.next j))
    · exact fun j hW => (hinv j).exists_helps hW
    · intro t j hhelps
      exact hfair t j fun l hl => helps_canMove (hhelps l hl)
    · obtain ⟨t, ht⟩ := hi
      exact one_le_tally ht

/-- A reader holds the semaphore, a writer comes and goes to sleep, the reader leaves: a run in which
nobody stands still, and the writer gets the semaphore. -/
theorem rw_semaphore_handover :
    ∃ run, Endless step (fun s a => Act.Direct s a) (initial 2) run ∧
      (∃ i t, ((run.state i).tasks t).pc.waits) ∧
      ∃ j t, ((run.state j).tasks t).pc.waits ∧ .acquired t ∈ run.events j := by
  have hruns : (Exec.run step (fun s a => decide (Act.Direct s a)) (initial 2)
      [.down .read 0, .down .write 1]).map (fun r => decide ((r.1.tasks 1).pc.waits ∧
        (Exec.run step (fun s a => decide (Act.Direct s a)) r.1
          [.run 1, .run 1, .run 1, .run 1, .up 0, .run 0, .run 0, .run 1, .run 1, .run 1, .run 1,
            .run 1, .run 1, .up 1]).map (fun r => decide (∀ t, (r.1.tasks t).pc = .idle)) =
          some true)) = some true := by
    decide +kernel
  obtain ⟨s₁, es₁, hrun₁, hend₁⟩ := Exec.exists_of_run (fun _ _ h => of_decide_eq_true h) _ hruns
  obtain ⟨hwaits, hruns₂⟩ := of_decide_eq_true hend₁
  obtain ⟨s₂, es₂, hrun₂, hend₂⟩ := Exec.exists_of_run (fun _ _ h => of_decide_eq_true h) _ hruns₂
  have hidle : ∀ t, (s₂.tasks t).pc = .idle := of_decide_eq_true hend₂
  -- from the end of the run on nothing happens
  have hloop : Endless step (fun s a => Act.Direct s a) s₂ _ :=
    Endless.const (show Act.Direct s₂ .tick from trivial) rfl
  obtain ⟨run₁, hendless₁, n₂, hn₂⟩ := hloop.append hrun₂
  obtain ⟨run, hendless, n₁, hn₁⟩ := hendless₁.append hrun₁
  have hi : ((run.state n₁).tasks 1).pc.waits := by
    rw [← Nat.add_zero n₁, hn₁, hendless₁.start]
    exact hwaits
  obtain ⟨j, -, hj⟩ := (rw_semaphore (by decide)).2 run hendless (by
    intro t i hmove
    have hcan : ((run.state (n₁ + (n₂ + i))).tasks t).CanMove := hmove _ (by omega)
    rw [hn₁, hn₂] at hcan
    exact absurd (hidle t) hcan.1) n₁ ⟨1, hi⟩
  exact ⟨run, hendless, ⟨n₁, 1, hi⟩, j, hj⟩

/-- A writer holds the semaphore. A reader comes, gives its bias back and with that brings `count` to
zero, so that it grants the write bias on behalf of the holder. The next writer takes the grant. -/
theorem undo_grants_second_writer :
    ∃ as es s, Exec step anyStep (initial 3) as es s ∧
      (s.tasks 0).pc = .hold .write ∧ (s.tasks 2).pc = .hold .write := by
  refine ⟨[.down .write 0, .down .read 1, .run 1, .run 1, .down .write 2, .run 2, .run 2, .run 2,
    .run 2, .run 2], exists_comm.1 ?_⟩
  exact Exec.exists_of_decide _ (by decide +kernel) fun _ _ _ => id

end PsxLinux.Sema.Rw
