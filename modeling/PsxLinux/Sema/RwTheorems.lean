import PsxLinux.Sema.CountTheorems
import PsxLinux.Sema.Rw

/-!
# Who may be where in a read-write semaphore

When no call has to give its bias back, `count` tells exactly who is there, and there is one grant at
a time: a writer holds the semaphore, or a release is about to set the bit, or the bit is set
(`Shape`). `DirectStep` lists what a step can then do; the invariant is read off that list.
-/

namespace PsxLinux.Sema.Rw

open Lib Function

/-! ## The counter and the bits -/

/-- `count` and `granted` with `r` readers and `H` writers in the semaphore, `W` writers waiting for
the bit, and `P` releases about to set it. -/
structure Shape (count : ℤ) (granted : Kind → Bool) (r H W P : ℕ) : Prop where
  count_eq : count = 0x01000000 * (1 - (H + W)) - r
  readBit : granted .read = false
  one : H + P + (granted .write).toNat ≤ 1
  due : 0 < W → r = 0 → H + P + (granted .write).toNat = 1
  quiet : W = 0 → P + (granted .write).toNat = 0
  readers : 0 < r → H + P + (granted .write).toNat = 0 ∧ W ≤ 1
  two : H + W ≤ 2
  few : r < 0x01000000

namespace Shape
variable {count : ℤ} {granted : Kind → Bool} {r H W P : ℕ}

/-- A reader that is let in without waiting. -/
lemma read (h : Shape count granted r H W P) (hc : 0 < count) (hr : r + 1 < 0x01000000) :
    downFails .read (int32 (count - Kind.read.bias)) = false ∧
    Shape (int32 (count - Kind.read.bias)) granted (r + 1) H W P := by
  obtain ⟨h₁, h₂, h₃, h₄, h₅, h₆, h₇, h₈⟩ := h
  have hcount : int32 (count - Kind.read.bias) = count - 1 := int32_eq (by
    simp only [Kind.bias]; omega) (by simp only [Kind.bias]; omega)
  refine ⟨decide_eq_false (by omega), ?_⟩
  constructor <;> first | exact h₂ | omega

/-- A writer comes while `count` is not negative. It has the semaphore, or its bias can stay. -/
lemma write (h : Shape count granted r H W P) (hc : 0 ≤ count) :
    (downFails .write (int32 (count - Kind.write.bias)) = false ∧
      Shape (int32 (count - Kind.write.bias)) granted r (H + 1) W P) ∨
    (downFails .write (int32 (count - Kind.write.bias)) ∧
      slowPath .write (int32 (count - Kind.write.bias)) = .grantAdd .write ∧
      Shape (int32 (count - Kind.write.bias)) granted r H (W + 1) P) := by
  obtain ⟨h₁, h₂, h₃, h₄, h₅, h₆, h₇, h₈⟩ := h
  have hcount : int32 (count - Kind.write.bias) = count - 0x01000000 := int32_eq (by
    simp only [Kind.bias, rwLockBias]; omega) (by simp only [Kind.bias, rwLockBias]; omega)
  have hsum : int32 (count - 0x01000000 + rwLockBias) = count := by
    rw [rwLockBias, Int.sub_add_cancel]
    exact int32_eq (by omega) (by omega)
  rw [hcount]
  by_cases hfree : count = 0x01000000
  · left
    refine ⟨by simp [downFails, hfree], ?_⟩
    constructor <;> first | exact h₂ | omega
  · right
    refine ⟨by simp only [downFails, decide_eq_true_eq]; omega, ?_, ?_⟩
    · simp only [slowPath]
      rw [if_neg (by omega)]
    · constructor <;> first | exact h₂ | omega

/-- The last reader out leaves one wake-up to make. -/
lemma upRead (h : Shape count granted (r + 1) H W P) :
    (int32 (count + Kind.read.bias) = 0 ∧
      Shape (int32 (count + Kind.read.bias)) granted r H W (P + 1)) ∨
    (int32 (count + Kind.read.bias) ≠ 0 ∧
      Shape (int32 (count + Kind.read.bias)) granted r H W P) := by
  obtain ⟨h₁, h₂, h₃, h₄, h₅, h₆, h₇, h₈⟩ := h
  have hcount : int32 (count + Kind.read.bias) = count + 1 := int32_eq (by
    simp only [Kind.bias]; omega) (by simp only [Kind.bias]; omega)
  rw [hcount]
  by_cases hlast : count + 1 = 0
  · left
    refine ⟨hlast, ?_⟩
    constructor <;> first | exact h₂ | omega
  · right
    refine ⟨hlast, ?_⟩
    constructor <;> first | exact h₂ | omega

/-- A writer leaves. Only another writer can have been waiting. -/
lemma upWrite (h : Shape count granted r (H + 1) W P) :
    (int32 (int32 (count + Kind.write.bias) - rwLockBias) < 0 ∧
      int32 (count + Kind.write.bias) = 0 ∧
      Shape (int32 (count + Kind.write.bias)) granted r H W (P + 1)) ∨
    (¬ int32 (int32 (count + Kind.write.bias) - rwLockBias) < 0 ∧
      Shape (int32 (count + Kind.write.bias)) granted r H W P) := by
  obtain ⟨h₁, h₂, h₃, h₄, h₅, h₆, h₇, h₈⟩ := h
  have hcount : int32 (count + Kind.write.bias) = count + 0x01000000 := int32_eq (by
    simp only [Kind.bias, rwLockBias]; omega) (by simp only [Kind.bias, rwLockBias]; omega)
  have hback : int32 (count + 0x01000000 - rwLockBias) = count := by
    rw [rwLockBias, Int.add_sub_cancel]
    exact int32_eq (by omega) (by omega)
  rw [hcount, hback]
  by_cases hwait : count < 0
  · left
    refine ⟨hwait, by omega, ?_⟩
    constructor <;> first | exact h₂ | omega
  · right
    refine ⟨hwait, ?_⟩
    constructor <;> first | exact h₂ | omega

/-- The wake-up hands the grant over in the bit. -/
lemma setBit (h : Shape count granted r H W (P + 1)) : granted .write = false ∧
    Shape count (update granted .write true) r H W P := by
  obtain ⟨h₁, h₂, h₃, h₄, h₅, h₆, h₇, h₈⟩ := h
  have hclear : granted .write = false := by
    cases hg : granted .write with
    | false => rfl
    | true =>
      rw [hg, Bool.toNat_true] at h₃
      omega
  refine ⟨hclear, ?_⟩
  have hset : (update granted .write true .write).toNat = 1 := by simp
  constructor <;> first | omega | simpa using h₂

/-- A waiting writer takes the grant. -/
lemma takeBit (h : Shape count granted r H (W + 1) P) (hset : granted .write) :
    Shape count (update granted .write false) r (H + 1) W P := by
  obtain ⟨h₁, h₂, h₃, h₄, h₅, h₆, h₇, h₈⟩ := h
  have hone : (granted .write).toNat = 1 := by rw [hset]; rfl
  have hclear : (update granted .write false .write).toNat = 0 := by simp
  constructor <;> first | omega | simpa using h₂

end Shape

/-! ## The invariant -/

/-- The places a task can be in when no bias is given back. -/
def Pc.direct : Pc → Bool
  | .idle | .hold _ | .grantAdd .write | .grantTest .write | .grantSetState .write
  | .grantTestAgain .write | .grantSchedule .write | .grantRemove .write
  | .grantSetRunning .write | .readCount | .wakeWait | .setBit .write none
  | .wakeUp .write none => true
  | _ => false

/-- On `write_bias_wait`. -/
def Pc.onQueue : Pc → Bool
  | .grantTest .write | .grantSetState .write | .grantTestAgain .write | .grantSchedule .write
  | .grantRemove .write => true
  | _ => false

variable {k : ℕ} {s s' : Sys k} {es : List (Event k)} {t u : Fin k}

def Sys.readers (s : Sys k) : ℕ := tally (fun task => (task.pc.holds .read).toNat) s.tasks

def Sys.writers (s : Sys k) : ℕ := tally (fun task => (task.pc.holds .write).toNat) s.tasks

def Sys.waiters (s : Sys k) : ℕ := tally (fun task => task.pc.waits.toNat) s.tasks

def Sys.wakers (s : Sys k) : ℕ :=
  tally (fun task => (decide (task.pc = .setBit .write none)).toNat) s.tasks

/-- Somebody will look at the bit: a waiting writer that is awake, or a `wake_up` to come. -/
def Task.Attends (task : Task) : Prop :=
  task.pc.waits ∧ ¬ task.Asleep ∨ task.pc = .wakeUp .write none

/-- What a run without undone biases keeps. -/
structure Inv (s : Sys k) : Prop where
  shape : Shape s.count s.granted s.readers s.writers s.waiters s.wakers
  direct : ∀ t, (s.tasks t).pc.direct
  wait_nil : s.wait = []
  queued : ∀ t, (s.tasks t).pc.onQueue → (t, true) ∈ s.writeBiasWait
  onQueue : ∀ e ∈ s.writeBiasWait, (s.tasks e.1).pc.onQueue
  attended : s.granted .write → ∃ t, (s.tasks t).Attends

/-! ## What a step does -/

/-- A waiting writer goes round the loop of the second branch of `__down_write`. -/
inductive Loops (granted : Bool) : Task → Task → Prop
  | miss (st : TaskState) : granted = false →
      Loops granted ⟨.grantTest .write, st⟩ ⟨.grantSetState .write, st⟩
  | setState (st : TaskState) :
      Loops granted ⟨.grantSetState .write, st⟩ ⟨.grantTestAgain .write, .uninterruptible⟩
  | again (st : TaskState) : granted →
      Loops granted ⟨.grantTestAgain .write, st⟩ ⟨.grantTest .write, st⟩
  | sleep (st : TaskState) : granted = false →
      Loops granted ⟨.grantTestAgain .write, st⟩ ⟨.grantSchedule .write, st⟩
  | woken : Loops granted ⟨.grantSchedule .write, .running⟩ ⟨.grantTest .write, .running⟩

/-- A writer that has taken the bit leaves `__down_write`. -/
inductive Leaves : Task → Task → Prop
  | setRunning (st : TaskState) : Leaves ⟨.grantSetRunning .write, st⟩ ⟨.readCount, .running⟩
  | wake (st : TaskState) : Leaves ⟨.readCount, st⟩ ⟨.wakeWait, st⟩
  | skip (st : TaskState) : Leaves ⟨.readCount, st⟩ ⟨.hold .write, st⟩
  | done (st : TaskState) : Leaves ⟨.wakeWait, st⟩ ⟨.hold .write, st⟩

/-- A release goes on: it sets the bit, or is over. -/
def Sys.released (s : Sys k) (t : Fin k) (kind : Kind) (wakes : Bool) : Sys k :=
  { s with count := int32 (s.count + kind.bias) }.setPc t
    (if wakes then .setBit .write none else .idle)

/-- The steps that are left when no bias is given back. -/
inductive DirectStep (s : Sys k) : Option (Fin k) → Sys k → List (Event k) → Prop
  | tick : DirectStep s none s []
  | acquire (t : Fin k) (kind : Kind) : (s.tasks t).pc = .idle → Act.Direct s (.down kind t) →
      Shape (int32 (s.count - kind.bias)) s.granted
        (s.readers + (decide (kind = .read)).toNat) (s.writers + (decide (kind = .write)).toNat)
        s.waiters s.wakers →
      DirectStep s (some t) ({ s with count := int32 (s.count - kind.bias) }.setPc t (.hold kind))
        [.acquired t]
  | wait (t : Fin k) : (s.tasks t).pc = .idle →
      Shape (int32 (s.count - Kind.write.bias)) s.granted s.readers s.writers (s.waiters + 1)
        s.wakers →
      DirectStep s (some t)
        ({ s with count := int32 (s.count - Kind.write.bias) }.setPc t (.grantAdd .write)) []
  | release (t : Fin k) (kind : Kind) (wakes : Bool) (r H : ℕ) : (s.tasks t).pc = .hold kind →
      s.readers = r + (decide (kind = .read)).toNat →
      s.writers = H + (decide (kind = .write)).toNat →
      Shape (int32 (s.count + kind.bias)) s.granted r H s.waiters (s.wakers + wakes.toNat) →
      DirectStep s (some t) (s.released t kind wakes) []
  | enqueue (t : Fin k) : (s.tasks t).pc = .grantAdd .write →
      DirectStep s (some t)
        ({ s with writeBiasWait := s.writeBiasWait ++ [(t, true)] }.setPc t (.grantTest .write)) []
  | loops (t : Fin k) (task : Task) : Loops (s.granted .write) (s.tasks t) task →
      DirectStep s (some t) (s.setTask t task) []
  | takeBit (t : Fin k) : (s.tasks t).pc = .grantTest .write → s.granted .write →
      DirectStep s (some t)
        ({ s with granted := update s.granted .write false }.setPc t (.grantRemove .write))
        [.acquired t]
  | dequeue (t : Fin k) : (s.tasks t).pc = .grantRemove .write →
      DirectStep s (some t)
        ({ s with writeBiasWait := dequeue s.writeBiasWait t }.setPc t (.grantSetRunning .write)) []
  | leaves (t : Fin k) (task : Task) : Leaves (s.tasks t) task →
      DirectStep s (some t) (s.setTask t task) []
  | setBit (t : Fin k) : (s.tasks t).pc = .setBit .write none →
      DirectStep s (some t)
        ({ s with granted := update s.granted .write true }.setPc t (.wakeUp .write none)) []
  | wakeUp (t : Fin k) : (s.tasks t).pc = .wakeUp .write none →
      DirectStep s (some t)
        (({ s with tasks := wakeAll s.tasks s.writeBiasWait } : Sys k).setPc t .idle) []

/-- Who is where after task `t` has moved. -/
structure Recount (s : Sys k) (t : Fin k) (task : Task) (r H W P : ℕ) : Prop where
  read : r + ((s.tasks t).pc.holds .read).toNat = s.readers + (task.pc.holds .read).toNat
  write : H + ((s.tasks t).pc.holds .write).toNat = s.writers + (task.pc.holds .write).toNat
  waits : W + (s.tasks t).pc.waits.toNat = s.waiters + task.pc.waits.toNat
  waker : P + (decide ((s.tasks t).pc = .setBit .write none)).toNat =
    s.wakers + (decide (task.pc = .setBit .write none)).toNat

lemma recount_setTask (s : Sys k) (t : Fin k) (task : Task) :
    Recount s t task (s.setTask t task).readers (s.setTask t task).writers
      (s.setTask t task).waiters (s.setTask t task).wakers where
  read := tally_update (w := fun task : Task => (task.pc.holds .read).toNat)
  write := tally_update (w := fun task : Task => (task.pc.holds .write).toNat)
  waits := tally_update (w := fun task : Task => task.pc.waits.toNat)
  waker := tally_update (w := fun task : Task => (decide (task.pc = .setBit .write none)).toNat)

/-- The count has room for one more reader. -/
lemma readers_lt (hk : k < 0x01000000) (hidle : (s.tasks t).pc = .idle) :
    s.readers + 1 < 0x01000000 := by
  have hset := (recount_setTask s t ⟨.hold .read, (s.tasks t).state⟩).read
  have hle : (s.setTask t ⟨.hold .read, (s.tasks t).state⟩).readers ≤ Fintype.card (Fin k) :=
    tally_le_card fun _ => Bool.toNat_le _
  rw [Fintype.card_fin] at hle
  simp only [hidle, Pc.holds, decide_true, Bool.toNat_true, Bool.toNat_false] at hset
  omega

/-- The step of a task that asks for the lock. -/
lemma down_direct (h : Inv s) (hk : k < 0x01000000) {kind : Kind}
    (hidle : (s.tasks t).pc = .idle) (hok : Act.Direct s (.down kind t)) :
    DirectStep s (some t) (take s t kind (downFails kind)).1 (take s t kind (downFails kind)).2 := by
  cases kind with
  | read =>
    obtain ⟨hfails, hshape⟩ := h.shape.read hok (readers_lt hk hidle)
    unfold take
    simp only [hfails]
    exact .acquire t .read hidle hok hshape
  | write =>
    unfold take
    rcases h.shape.write hok with ⟨hfails, hshape⟩ | ⟨hfails, hslow, hshape⟩
    · simp only [hfails]
      exact .acquire t .write hidle hok hshape
    · simp only [hfails, hslow]
      exact .wait t hidle hshape

/-- The step of a task that releases it. -/
lemma up_direct (h : Inv s) {kind : Kind} (hpc : (s.tasks t).pc = .hold kind) :
    DirectStep s (some t) (release s t kind none) [] := by
  cases kind with
  | read =>
    have hone : 1 ≤ s.readers := one_le_tally (i := t) (by simp [hpc, Pc.holds])
    obtain ⟨r, hr⟩ := Nat.exists_eq_add_of_le' hone
    have hshape := h.shape
    rw [hr] at hshape
    rcases hshape.upRead with ⟨hzero, hnext⟩ | ⟨hzero, hnext⟩
    · have := DirectStep.release t .read true r s.writers hpc hr rfl hnext
      simpa [release, Sys.released, hzero] using this
    · have := DirectStep.release t .read false r s.writers hpc hr rfl hnext
      simpa [release, Sys.released, hzero, afterRelease] using this
  | write =>
    have hone : 1 ≤ s.writers := one_le_tally (i := t) (by simp [hpc, Pc.holds])
    obtain ⟨H, hH⟩ := Nat.exists_eq_add_of_le' hone
    have hshape := h.shape
    rw [hH] at hshape
    rcases hshape.upWrite with ⟨hneg, hzero, hnext⟩ | ⟨hneg, hnext⟩
    · have heq : release s t .write none = s.released t .write true := by
        simp only [release, Sys.released]
        rw [if_pos ⟨hneg, hzero.ge⟩, if_neg (not_not.2 hzero), if_pos trivial]
      rw [heq]
      exact .release t .write true s.readers H hpc rfl hH hnext
    · have := DirectStep.release t .write false s.readers H hpc rfl hH hnext
      simpa [release, Sys.released, hneg, afterRelease] using this

lemma Inv.waker (h : Inv s) (hpc : (s.tasks t).pc = .setBit .write none) :
    s.granted .write = false ∧ ∃ P, s.wakers = P + 1 ∧
      Shape s.count (update s.granted .write true) s.readers s.writers s.waiters P := by
  have hone : 1 ≤ s.wakers := one_le_tally (decide_eq_true hpc)
  obtain ⟨P, hP⟩ := Nat.exists_eq_add_of_le' hone
  have hshape := h.shape
  rw [hP] at hshape
  exact ⟨hshape.setBit.1, P, hP, hshape.setBit.2⟩

/-- The step of a task that waits or wakes. -/
lemma run_direct (h : Inv s) (hstep : runStep s t = some (s', es)) :
    DirectStep s (some t) s' es := by
  unfold runStep at hstep
  rcases htask : s.tasks t with ⟨pc, st⟩
  have hpc : (s.tasks t).pc = pc := by rw [htask]
  have hd : pc.direct := hpc ▸ h.direct t
  simp only [hpc] at hstep
  unfold Pc.direct at hd
  split at hd
  case h_1 | h_2 => cases hstep
  case h_3 =>
    cases hstep
    exact .enqueue t hpc
  case h_4 =>
    -- the bit is tested, and taken if it is set
    simp only at hstep
    split_ifs at hstep with hg
    · cases hstep
      exact .takeBit t hpc hg
    · cases hstep
      apply DirectStep.loops t
      rw [htask]
      exact .miss st (Bool.eq_false_of_not_eq_true hg)
  case h_5 =>
    cases hstep
    apply DirectStep.loops t
    rw [htask]
    exact .setState st
  case h_6 =>
    -- the bit is tested once more, before the task sleeps
    cases hstep
    apply DirectStep.loops t
    rw [htask]
    split_ifs with hg
    · exact .again st hg
    · exact .sleep st (Bool.eq_false_of_not_eq_true hg)
  case h_7 =>
    simp only [Option.ite_none_right_eq_some] at hstep
    obtain ⟨hrun, rfl, rfl⟩ := hstep
    apply DirectStep.loops t
    rw [htask] at hrun ⊢
    rw [show st = .running from hrun]
    exact .woken
  case h_8 =>
    cases hstep
    exact .dequeue t hpc
  case h_9 =>
    cases hstep
    apply DirectStep.leaves t
    rw [htask]
    exact .setRunning st
  case h_10 =>
    cases hstep
    apply DirectStep.leaves t
    rw [htask]
    split_ifs
    · exact .wake st
    · exact .skip st
  case h_11 =>
    -- nobody waits on `sem->wait`
    simp only [h.wait_nil, wakeAll] at hstep
    cases hstep
    have := DirectStep.leaves t ⟨.hold .write, st⟩ (by rw [htask]; exact .done st)
    simpa only [Sys.setPc, Sys.setTask, htask, h.wait_nil] using this
  case h_12 =>
    simp only [(h.waker hpc).1] at hstep
    cases hstep
    exact .setBit t hpc
  case h_13 =>
    cases hstep
    exact .wakeUp t hpc
  case h_14 => cases hd

lemma step_direct {a : Act k} (h : Inv s) (hk : k < 0x01000000) (hok : a.Direct s)
    (hstep : step s a = some (s', es)) : DirectStep s a.task s' es := by
  cases a with
  | down kind t =>
    simp only [step, Option.ite_none_right_eq_some, Option.some.injEq] at hstep
    obtain ⟨hidle, heq⟩ := hstep
    have := down_direct h hk hidle hok
    rwa [heq] at this
  | up t =>
    simp only [step] at hstep
    split at hstep
    · rename_i kind hpc
      cases hstep
      exact up_direct h hpc
    · cases hstep
  | run t => exact run_direct h hstep
  | tick =>
    cases hstep
    exact .tick

/-! ## Every step keeps the invariant -/

lemma Shape.congr {count : ℤ} {granted : Kind → Bool} {r H W P r' H' W' P' : ℕ}
    (h : Shape count granted r H W P) (hr : r' = r) (hH : H' = H) (hW : W' = W) (hP : P' = P) :
    Shape count granted r' H' W' P' := by
  rw [hr, hH, hW, hP]
  exact h

/-- One task moves, and with it the counter, the bits or the queue. -/
lemma Inv.update (h : Inv s) {count : ℤ} {granted : Kind → Bool} {q : WaitQueue k} {task : Task}
    {r H W P : ℕ} (hshape : Shape count granted r H W P) (hc : Recount s t task r H W P)
    (hd : task.pc.direct)
    (hq : task.pc.onQueue → (t, true) ∈ q)
    (hkeep : ∀ u, u ≠ t → (u, true) ∈ s.writeBiasWait → (u, true) ∈ q)
    (hmem : ∀ e ∈ q, e.1 = t ∧ task.pc.onQueue ∨ e.1 ≠ t ∧ e ∈ s.writeBiasWait)
    (hatt : granted .write → ∃ u, (Function.update s.tasks t task u).Attends) :
    Inv ({ s with count := count, granted := granted, writeBiasWait := q }.setTask t task) := by
  have hc' := recount_setTask s t task
  constructor
  · apply hshape.congr
    · exact Nat.add_right_cancel (hc'.read.trans hc.read.symm)
    · exact Nat.add_right_cancel (hc'.write.trans hc.write.symm)
    · exact Nat.add_right_cancel (hc'.waits.trans hc.waits.symm)
    · exact Nat.add_right_cancel (hc'.waker.trans hc.waker.symm)
  · intro u
    rcases eq_or_ne u t with rfl | hu
    · simpa [Sys.setTask] using hd
    · simpa [Sys.setTask, hu] using h.direct u
  · exact h.wait_nil
  · intro u hon
    rcases eq_or_ne u t with rfl | hu
    · simp only [Sys.setTask, update_self] at hon
      exact hq hon
    · simp only [Sys.setTask, update_of_ne hu] at hon
      exact hkeep u hu (h.queued u hon)
  · intro e he
    rcases hmem e he with ⟨rfl, hon⟩ | ⟨hne, hold⟩
    · simpa [Sys.setTask] using hon
    · simpa [Sys.setTask, hne] using h.onQueue e hold
  · exact hatt

lemma Inv.attends_other (h : Inv s) {task : Task} (hno : ¬ (s.tasks t).Attends)
    (hg : s.granted .write) : ∃ u, (Function.update s.tasks t task u).Attends := by
  obtain ⟨u, hu⟩ := h.attended hg
  have hne : u ≠ t := by
    rintro rfl
    exact hno hu
  exact ⟨u, by rwa [update_of_ne hne]⟩

lemma attends_self {task : Task} (h : task.Attends) : ∃ u, (update s.tasks t task u).Attends :=
  ⟨t, by rwa [update_self]⟩

/-- One task moves, and the counts follow it. -/
lemma Inv.update_task (h : Inv s) {count : ℤ} {granted : Kind → Bool} {task : Task}
    {r H W P : ℕ} (hshape : Shape count granted r H W P) (hc : Recount s t task r H W P)
    (hd : task.pc.direct) (hon : task.pc.onQueue = (s.tasks t).pc.onQueue)
    (hatt : granted .write → ∃ u, (Function.update s.tasks t task u).Attends) :
    Inv ({ s with count := count, granted := granted }.setTask t task) := by
  apply h.update hshape hc hd
  · intro hq
    exact h.queued t (hon ▸ hq)
  · exact fun u _ hu => hu
  · intro e he
    rcases eq_or_ne e.1 t with het | het
    · exact .inl ⟨het, hon.trans (het ▸ h.onQueue e he)⟩
    · exact .inr ⟨het, he⟩
  · exact hatt

/-- Two places count the same. -/
structure SameRole (pc pc' : Pc) : Prop where
  read : pc.holds .read = pc'.holds .read
  write : pc.holds .write = pc'.holds .write
  waits : pc.waits = pc'.waits
  waker : decide (pc = .setBit .write none) = decide (pc' = .setBit .write none)
  onQueue : pc'.onQueue = pc.onQueue

/-- A task moves and keeps its part. -/
lemma Inv.update_same (h : Inv s) {task : Task} (hrole : SameRole (s.tasks t).pc task.pc)
    (hd : task.pc.direct)
    (hatt : s.granted .write → ∃ u, (Function.update s.tasks t task u).Attends) :
    Inv (s.setTask t task) := by
  refine h.update_task h.shape ⟨?_, ?_, ?_, ?_⟩ hd hrole.onQueue hatt
  · rw [hrole.read]
  · rw [hrole.write]
  · rw [hrole.waits]
  · rw [hrole.waker]

section Moves
variable {g : Bool} {task task' : Task}

lemma Loops.sameRole (h : Loops g task task') : SameRole task.pc task'.pc := by
  cases h <;> constructor <;> rfl

lemma Loops.direct (h : Loops g task task') : task'.pc.direct := by
  cases h <;> rfl

lemma Loops.waits (h : Loops g task task') : task'.pc.waits := by
  cases h <;> rfl

/-- While the bit is set nobody who looks at it goes to sleep. -/
lemma Loops.awake (h : Loops true task task') : ¬ task'.Asleep := by
  cases h <;> simp_all [Task.Asleep]

lemma Leaves.sameRole (h : Leaves task task') : SameRole task.pc task'.pc := by
  cases h <;> constructor <;> rfl

lemma Leaves.direct (h : Leaves task task') : task'.pc.direct := by
  cases h <;> rfl

lemma Leaves.not_attends (h : Leaves task task') : ¬ task.Attends := by
  cases h <;> simp [Task.Attends, Pc.waits]

end Moves

/-! ### `wake_up` -/

section WakeAll
variable {tasks : Fin k → Task} {q : WaitQueue k}

lemma wakeAll_pc (tasks : Fin k → Task) (q : WaitQueue k) (t : Fin k) :
    (wakeAll tasks q t).pc = (tasks t).pc := by
  induction q generalizing tasks with
  | nil => rfl
  | cons e rest ih =>
    have hset : ∀ u, (update tasks e.1 { tasks e.1 with state := .running } u).pc =
        (tasks u).pc := by
      intro u
      rcases eq_or_ne u e.1 with rfl | hu
      · rw [update_self]
      · rw [update_of_ne hu]
    unfold wakeAll
    split_ifs
    · exact ih tasks
    · exact hset t
    · exact (ih _).trans (hset t)

lemma wakeAll_running (h : (tasks t).state = .running) : (wakeAll tasks q t).state = .running := by
  induction q generalizing tasks with
  | nil => exact h
  | cons e rest ih =>
    have hset : (update tasks e.1 { tasks e.1 with state := .running } t).state = .running := by
      rcases eq_or_ne t e.1 with rfl | ht
      · rw [update_self]
      · rwa [update_of_ne ht]
    unfold wakeAll
    split_ifs
    · exact ih h
    · exact hset
    · exact ih hset

lemma wakeAll_awake (h : ¬ (tasks t).Asleep) : ¬ (wakeAll tasks q t).Asleep := by
  rintro ⟨⟨kind, hpc⟩, hstate⟩
  rw [wakeAll_pc] at hpc
  apply h
  refine ⟨⟨kind, hpc⟩, fun hrun => hstate (wakeAll_running hrun)⟩

/-- After `wake_up` on a queue that is not empty somebody on it is running. -/
lemma exists_running_wakeAll (tasks : Fin k → Task) (h : q ≠ []) :
    ∃ e ∈ q, (wakeAll tasks q e.1).state = .running := by
  cases q with
  | nil => exact absurd rfl h
  | cons e rest =>
    refine ⟨e, List.mem_cons_self, ?_⟩
    unfold wakeAll
    split_ifs with hrun
    · exact wakeAll_running hrun
    · rw [update_self]
    · apply wakeAll_running
      rw [update_self]

end WakeAll

/-- A wake-up by itself changes nothing that is counted. -/
lemma Inv.wakeAll (h : Inv s) (q : WaitQueue k) : Inv { s with tasks := wakeAll s.tasks q } := by
  constructor
  · apply h.shape.congr <;> exact tally_congr fun t => by rw [wakeAll_pc]
  · intro t
    rw [wakeAll_pc]
    exact h.direct t
  · exact h.wait_nil
  · intro t
    rw [wakeAll_pc]
    exact h.queued t
  · intro e he
    rw [wakeAll_pc]
    exact h.onQueue e he
  · intro hg
    obtain ⟨t, ht⟩ := h.attended hg
    refine ⟨t, ht.imp (fun ⟨hw, ha⟩ => ⟨?_, wakeAll_awake ha⟩) fun hpc => ?_⟩
    · rwa [wakeAll_pc]
    · rwa [wakeAll_pc]

lemma waits_of_onQueue {pc : Pc} (h : pc.onQueue) (hw : pc.holds .write = false) :
    pc.waits := by
  unfold Pc.onQueue at h
  split at h <;> first | rfl | exact absurd h (by decide) | simp [Pc.holds] at hw

lemma onQueue_of_asleep {task : Task} (h : task.Asleep) (hd : task.pc.direct) :
    task.pc.onQueue := by
  obtain ⟨⟨kind, hpc | hpc⟩, -⟩ := h
  · simp [hpc, Pc.direct] at hd
  · cases kind
    · simp [hpc, Pc.direct] at hd
    · rw [hpc]
      rfl

lemma writers_eq_zero (h : s.writers = 0) (t : Fin k) : (s.tasks t).pc.holds .write = false := by
  cases hpc : (s.tasks t).pc.holds .write with
  | false => rfl
  | true =>
    have hone : 1 ≤ s.writers := one_le_tally hpc
    omega

lemma exists_waits (h : 0 < s.waiters) : ∃ t, (s.tasks t).pc.waits := by
  obtain ⟨t, ht⟩ := exists_of_tally_pos h
  exact ⟨t, by cases hw : (s.tasks t).pc.waits <;> simp_all⟩

/-- The `wake_up` of a release leaves a waiting writer awake as long as the bit is set. -/
lemma Inv.attended_wakeUp (h : Inv s) (hpc : (s.tasks t).pc = .wakeUp .write none)
    (hg : s.granted .write) (task : Task) :
    ∃ u, (Function.update (Rw.wakeAll s.tasks s.writeBiasWait) t task u).Attends := by
  have hone : (s.granted .write).toNat = 1 := by rw [hg]; rfl
  have hW : 0 < s.waiters := by
    have := h.shape.quiet
    omega
  have hH : s.writers = 0 := by
    have := h.shape.one
    omega
  obtain ⟨u, hu⟩ := exists_waits hW
  have hut : u ≠ t := by
    rintro rfl
    simp [hpc, Pc.waits] at hu
  by_cases hsleep : (Rw.wakeAll s.tasks s.writeBiasWait u).Asleep
  · -- `u` was asleep, so the queue is not empty and somebody on it has been woken
    have hq : (u, true) ∈ s.writeBiasWait := by
      apply h.queued u
      have := onQueue_of_asleep hsleep (by rw [wakeAll_pc]; exact h.direct u)
      rwa [wakeAll_pc] at this
    obtain ⟨e, he, hrun⟩ := exists_running_wakeAll s.tasks (List.ne_nil_of_mem hq)
    have hon := h.onQueue e he
    have het : e.1 ≠ t := by
      rintro het
      simp [het, hpc, Pc.onQueue] at hon
    refine ⟨e.1, .inl ?_⟩
    rw [update_of_ne het, wakeAll_pc]
    exact ⟨waits_of_onQueue hon (writers_eq_zero hH e.1), fun hs => hs.2 hrun⟩
  · refine ⟨u, .inl ?_⟩
    rw [update_of_ne hut, wakeAll_pc]
    exact ⟨hu, hsleep⟩

/-- **Every direct step** keeps the invariant. -/
lemma Inv.directStep {a : Option (Fin k)} (h : Inv s) (hstep : DirectStep s a s' es) : Inv s' := by
  cases hstep with
  | tick => exact h
  | acquire t kind hidle _ hshape =>
    apply h.update_task hshape
    · cases kind <;> constructor <;> simp [hidle, Pc.holds, Pc.waits]
    · rfl
    · simp [hidle, Pc.onQueue]
    · exact h.attends_other (by simp [Task.Attends, hidle, Pc.waits])
  | wait t hidle hshape =>
    apply h.update_task hshape
    · constructor <;> simp [hidle, Pc.holds, Pc.waits]
    · rfl
    · simp [hidle, Pc.onQueue]
    · exact h.attends_other (by simp [Task.Attends, hidle, Pc.waits])
  | release t kind wakes r H hpc hr hH hshape =>
    apply h.update_task hshape
    · cases kind <;> cases wakes <;> constructor <;> simp [hpc, hr, hH, Pc.holds, Pc.waits]
    · cases wakes <;> rfl
    · cases wakes <;> simp [hpc, Pc.onQueue]
    · exact h.attends_other (by simp [Task.Attends, hpc, Pc.waits])
  | enqueue t hpc =>
    apply h.update h.shape
    · constructor <;> simp [hpc, Pc.holds, Pc.waits]
    · rfl
    · simp
    · simp +contextual
    · intro e he
      rw [List.mem_append, List.mem_singleton] at he
      rcases he with he | rfl
      · -- the task is not on the queue yet
        refine .inr ⟨fun het => ?_, he⟩
        have := h.onQueue e he
        simp [het, hpc, Pc.onQueue] at this
      · exact .inl ⟨rfl, rfl⟩
    · intro _
      apply attends_self
      exact .inl ⟨rfl, by simp [Task.Asleep]⟩
  | loops t task hl =>
    apply h.update_same hl.sameRole hl.direct
    intro hg
    rw [hg] at hl
    exact attends_self (.inl ⟨hl.waits, hl.awake⟩)
  | takeBit t hpc hg =>
    have hone : 1 ≤ s.waiters := one_le_tally (i := t) (by simp [hpc, Pc.waits])
    obtain ⟨W, hW⟩ := Nat.exists_eq_add_of_le' hone
    have hshape := h.shape
    rw [hW] at hshape
    apply h.update_task (hshape.takeBit hg)
    · constructor <;> simp [hpc, hW, Pc.holds, Pc.waits]
    · rfl
    · simp [hpc, Pc.onQueue]
    · simp
  | dequeue t hpc =>
    apply h.update h.shape
    · constructor <;> simp [hpc, Pc.holds, Pc.waits]
    · rfl
    · simp [Pc.onQueue]
    · intro u hu hmem
      simp [Rw.dequeue, hu, hmem]
    · intro e he
      simp only [Rw.dequeue, List.mem_filter, decide_eq_true_eq] at he
      exact .inr ⟨he.2, he.1⟩
    · exact h.attends_other (by simp [Task.Attends, hpc, Pc.waits])
  | leaves t task hl =>
    apply h.update_same hl.sameRole hl.direct
    exact h.attends_other hl.not_attends
  | setBit t hpc =>
    obtain ⟨-, P, hP, hshape⟩ := h.waker hpc
    apply h.update_task hshape
    · constructor <;> simp [hpc, hP, Pc.holds, Pc.waits]
    · rfl
    · simp [hpc, Pc.onQueue]
    · intro _
      exact attends_self (.inr rfl)
  | wakeUp t hpc =>
    have hpc' : (Rw.wakeAll s.tasks s.writeBiasWait t).pc = .wakeUp .write none := by
      rw [wakeAll_pc, hpc]
    apply (h.wakeAll s.writeBiasWait).update_same
    · rw [hpc']
      constructor <;> rfl
    · rfl
    · intro hg
      exact h.attended_wakeUp hpc hg _

lemma Inv.initial : Inv (initial k) := by
  constructor
  · have hr : (Rw.initial k).readers = 0 := tally_eq_zero fun _ => rfl
    have hH : (Rw.initial k).writers = 0 := tally_eq_zero fun _ => rfl
    have hW : (Rw.initial k).waiters = 0 := tally_eq_zero fun _ => rfl
    have hP : (Rw.initial k).wakers = 0 := tally_eq_zero fun _ => rfl
    rw [hr, hH, hW, hP]
    constructor <;> simp [Rw.initial, rwLockBias]
  · exact fun _ => rfl
  · rfl
  · nofun
  · nofun
  · nofun

end PsxLinux.Sema.Rw
