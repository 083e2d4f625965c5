import PsxLinux.Proc.TreeTheorems

/-!
# Every order of clone, exit and wait

From the state after boot, in which `init` is the only task beside the idle task, the links stay a
tree as long as no exit hands children to a thread that is unfit for them, and `init` does not give
the idle task a child.
-/

namespace PsxLinux.Proc

open Lib

/-- The state after boot. The threads of the idle task and of `init` may be in one ring. -/
structure Procs.Boot (s : Procs) : Prop where
  tasks : s.tasks = [init]
  initPptr : s.pPptr init = idle
  initOpptr : s.pOpptr init = idle
  idleOpptr : s.pOpptr idle = s.pPptr idle
  idleCptr : s.pCptr idle = some init
  initCptr : s.pCptr init = none
  initOsptr : s.pOsptr init = none
  initYsptr : s.pYsptr init = none
  idleLive : s.zombie idle = false
  initLive : s.zombie init = false
  threads : s.ThreadsOk

def bootChildren (a : Nat) : List Nat := if a = idle then [init] else []

lemma Procs.Boot.ok {s : Procs} (h : s.Boot) : s.Ok bootChildren := by
  have hne : init ≠ idle := by decide
  have hmem : ∀ q, q ∈ s.tasks ↔ q = init := by simp [h.tasks]
  refine ⟨?_, ?_, ?_, ?_, ?_, ?_, ?_, ?_, h.initPptr, h.initLive, ?_, h.threads⟩
  · rw [h.tasks]
    exact List.nodup_singleton _
  · rw [hmem]
    exact Ne.symm hne
  · rw [hmem]
  · rintro a (rfl | ha)
    · rw [h.idleCptr]
      exact ⟨⟨rfl, h.initOsptr⟩, ⟨h.initYsptr, trivial⟩, List.nodup_singleton _⟩
    · obtain rfl := (hmem a).1 ha
      rw [h.initCptr]
      exact HeadList.isList_nil
  · rintro a p ha
    rw [hmem]
    unfold bootChildren
    split_ifs with haidle
    · rw [haidle, List.mem_singleton]
      constructor
      · rintro rfl
        exact ⟨rfl, h.initPptr⟩
      · exact fun hp => hp.1
    · simp only [List.not_mem_nil, false_iff, not_and]
      rintro rfl heq
      exact haidle (heq.symm.trans h.initPptr)
  · rintro p (rfl | hp)
    · exact h.idleOpptr
    · rw [(hmem p).1 hp, h.initOpptr, h.initPptr]
  · intro p hp hinit
    exact absurd ((hmem p).1 hp) hinit
  · intro p hp
    rw [(hmem p).1 hp, h.initPptr]
    exact h.idleLive
  · intro p hp
    rw [(hmem p).1 hp]
    exact reaches_init

/-- No step puts a child under a task that is unfit for it: `init` does not fork with `CLONE_PARENT`
unless with `CLONE_VFORK`, and whoever inherits the children of an exit is fit. -/
def Act.KeepsTree (s : Procs) : Act → Prop
  | .fork cur flags _ => ¬ (cur = init ∧ flags.parent ∧ flags.vfork = false)
  | .exit cur => s.InheritsOk cur
  | .wait .. => True

lemma step_ok {s t : Procs} {act : Act} {es : List Unit} {children : Nat → List Nat}
    (h : s.Ok children) (henabled : act.Enabled s) (hkeeps : act.KeepsTree s)
    (hstep : step s act = some (t, es)) : ∃ children', t.Ok children' := by
  cases act with
  | fork cur flags alloc =>
    cases hstep
    obtain ⟨⟨hcur, hlive⟩, hnew⟩ := henabled
    cases alloc with
    | none => exact ⟨children, h⟩
    | some p =>
      obtain ⟨hp, hidle⟩ := hnew p rfl
      exact ⟨_, h.doFork flags hcur hlive hp hidle hkeeps⟩
  | exit cur =>
    obtain ⟨⟨hcur, -⟩, hinit⟩ := henabled
    obtain ⟨t', children', hexit, ht'⟩ := h.exitNotify hcur hinit hkeeps
    rw [step, hexit] at hstep
    cases hstep
    exact ⟨children', ht'⟩
  | wait cur noThread copies accept stopped =>
    obtain ⟨t', hwait, ht'⟩ := Option.map_eq_some_iff.1 hstep
    cases ht'
    exact h.sysWait4 henabled.1 hwait

/-- **The process tree.** In every state of such a run both parent pointers of a task agree;
following them from a task leads to `init`; the sibling links of every task, linked both ways, list
exactly its children, each once; the parent of every task is itself a task, never a released one, and
has not exited; and an exit in it finishes. -/
theorem process_tree {s₀ s : Procs} {acts : List Act} {es : List Unit} (h₀ : s₀.Boot)
    (hrun : Exec step (fun s act => act.Enabled s ∧ act.KeepsTree s) s₀ acts es s) :
    (∀ p, s.Member p → s.pPptr p = s.pOpptr p) ∧
    (∀ p ∈ s.tasks, ∃ k, s.pPptr^[k] p = init) ∧
    (∀ a, s.Member a → ∃ l, HeadList.IsList s.pOsptr s.pYsptr (s.pCptr a) l ∧
      ∀ p, p ∈ l ↔ p ∈ s.tasks ∧ s.pPptr p = a) ∧
    (∀ p ∈ s.tasks, s.Member (s.pPptr p) ∧ (p ≠ init → s.pPptr p ∈ s.tasks) ∧
      s.zombie (s.pPptr p) = false) ∧
    ∀ cur, (Act.exit cur).Enabled s → (Act.exit cur).KeepsTree s →
      (s.exitNotify cur).isSome := by
  obtain ⟨children, hok⟩ : ∃ children, s.Ok children := by
    refine hrun.invariant_state (P := fun s => ∃ children, s.Ok children) ⟨_, h₀.ok⟩ ?_
    rintro t act u fs ⟨children, ht⟩ ⟨henabled, hkeeps⟩ hstep
    exact step_ok ht henabled hkeeps hstep
  refine ⟨fun p hp => (hok.same p hp).symm, hok.reaches, ?_, ?_, ?_⟩
  · intro a ha
    exact ⟨children a, hok.lists a ha, fun p => hok.children a p ha⟩
  · intro p hp
    exact ⟨hok.memberParent hp, hok.parent p hp, hok.live p hp⟩
  · rintro cur ⟨⟨hcur, -⟩, hinit⟩ hkeeps
    obtain ⟨t, children', hexit, -⟩ := hok.exitNotify hcur hinit hkeeps
    rw [hexit]
    rfl

/-- After boot, with the idle task and `init` as two threads of one group. -/
def bootProcs : Procs where
  tasks := [init]
  pPptr := fun _ => idle
  pOpptr := fun _ => idle
  pCptr := fun p => if p = idle then some init else none
  pOsptr := fun _ => none
  pYsptr := fun _ => none
  threadNext := fun p => if p = idle then init else if p = init then idle else p
  threadPrev := fun p => if p = idle then init else if p = init then idle else p
  zombie := fun _ => false

lemma bootProcs_boot : bootProcs.Boot := by
  refine ⟨rfl, rfl, rfl, rfl, rfl, rfl, rfl, rfl, rfl, rfl, ?_⟩
  have hmem : ∀ p, bootProcs.Member p → p = idle ∨ p = init := by
    rintro p (hp | hp)
    · exact .inl hp
    · exact .inr (List.mem_singleton.1 hp)
  constructor
  all_goals
    intro p hp
    rcases hmem p hp with rfl | rfl
  · exact .inr (by decide)
  · exact .inl (by decide)
  · exact .inr (by decide)
  · exact .inl (by decide)
  all_goals decide

def plainFork : CloneFlags := ⟨false, false, false⟩

/-- Task 2 has started the thread 3 with `CLONE_PARENT` and the child 4. -/
def threadProcs : Procs := ((bootProcs.doFork 1 plainFork (some 2)).doFork 2 ⟨true, true, false⟩
  (some 3)).doFork 2 plainFork (some 4)

/-- When task 2 exits the thread inherits the child. -/
theorem process_tree_thread : ∃ s es, Exec step (fun s act => act.Enabled s ∧ act.KeepsTree s)
      bootProcs [.fork 1 plainFork (some 2), .fork 2 ⟨true, true, false⟩ (some 3),
        .fork 2 plainFork (some 4), .exit 2] es s ∧
    s.pPptr 4 = 3 ∧ s.zombie 2 ∧ ∃ k, s.pPptr^[k] 4 = init := by
  refine Exec.exists_imp (P := fun s _ => s.pPptr 4 = 3 ∧ s.zombie 2 ∧ 4 ∈ s.tasks) ?_
    fun s es hexec ⟨hparent, hzombie, hmem⟩ =>
      ⟨hparent, hzombie, (process_tree bootProcs_boot hexec).2.1 4 hmem⟩
  -- the thread has the parents `init` and the idle task
  have hpath : ∀ q, q = 3 ∨ q = 1 ∨ q = 0 → threadProcs.pPptr q = 3 ∨ threadProcs.pPptr q = 1 ∨
      threadProcs.pPptr q = 0 := by
    rintro q (rfl | rfl | rfl) <;> decide
  refine ⟨_, _, .tail (.tail (.tail (.tail (.refl _)
    ⟨⟨by decide, by rintro p ⟨⟩; decide⟩, by unfold Act.KeepsTree; decide⟩ rfl)
    ⟨⟨by decide, by rintro p ⟨⟩; decide⟩, by unfold Act.KeepsTree; decide⟩ rfl)
    ⟨⟨by decide, by rintro p ⟨⟩; decide⟩, by unfold Act.KeepsTree; decide⟩ rfl)
    ⟨⟨by decide, by decide⟩, .inr (.inr ⟨by decide, by decide, fun k => ?_⟩)⟩ rfl,
    by decide, by decide, by decide⟩
  have hk : threadProcs.pPptr^[k] 3 = 3 ∨ threadProcs.pPptr^[k] 3 = 1 ∨
      threadProcs.pPptr^[k] 3 = 0 :=
    Function.Iterate.rec (fun q => q = 3 ∨ q = 1 ∨ q = 0) (.inl rfl) hpath k
  intro heq
  have hthree : threadProcs.pPptr^[k] 3 = 2 := heq
  omega

/-- Task 2 starts the thread 3 without `CLONE_PARENT`, a child of its own, and exits: the thread
inherits itself, and nobody can reap it. -/
theorem exit_selfParent : ∃ s es, Exec step (fun s act => act.Enabled s) bootProcs
      [.fork 1 plainFork (some 2), .fork 2 ⟨false, true, false⟩ (some 3), .exit 2] es s ∧
    3 ∈ s.tasks ∧ s.pPptr 3 = 3 ∧ ¬ ∃ k, s.pPptr^[k] 3 = init := by
  refine Exec.exists_imp (P := fun s _ => 3 ∈ s.tasks ∧ s.pPptr 3 = 3) ?_
    fun s es _ ⟨hmem, hself⟩ => ⟨hmem, hself, ?_⟩
  · refine ⟨_, _, .tail (.tail (.tail (.refl _) ⟨by decide, ?_⟩ rfl) ⟨by decide, ?_⟩ rfl)
      ⟨by decide, by decide⟩ rfl, by decide, by decide⟩
    all_goals
      rintro p ⟨⟩
      decide
  · rintro ⟨k, hk⟩
    rw [Function.iterate_fixed hself] at hk
    revert hk
    decide

end PsxLinux.Proc
