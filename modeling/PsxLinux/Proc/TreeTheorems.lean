import PsxLinux.Proc.Tree
import Mathlib.Data.List.Perm.Subperm

/-!
# The process tree stays a tree

`Procs.Ok` says that the child lists enumerate the children, that the parent of every task has not
exited, and that following the parents leads to `init`. Forks and waits keep it. An exit hands the
children to the next thread, whoever that is: it must not be a zombie, nor the idle task, nor a
descendant of the task that exits.
-/

namespace PsxLinux.Proc

open Lib Function List HeadList

/-- A task that exists, or the idle task. -/
def Procs.Member (s : Procs) (p : Nat) : Prop := p = idle ∨ p ∈ s.tasks

/-- The ring of threads is linked both ways and made of tasks. -/
structure Procs.ThreadsOk (s : Procs) : Prop where
  nextMember : ∀ p, s.Member p → s.Member (s.threadNext p)
  prevMember : ∀ p, s.Member p → s.Member (s.threadPrev p)
  prevNext : ∀ p, s.Member p → s.threadPrev (s.threadNext p) = p
  nextPrev : ∀ p, s.Member p → s.threadNext (s.threadPrev p) = p

/-- Following the parents leads to `init`. -/
def Reaches (pPptr : Nat → Nat) (p : Nat) : Prop := ∃ k, pPptr^[k] p = init

/-- The links form a tree, with these lists of children. -/
structure Procs.Ok (s : Procs) (children : Nat → List Nat) : Prop where
  nodup : s.tasks.Nodup
  noIdle : idle ∉ s.tasks
  hasInit : init ∈ s.tasks
  lists : ∀ a, s.Member a → HeadList.IsList s.pOsptr s.pYsptr (s.pCptr a) (children a)
  children : ∀ a p, s.Member a → (p ∈ children a ↔ p ∈ s.tasks ∧ s.pPptr p = a)
  same : ∀ p, s.Member p → s.pOpptr p = s.pPptr p
  parent : ∀ p ∈ s.tasks, p ≠ init → s.pPptr p ∈ s.tasks
  live : ∀ p ∈ s.tasks, s.zombie (s.pPptr p) = false
  initParent : s.pPptr init = idle
  initLive : s.zombie init = false
  reaches : ∀ p ∈ s.tasks, Reaches s.pPptr p
  threads : s.ThreadsOk

section Reaches
variable {f g : Nat → Nat} {p q : Nat}
variable {noThread : Bool}

lemma reaches_init : Reaches f init := ⟨0, rfl⟩

lemma Reaches.step (h : Reaches f (f p)) : Reaches f p := by
  obtain ⟨k, hk⟩ := h
  exact ⟨k + 1, hk⟩

lemma Reaches.congr {S : Nat → Prop} (h : Reaches f p) (hp : S p)
    (hclosed : ∀ q, S q → q ≠ init → S (f q)) (hsame : ∀ q, S q → q ≠ init → g q = f q) :
    Reaches g p := by
  obtain ⟨k, hk⟩ := h
  induction k generalizing p with
  | zero => exact ⟨0, hk⟩
  | succ k ih =>
    by_cases hinit : p = init
    · exact ⟨0, hinit⟩
    · apply Reaches.step
      rw [hsame p hp hinit]
      exact ih (hclosed p hp hinit) hk

end Reaches

/-! ## Rings -/

/-- On a set that `f` keeps, `g` undoes `f`. -/
def UndoneOn (S : Nat → Prop) (f g : Nat → Nat) : Prop := ∀ q, S q → S (f q) ∧ g (f q) = q

section UndoneOn
variable {S T : Nat → Prop} {f g f' g' : Nat → Nat} {a b p : Nat}

lemma UndoneOn.congr (h : UndoneOn S f g) (hf : ∀ q, S q → f' q = f q)
    (hg : ∀ q, S q → g' q = g q) : UndoneOn S f' g' := by
  intro q hq
  obtain ⟨hmem, hback⟩ := h q hq
  rw [hf q hq, hg _ hmem]
  exact ⟨hmem, hback⟩

lemma UndoneOn.insert_self (h : UndoneOn S f g) (hT : ∀ q, T q ↔ S q ∨ q = p) (hf : f p = p)
    (hg : g p = p) : UndoneOn T f g := by
  intro q hq
  rcases (hT q).1 hq with hq' | rfl
  · exact ⟨(hT _).2 (.inl (h q hq').1), (h q hq').2⟩
  · rw [hf]
    exact ⟨hq, hg⟩

/-- Insertion between two neighbours, as `list_add` does it. -/
lemma UndoneOn.insert (h : UndoneOn S f g) (hT : ∀ q, T q ↔ S q ∨ q = p) (hp : ¬ S p) (ha : S a)
    (hb : f a = b) (hf : ∀ q, f' q = if q = a then p else if q = p then b else f q)
    (hg : ∀ q, g' q = if q = b then p else if q = p then a else g q) : UndoneOn T f' g' := by
  obtain ⟨hbm, hba⟩ := h a ha
  rw [hb] at hbm hba
  have hne : ∀ q, S q → q ≠ p := fun q hq heq => hp (heq ▸ hq)
  intro q hq
  rw [hf q, hT]
  split_ifs with h₁ h₂
  · rw [hg, if_neg (hne b hbm).symm, if_pos rfl, h₁]
    exact ⟨.inr rfl, rfl⟩
  · rw [hg, if_pos rfl, h₂]
    exact ⟨.inl hbm, rfl⟩
  · obtain ⟨hmem, hback⟩ := h q (((hT q).1 hq).resolve_right h₂)
    have hnot : f q ≠ b := by
      intro heq
      apply h₁
      rw [← hback, heq, hba]
    rw [hg, if_neg hnot, if_neg (hne _ hmem)]
    exact ⟨.inl hmem, hback⟩

/-- Removal, as `list_del` does it. -/
lemma UndoneOn.erase (h : UndoneOn S f g) (hT : ∀ q, T q ↔ S q ∧ q ≠ p) (hp : S p)
    (hf : ∀ q, f' q = if q = g p then f p else f q)
    (hg : ∀ q, g' q = if q = f p then g p else g q) : UndoneOn T f' g' := by
  intro q hq
  obtain ⟨hq', hqp⟩ := (hT q).1 hq
  obtain ⟨hpm, hpback⟩ := h p hp
  obtain ⟨hmem, hback⟩ := h q hq'
  rw [hf q, hT]
  split_ifs with h₁
  · rw [hg, if_pos rfl, h₁]
    refine ⟨⟨hpm, fun heq => hqp ?_⟩, rfl⟩
    rw [heq] at hpback
    exact h₁.trans hpback
  · have hne : f q ≠ f p := by
      intro heq
      apply hqp
      rw [← hback, heq, hpback]
    rw [hg, if_neg hne]
    refine ⟨⟨hmem, fun heq => h₁ ?_⟩, hback⟩
    rw [← heq, hback]

end UndoneOn

namespace Procs

variable {s : Procs} {children : Nat → List Nat} {cur p : Nat}

lemma Ok.memberInit (h : s.Ok children) : s.Member init := .inr h.hasInit

lemma Ok.memberParent (h : s.Ok children) (hp : p ∈ s.tasks) : s.Member (s.pPptr p) := by
  by_cases hinit : p = init
  · rw [hinit, h.initParent]
    exact .inl rfl
  · exact .inr (h.parent p hp hinit)

lemma Ok.not_mem_children (h : s.Ok children) {a : Nat} (ha : s.Member a)
    (hne : s.pPptr p ≠ a) : p ∉ children a :=
  fun hmem => hne ((h.children a p ha).1 hmem).2

/-! ## Threads -/

lemma threadsOk_iff : s.ThreadsOk ↔ UndoneOn s.Member s.threadNext s.threadPrev ∧
    UndoneOn s.Member s.threadPrev s.threadNext :=
  ⟨fun h => ⟨fun q hq => ⟨h.nextMember q hq, h.prevNext q hq⟩,
      fun q hq => ⟨h.prevMember q hq, h.nextPrev q hq⟩⟩,
    fun h => ⟨fun q hq => (h.1 q hq).1, fun q hq => (h.2 q hq).1, fun q hq => (h.1 q hq).2,
      fun q hq => (h.2 q hq).2⟩⟩

lemma member_append {t : Procs} (htasks : t.tasks = s.tasks ++ [p]) (q : Nat) :
    t.Member q ↔ s.Member q ∨ q = p := by
  unfold Member
  rw [htasks, mem_append, mem_singleton, or_assoc]

lemma ThreadsOk.listAdd (h : s.ThreadsOk) (hcur : s.Member cur) (hp : ¬ s.Member p)
    {t : Procs} (htasks : t.tasks = s.tasks ++ [p])
    (hnext : t.threadNext = (s.listAdd p cur).threadNext)
    (hprev : t.threadPrev = (s.listAdd p cur).threadPrev) : t.ThreadsOk := by
  have hmember := member_append htasks
  have hnm := h.nextMember cur hcur
  have hnp : s.threadNext cur ≠ p := fun heq => hp (heq ▸ hnm)
  -- the two links that change, and the two new ones
  have hn : ∀ q, t.threadNext q = if q = cur then p else if q = p then s.threadNext cur
      else s.threadNext q := by
    intro q
    rw [hnext]
    simp only [Procs.listAdd, update_apply]
  have hv : ∀ q, t.threadPrev q = if q = s.threadNext cur then p else if q = p then cur
      else s.threadPrev q := by
    intro q
    rw [hprev]
    simp only [Procs.listAdd, update_apply]
    split_ifs with h₁ h₂
    · exact absurd (h₂.symm.trans h₁) hnp
    all_goals rfl
  obtain ⟨hnv, hvn⟩ := threadsOk_iff.1 h
  exact threadsOk_iff.2 ⟨hnv.insert hmember hp hcur rfl hn hv,
    hvn.insert hmember hp hnm (h.prevNext cur hcur) hv hn⟩

lemma ThreadsOk.alone (h : s.ThreadsOk) (hp : ¬ s.Member p) {t : Procs}
    (htasks : t.tasks = s.tasks ++ [p])
    (hnext : t.threadNext = update s.threadNext p p)
    (hprev : t.threadPrev = update s.threadPrev p p) : t.ThreadsOk := by
  have hmember := member_append htasks
  have hself {f : Nat → Nat} : update f p p p = p := update_self ..
  have hold {f : Nat → Nat} (q : Nat) (hq : s.Member q) : update f p p q = f q :=
    update_of_ne (by rintro rfl; exact hp hq) _ _
  obtain ⟨hnv, hvn⟩ := threadsOk_iff.1 h
  rw [threadsOk_iff, hnext, hprev]
  exact ⟨(hnv.congr hold hold).insert_self hmember hself hself,
    (hvn.congr hold hold).insert_self hmember hself hself⟩

lemma ThreadsOk.listDel (h : s.ThreadsOk) (hp : s.Member p) {t : Procs}
    (hmember : ∀ q, t.Member q ↔ s.Member q ∧ q ≠ p)
    (hnext : t.threadNext = (s.listDel p).threadNext)
    (hprev : t.threadPrev = (s.listDel p).threadPrev) : t.ThreadsOk := by
  have hn : ∀ q, t.threadNext q = if q = s.threadPrev p then s.threadNext p
      else s.threadNext q := by
    intro q
    rw [hnext]
    simp only [Procs.listDel, update_apply]
  have hv : ∀ q, t.threadPrev q = if q = s.threadNext p then s.threadPrev p
      else s.threadPrev q := by
    intro q
    rw [hprev]
    simp only [Procs.listDel, update_apply]
  obtain ⟨hnv, hvn⟩ := threadsOk_iff.1 h
  exact threadsOk_iff.2 ⟨hnv.erase hmember hp hn hv, hvn.erase hmember hp hv hn⟩

/-! ## `do_fork` -/

/-- Where a new task hangs. -/
def forkParent (s : Procs) (cur : Nat) (flags : CloneFlags) : Nat :=
  if flags.vfork ∨ flags.parent = false then cur else s.pPptr cur

/-- The child lists after a fork. -/
def forkChildren (s : Procs) (children : Nat → List Nat) (cur p : Nat) (flags : CloneFlags) :
    Nat → List Nat :=
  fun a => if a = p then [] else
    if a = s.forkParent cur flags then p :: children a else children a

lemma doFork_eq (flags : CloneFlags) : ∃ next prev, s.doFork cur flags (some p) =
    { tasks := s.tasks ++ [p]
      pPptr := update s.pPptr p (s.forkParent cur flags)
      pOpptr := update s.pOpptr p (if flags.vfork ∨ flags.parent = false then cur else s.pOpptr cur)
      pCptr := update (update s.pCptr p none) (s.forkParent cur flags) (some p)
      pOsptr := (pushFront s.pOsptr s.pYsptr (update s.pCptr p none (s.forkParent cur flags)) p).1
      pYsptr := (pushFront s.pOsptr s.pYsptr (update s.pCptr p none (s.forkParent cur flags)) p).2
      threadNext := next
      threadPrev := prev
      zombie := update s.zombie p false } := by
  have hparent : ∀ t : Procs, t.pPptr = update s.pPptr p (s.forkParent cur flags) →
      t.pPptr p = s.forkParent cur flags := fun t ht => by rw [ht, update_self]
  unfold doFork
  dsimp only
  split
  all_goals
    unfold setLinks
    rw [hparent _ rfl]
    exact ⟨_, _, rfl⟩

lemma doFork_threads (h : s.ThreadsOk) (hcur : s.Member cur) (hp : ¬ s.Member p)
    (flags : CloneFlags) : (s.doFork cur flags (some p)).ThreadsOk := by
  have hcopy : (s.copyTask cur p flags).ThreadsOk := by
    have hold {f : Nat → Nat} {x : Nat} (q : Nat) (hq : s.Member q) : update f p x q = f q :=
      update_of_ne (by rintro rfl; exact hp hq) _ _
    obtain ⟨hnv, hvn⟩ := threadsOk_iff.1 h
    exact threadsOk_iff.2 ⟨hnv.congr hold hold, hvn.congr hold hold⟩
  unfold doFork
  dsimp only
  split
  · exact hcopy.listAdd hcur hp rfl rfl rfl
  · exact h.alone hp rfl rfl rfl

/-- A fork hangs a new task under its parent, which is not the idle task. -/
lemma Ok.doFork (h : s.Ok children) (flags : CloneFlags) (hcur : cur ∈ s.tasks)
    (hlive : s.zombie cur = false) (hp : p ∉ s.tasks) (hidle : p ≠ idle)
    (hnotInit : ¬ (cur = init ∧ flags.parent ∧ flags.vfork = false)) :
    (s.doFork cur flags (some p)).Ok (s.forkChildren children cur p flags) := by
  have hpm : ¬ s.Member p := fun hm => hm.elim hidle hp
  have hne : ∀ q, s.Member q → q ≠ p := by
    rintro q hq rfl
    exact hpm hq
  -- the parent is the current task or its parent, a task that has not exited
  obtain ⟨hparent, hparentLive⟩ : s.forkParent cur flags ∈ s.tasks ∧
      s.zombie (s.forkParent cur flags) = false := by
    unfold forkParent
    split
    case isTrue => exact ⟨hcur, hlive⟩
    case isFalse hshare =>
      refine ⟨h.parent cur hcur ?_, h.live cur hcur⟩
      rintro rfl
      rw [not_or] at hshare
      exact hnotInit ⟨rfl, by simpa using hshare.2, by simpa using hshare.1⟩
  have hparentMember : s.Member (s.forkParent cur flags) := .inr hparent
  have hparentNe := hne _ hparentMember
  have hthreads := doFork_threads h.threads (.inr hcur) hpm flags
  obtain ⟨next, prev, heq⟩ := @doFork_eq s cur p flags
  rw [heq, update_of_ne hparentNe] at hthreads
  rw [heq, update_of_ne hparentNe]
  have hold : ∀ q ∈ s.tasks ++ [p], q ≠ p → q ∈ s.tasks := fun q hq hqp => by simpa [hqp] using hq
  refine ⟨?_, ?_, mem_append_left _ h.hasInit, ?_, ?_, ?_, ?_, ?_, ?_, ?_, ?_, hthreads⟩
  · exact nodup_append.2 ⟨h.nodup, nodup_singleton p, by simpa using fun q hq => hne q (.inr hq)⟩
  · simpa using ⟨h.noIdle, Ne.symm hidle⟩
  · -- the lists
    intro a ha
    unfold forkChildren
    dsimp only
    split_ifs with hap hparent'
    · rw [hap, update_of_ne (Ne.symm hparentNe), update_self]
      exact isList_nil
    · rw [hparent', update_self]
      exact (h.lists _ hparentMember).pushFront fun hmem =>
        hp ((h.children _ p hparentMember).1 hmem).1
    · have ha' : s.Member a := ha.imp_right fun ha => hold a ha hap
      rw [update_of_ne hparent', update_of_ne hap]
      refine (h.lists a ha').congr ?_ ?_
      · intro q hq
        exact pushFront_next_of_ne (hne q (.inr ((h.children a q ha').1 hq).1))
      · intro q hq
        obtain ⟨hqt, hqa⟩ := (h.children a q ha').1 hq
        refine pushFront_prev_of_not_mem (h.lists _ hparentMember).chain ?_ (hne q (.inr hqt))
        exact h.not_mem_children hparentMember (by rw [hqa]; exact hparent')
  · -- their entries
    intro a q ha
    have hentry : (q ∈ s.tasks ++ [p] ∧ update s.pPptr p (s.forkParent cur flags) q = a) ↔
        (q = p ∧ s.forkParent cur flags = a) ∨ (q ∈ s.tasks ∧ s.pPptr q = a) := by
      by_cases hqp : q = p
      · simp [hqp, hp]
      · simp [hqp]
    refine Iff.trans ?_ hentry.symm
    unfold forkChildren
    split_ifs with hap hparent'
    · -- nobody is a child of the new task
      simp only [not_mem_nil, false_iff]
      rintro (⟨-, heq⟩ | ⟨hq, heq⟩)
      · exact hparentNe (heq.trans hap)
      · exact hpm (hap ▸ heq ▸ h.memberParent hq)
    · rw [mem_cons, h.children a q (hparent' ▸ hparentMember)]
      simp [hparent']
    · rw [h.children a q (ha.imp_right fun ha => hold a ha hap)]
      simp [Ne.symm hparent']
  · intro q hq
    dsimp only
    by_cases hqp : q = p
    · subst hqp
      rw [update_self, update_self, forkParent, h.same cur (.inr hcur)]
    · rw [update_of_ne hqp, update_of_ne hqp]
      exact h.same q (hq.imp_right fun hq => hold q hq hqp)
  · intro q hq hinit
    dsimp only
    by_cases hqp : q = p
    · rw [hqp, update_self]
      exact mem_append_left _ hparent
    · rw [update_of_ne hqp]
      exact mem_append_left _ (h.parent q (hold q hq hqp) hinit)
  · intro q hq
    dsimp only
    by_cases hqp : q = p
    · rw [hqp, update_self, update_of_ne hparentNe]
      exact hparentLive
    · have hq' := hold q hq hqp
      rw [update_of_ne hqp, update_of_ne (hne _ (h.memberParent hq'))]
      exact h.live q hq'
  · exact (update_of_ne (hne _ h.memberInit) _ _).trans h.initParent
  · exact (update_of_ne (hne _ h.memberInit) _ _).trans h.initLive
  · -- the old ways to `init` do not meet the new task
    have hways : ∀ q ∈ s.tasks, Reaches (update s.pPptr p (s.forkParent cur flags)) q :=
      fun q hq => (h.reaches q hq).congr hq (fun r hr => h.parent r hr) fun r hr _ =>
        update_of_ne (hne r (.inr hr)) _ _
    intro q hq
    by_cases hqp : q = p
    · apply Reaches.step
      dsimp only
      rw [hqp, update_self]
      exact hways _ hparent
    · exact hways q (hold q hq hqp)

/-! ## `exit_notify` -/

/-- The children `l` of one task have gone to `r`, which had the children `lr`. -/
structure Moved (s t : Procs) (cur r : Nat) (l lr : List Nat) : Prop where
  tasks : t.tasks = s.tasks
  opptr : t.pOpptr = s.pOpptr
  zombie : t.zombie = s.zombie
  threadNext : t.threadNext = s.threadNext
  threadPrev : t.threadPrev = s.threadPrev
  left : t.pCptr cur = none
  pptr : ∀ q, t.pPptr q = if q ∈ l then r else s.pPptr q
  list : HeadList.IsList t.pOsptr t.pYsptr (t.pCptr r) (l.reverse ++ lr)
  cptr : ∀ a, a ≠ cur → a ≠ r → t.pCptr a = s.pCptr a
  links : ∀ q, q ∉ l → q ∉ lr → t.pOsptr q = s.pOsptr q ∧ t.pYsptr q = s.pYsptr q

lemma moveChildren_moved {r : Nat} {l lr : List Nat} {fuel : Nat} (hfuel : l.length < fuel)
    (hcur : TailQueue.Chain s.pOsptr (s.pCptr cur) l)
    (hr : HeadList.IsList s.pOsptr s.pYsptr (s.pCptr r) lr) (hne : r ≠ cur)
    (hop : ∀ q ∈ l, s.pOpptr q = r) (hnodup : (l ++ lr).Nodup) :
    ∃ t, moveChildren fuel s cur = some t ∧ Moved s t cur r l lr := by
  -- induction on the children that are left
  induction l generalizing s fuel lr with
  | nil =>
    obtain _ | fuel := fuel
    · omega
    have hnone : s.pCptr cur = none := hcur
    refine ⟨s, ?_, ⟨rfl, rfl, rfl, rfl, rfl, hnone, by simp, hr, fun _ _ _ => rfl,
      fun _ _ _ => ⟨rfl, rfl⟩⟩⟩
    rw [moveChildren, hnone]
  | cons p l ih =>
    obtain _ | fuel := fuel
    · omega
    obtain ⟨hhead, hrest⟩ := hcur
    rw [cons_append, nodup_cons, mem_append, not_or] at hnodup
    obtain ⟨⟨hpl, hplr⟩, hnodup⟩ := hnodup
    have hparent : s.pOpptr p = r := hop p (by simp)
    have hrcptr : update s.pCptr cur (s.pOsptr p) r = s.pCptr r :=
      update_of_ne hne _ _
    -- the child stands in front of the new brothers
    have hlist : HeadList.IsList (s.moveChild cur p).pOsptr (s.moveChild cur p).pYsptr
        ((s.moveChild cur p).pCptr r) (p :: lr) := by
      have hclear : HeadList.IsList s.pOsptr (update s.pYsptr p none) (s.pCptr r) lr :=
        hr.congr (fun _ _ => rfl) fun q hq =>
          update_of_ne (ne_of_mem_of_not_mem hq hplr) _ _
      have hpush := hclear.pushFront hplr
      unfold moveChild
      dsimp only
      rw [hparent, hrcptr, update_self]
      exact hpush
    have hchain : TailQueue.Chain (s.moveChild cur p).pOsptr ((s.moveChild cur p).pCptr cur) l := by
      have hcptr : (s.moveChild cur p).pCptr cur = s.pOsptr p := by
        unfold moveChild
        dsimp only
        rw [hparent, update_of_ne (Ne.symm hne), update_self]
      rw [hcptr]
      refine hrest.congr fun q hq => ?_
      have hqp : q ≠ p := ne_of_mem_of_not_mem hq hpl
      exact @HeadList.pushFront_next_of_ne _ _ (update s.pYsptr p none) _ _ _ _ hqp
    obtain ⟨t, hrun, ht⟩ := @ih (s.moveChild cur p) (p :: lr) fuel (Nat.lt_of_succ_lt_succ hfuel)
      hchain hlist (fun q hq => hop q (by simp [hq])) (by
        rw [nodup_middle, nodup_cons, mem_append, not_or]
        exact ⟨⟨hpl, hplr⟩, hnodup⟩)
    refine ⟨t, ?_, ⟨ht.tasks, ht.opptr, ht.zombie, ht.threadNext, ht.threadPrev, ht.left, ?_, ?_,
      ?_, ?_⟩⟩
    · rw [moveChildren, hhead]
      exact hrun
    · intro q
      have hstep : (s.moveChild cur p).pPptr q = if q = p then r else s.pPptr q := by
        unfold moveChild
        dsimp only
        rw [hparent, update_apply]
      rw [ht.pptr q, hstep]
      by_cases hqp : q = p
      · simp [hqp]
      · simp [hqp]
    · simpa using ht.list
    · intro a ha har
      rw [ht.cptr a ha har]
      unfold moveChild
      dsimp only
      rw [hparent, update_of_ne har, update_of_ne ha]
    · intro q hq hqr
      rw [mem_cons, not_or] at hq
      obtain ⟨hos, hys⟩ := ht.links q hq.2 (by simp [hq.1, hqr])
      rw [hos, hys]
      unfold moveChild
      dsimp only
      rw [hparent, hrcptr]
      constructor
      · exact pushFront_next_of_ne hq.1
      · rw [pushFront_prev_of_not_mem hr.chain hqr hq.1, update_of_ne hq.1]

/-- Whoever inherits the children of a task that exits is fit for it: the task has none, or it is
alone in its ring, or the next thread is neither the idle task nor a zombie nor a descendant. -/
def InheritsOk (s : Procs) (father : Nat) : Prop :=
  s.pCptr father = none ∨ s.threadNext father = father ∨
  s.threadNext father ≠ idle ∧ s.zombie (s.threadNext father) = false ∧
    ∀ k, s.pPptr^[k] (s.threadNext father) ≠ father

/-- The child lists after an exit. -/
def exitChildren (s : Procs) (children : Nat → List Nat) (cur : Nat) : Nat → List Nat :=
  fun a => if a = cur then [] else
    if a = s.reaper cur then (children cur).reverse ++ children a else children a

/-- The state in which the loop of `exit_notify` starts. -/
lemma exitNotify_eq : s.exitNotify cur = moveChildren (s.tasks.length + 1)
    { s.forgetOriginalParent cur with zombie := update s.zombie cur true } cur := rfl

section

variable (h : s.Ok children) (hcur : cur ∈ s.tasks) (hinit : cur ≠ init)
include h hcur hinit

/-- An exit of a task without children. -/
lemma Ok.exitNotify_childless (hnone : s.pCptr cur = none) :
    ∃ t, s.exitNotify cur = some t ∧ t.Ok children := by
  have hnil : children cur = [] := by
    have hlist := h.lists cur (.inr hcur)
    rw [hnone] at hlist
    exact hlist.eq_nil
  have hnoChild : ∀ p ∈ s.tasks, s.pPptr p ≠ cur := by
    intro p hp heq
    have hmem := (h.children cur p (.inr hcur)).2 ⟨hp, heq⟩
    rw [hnil] at hmem
    cases hmem
  refine ⟨_, by rw [exitNotify_eq, moveChildren, show ({ s.forgetOriginalParent cur with
    zombie := update s.zombie cur true } : Procs).pCptr cur = none from hnone], ?_⟩
  refine ⟨h.nodup, h.noIdle, h.hasInit, h.lists, h.children, ?_, h.parent, ?_, h.initParent, ?_,
    h.reaches, ⟨h.threads.1, h.threads.2, h.threads.3, h.threads.4⟩⟩
  · intro p hp
    refine (if_neg ?_).trans (h.same p hp)
    rintro ⟨hmem, heq⟩
    rw [h.same p hp] at heq
    exact hnoChild p hmem heq
  · intro p hp
    exact (update_of_ne (hnoChild p hp) _ _).trans (h.live p hp)
  · exact (update_of_ne (Ne.symm hinit) _ _).trans h.initLive

/-- An exit that hands the children to a task that is fit for them. -/
lemma Ok.exitNotify_inherit (hr : s.reaper cur ∈ s.tasks) (hne : s.reaper cur ≠ cur)
    (hlive : s.zombie (s.reaper cur) = false)
    (hreach : ∀ f : Nat → Nat, (∀ q, s.pPptr q ≠ cur → f q = s.pPptr q) →
      Reaches f (s.reaper cur)) :
    ∃ t, s.exitNotify cur = some t ∧ t.Ok (s.exitChildren children cur) := by
  have hcurMember : s.Member cur := .inr hcur
  have hrMember : s.Member (s.reaper cur) := .inr hr
  have hchild : ∀ q, q ∈ children cur ↔ q ∈ s.tasks ∧ s.pPptr q = cur := fun q =>
    h.children cur q hcurMember
  have hdisjoint : ∀ q ∈ children cur, q ∉ children (s.reaper cur) := fun q hq =>
    h.not_mem_children hrMember (by rw [((hchild q).1 hq).2]; exact Ne.symm hne)
  have hop : ∀ q ∈ children cur, (s.forgetOriginalParent cur).pOpptr q = s.reaper cur := by
    intro q hq
    obtain ⟨hmem, heq⟩ := (hchild q).1 hq
    exact if_pos ⟨hmem, by rw [h.same q (.inr hmem)]; exact heq⟩
  have hfuel : (children cur).length < s.tasks.length + 1 :=
    Nat.lt_succ_of_le (subperm_of_subset (h.lists cur hcurMember).nodup
      fun q hq => ((hchild q).1 hq).1).length_le
  obtain ⟨⟨_, pPptr, _, pCptr, pOsptr, pYsptr, _, _, _⟩, hrun, ht⟩ := @moveChildren_moved
    { s.forgetOriginalParent cur with zombie := update s.zombie cur true } cur
    (s.reaper cur) (children cur) (children (s.reaper cur)) (s.tasks.length + 1) hfuel
    (h.lists cur hcurMember).chain (h.lists _ hrMember) hne hop (by
      rw [nodup_append]
      refine ⟨(h.lists cur hcurMember).nodup, (h.lists _ hrMember).nodup, ?_⟩
      rintro q hq _ hq' rfl
      exact hdisjoint q hq hq')
  obtain ⟨rfl, rfl, rfl, rfl, rfl, hleft, hmoved, hlist, hcptr, hlinks⟩ := ht
  have hpptr : ∀ q, pPptr q = if q ∈ s.tasks ∧ s.pPptr q = cur then s.reaper cur
      else s.pPptr q := by
    intro q
    refine (hmoved q).trans ?_
    simp only [hchild q]
    rfl
  refine ⟨_, by rw [exitNotify_eq]; exact hrun, ?_⟩
  refine ⟨h.nodup, h.noIdle, h.hasInit, ?_, ?_, ?_, ?_, ?_, ?_, ?_, ?_,
    ⟨h.threads.1, h.threads.2, h.threads.3, h.threads.4⟩⟩
  · -- the lists
    intro a ha
    unfold exitChildren
    split_ifs with hac har
    · rw [hac, hleft]
      exact isList_nil
    · rw [har]
      exact hlist
    · rw [hcptr a hac har]
      have hsame : ∀ q ∈ children a, pOsptr q = s.pOsptr q ∧ pYsptr q = s.pYsptr q := by
        intro q hq
        have heq := ((h.children a q ha).1 hq).2
        exact hlinks q (h.not_mem_children hcurMember (by rw [heq]; exact hac))
          (h.not_mem_children hrMember (by rw [heq]; exact har))
      exact (h.lists a ha).congr (fun q hq => (hsame q hq).1) fun q hq => (hsame q hq).2
  · -- their entries
    intro a q ha
    have hentry : q ∈ s.tasks ∧ pPptr q = a ↔
        q ∈ s.tasks ∧ (if s.pPptr q = cur then s.reaper cur else s.pPptr q) = a :=
      and_congr_right fun hq => by simp only [hpptr, hq, true_and]
    refine Iff.trans ?_ hentry.symm
    have hmem := h.children a q ha
    unfold exitChildren
    split_ifs with hac heq har heq heq
    · simp [hac, hne]
    · simpa [hac] using fun _ => heq
    · rw [mem_append, mem_reverse, hchild, hmem]
      simp [heq, har, Ne.symm hne]
    · simp [hchild, hmem, heq]
    · simp [hmem, heq, Ne.symm hac, Ne.symm har]
    · exact hmem
  · intro q hq
    refine Eq.trans ?_ (hpptr q).symm
    rw [← h.same q hq]
    rfl
  · intro q hq hqinit
    dsimp only
    rw [hpptr q]
    split_ifs
    · exact hr
    · exact h.parent q hq hqinit
  · intro q hq
    dsimp only
    rw [hpptr q]
    split_ifs with heq
    · exact (update_of_ne hne _ _).trans hlive
    · exact (update_of_ne (fun hcur => heq ⟨hq, hcur⟩) _ _).trans (h.live q hq)
  · dsimp only
    rw [hpptr init, h.initParent, if_neg]
    rintro ⟨-, rfl⟩
    exact h.noIdle hcur
  · exact (update_of_ne (Ne.symm hinit) _ _).trans h.initLive
  · -- a way that led through the task goes through its heir now
    have hheir : Reaches pPptr (s.reaper cur) :=
      hreach pPptr fun q hq => by rw [hpptr q, if_neg fun hboth => hq hboth.2]
    intro q hq
    obtain ⟨k, hk⟩ := h.reaches q hq
    induction k generalizing q with
    | zero => exact ⟨0, hk⟩
    | succ k ih =>
      by_cases hqinit : q = init
      · exact ⟨0, hqinit⟩
      · apply Reaches.step
        dsimp only
        rw [hpptr q]
        split_ifs
        · exact hheir
        · exact ih _ (h.parent q hq hqinit) hk

/-- **`exit_notify`.** -/
theorem Ok.exitNotify
    (hheir : s.InheritsOk cur) : ∃ t children', s.exitNotify cur = some t ∧ t.Ok children' := by
  rcases hheir with hnone | halone | ⟨hidle, hlive, hpath⟩
  · obtain ⟨t, hrun, ht⟩ := h.exitNotify_childless hcur hinit hnone
    exact ⟨t, _, hrun, ht⟩
  · have hreaper : s.reaper cur = init := if_pos halone
    obtain ⟨t, hrun, ht⟩ := h.exitNotify_inherit hcur hinit (by rw [hreaper]; exact h.hasInit)
      (by rw [hreaper]; exact Ne.symm hinit) (by rw [hreaper]; exact h.initLive)
      (by rw [hreaper]; exact fun f _ => reaches_init)
    exact ⟨t, _, hrun, ht⟩
  · have hne : s.threadNext cur ≠ cur := hpath 0
    have hreaper : s.reaper cur = s.threadNext cur := if_neg hne
    have hmem : s.threadNext cur ∈ s.tasks :=
      (h.threads.nextMember cur (.inr hcur)).resolve_left hidle
    obtain ⟨t, hrun, ht⟩ := h.exitNotify_inherit hcur hinit (by rw [hreaper]; exact hmem)
      (by rw [hreaper]; exact hne) (by rw [hreaper]; exact hlive) (by
        rw [hreaper]
        intro f hf
        -- no task on the way from the heir is the one that exits, or a child of it
        refine (h.reaches _ hmem).congr
          (S := fun q => ∃ k, q = s.pPptr^[k] (s.threadNext cur)) ⟨0, rfl⟩ ?_ ?_
        · rintro q ⟨k, rfl⟩ _
          exact ⟨k + 1, (iterate_succ_apply' ..).symm⟩
        · rintro q ⟨k, rfl⟩ _
          apply hf
          have hnext := hpath (k + 1)
          rwa [iterate_succ_apply'] at hnext)
    exact ⟨t, _, hrun, ht⟩

end

/-! ## `sys_wait4` -/

/-- What `sys_wait4` finds is a child on the list. -/
lemma scanChildren_mem {accept stopped : Nat → Bool} {fuel : Nat} {o : Option Nat} {z : Bool}
    {l : List Nat} (hl : TailQueue.Chain s.pOsptr o l)
    (h : s.scanChildren accept stopped fuel o = some (some (p, z))) :
    p ∈ l ∧ z = s.zombie p := by
  induction fuel generalizing o l with
  | zero => cases h
  | succ fuel ih =>
    cases l with
    | nil =>
      obtain rfl : o = none := hl
      cases h
    | cons q l =>
      obtain ⟨rfl, hrest⟩ := hl
      unfold scanChildren at h
      split at h
      · obtain ⟨rfl, rfl⟩ := Prod.mk.inj (Option.some.inj (Option.some.inj h))
        exact ⟨by simp, rfl⟩
      · obtain ⟨hmem, hz⟩ := ih hrest h
        exact ⟨mem_cons_of_mem _ hmem, hz⟩

lemma Ok.scanThreads_mem (h : s.Ok children) {accept stopped : Nat → Bool}
    {fuel tsk : Nat} {z : Bool} (htsk : s.Member tsk)
    (hscan : s.scanThreads cur noThread accept stopped fuel tsk = some (some (p, z))) :
    p ∈ s.tasks ∧ z = s.zombie p := by
  induction fuel generalizing tsk with
  | zero => cases hscan
  | succ fuel ih =>
    unfold scanThreads at hscan
    split at hscan
    · cases hscan
    · rename_i r hchildren
      obtain rfl := Option.some.inj (Option.some.inj hscan)
      obtain ⟨hmem, hz⟩ := scanChildren_mem (h.lists tsk htsk).chain hchildren
      exact ⟨((h.children tsk p htsk).1 hmem).1, hz⟩
    · split at hscan
      · cases hscan
      · exact ih (h.threads.nextMember tsk htsk) hscan

/-- The child lists once a task is released. -/
def releaseChildren (s : Procs) (children : Nat → List Nat) (p : Nat) : Nat → List Nat :=
  fun a => if a = s.pPptr p then (children a).erase p else children a

/-- Releasing a zombie keeps the tree. -/
lemma Ok.releaseTask (h : s.Ok children) (hp : p ∈ s.tasks) (hzombie : s.zombie p) :
    (s.releaseTask p).Ok (s.releaseChildren children p) := by
  have hparent := h.memberParent hp
  have hmem : p ∈ children (s.pPptr p) := (h.children _ p hparent).2 ⟨hp, rfl⟩
  have hpinit : p ≠ init := by
    rintro rfl
    rw [h.initLive] at hzombie
    cases hzombie
  have hpidle : p ≠ idle := by
    rintro rfl
    exact h.noIdle hp
  have hchildless : ∀ q ∈ s.tasks, s.pPptr q ≠ p := by
    intro q hq heq
    have hlive := h.live q hq
    rw [heq, hzombie] at hlive
    cases hlive
  have htasks : (s.releaseTask p).tasks = s.tasks.erase p := rfl
  have hmemTasks : ∀ q, q ∈ (s.releaseTask p).tasks ↔ q ∈ s.tasks ∧ q ≠ p := by
    intro q
    rw [htasks, h.nodup.mem_erase_iff, and_comm]
  have hmember : ∀ q, (s.releaseTask p).Member q ↔ s.Member q ∧ q ≠ p := by
    intro q
    unfold Member
    rw [hmemTasks, or_and_left]
    exact and_congr_right fun _ => or_iff_right_of_imp fun hq => hq ▸ Ne.symm hpidle
  refine ⟨h.nodup.erase p, ?_, ?_, ?_, ?_, ?_, ?_, ?_, h.initParent, h.initLive, ?_, ?_⟩
  · intro hidle
    exact h.noIdle ((hmemTasks _).1 hidle).1
  · exact (hmemTasks _).2 ⟨h.hasInit, Ne.symm hpinit⟩
  · -- the lists
    intro a ha
    have ha' := ((hmember a).1 ha).1
    have hcptr : (s.releaseTask p).pCptr = update s.pCptr (s.pPptr p)
        (unlink s.pOsptr s.pYsptr (s.pCptr (s.pPptr p)) p).2.2 := rfl
    unfold releaseChildren
    rw [hcptr]
    split_ifs with hap
    · subst hap
      have hlist := h.lists _ hparent
      obtain ⟨l₁, l₂, hsplit⟩ := append_of_mem hmem
      rw [hsplit] at hlist ⊢
      have hnot : p ∉ l₁ := fun hmem₁ =>
        (nodup_append.1 hlist.nodup).2.2 p hmem₁ p (by simp) rfl
      rw [erase_append_right _ hnot, erase_cons_head, update_self]
      exact hlist.unlink
    · rw [update_of_ne hap]
      have hsame := fun q hq => unlink_of_not_mem (h.lists _ hparent)
        hmem (h.not_mem_children hparent (by rw [((h.children a q ha').1 hq).2]; exact hap))
      exact (h.lists a ha').congr (fun q hq => (hsame q hq).1) fun q hq => (hsame q hq).2
  · -- their entries
    intro a q ha
    have ha' := ((hmember a).1 ha).1
    unfold releaseChildren
    rw [hmemTasks]
    split_ifs with hap
    · rw [(h.lists a ha').nodup.mem_erase_iff, h.children a q ha']
      tauto
    · rw [h.children a q ha']
      refine and_congr_left fun heq => (and_iff_left ?_).symm
      rintro rfl
      exact hap heq.symm
  · intro q hq
    exact h.same q ((hmember q).1 hq).1
  · intro q hq hqinit
    obtain ⟨hq', -⟩ := (hmemTasks q).1 hq
    exact (hmemTasks _).2 ⟨h.parent q hq' hqinit, hchildless q hq'⟩
  · intro q hq
    exact h.live q ((hmemTasks q).1 hq).1
  · intro q hq
    exact h.reaches q ((hmemTasks q).1 hq).1
  · exact h.threads.listDel (.inr hp) hmember rfl rfl

/-- **`sys_wait4`.** -/
theorem Ok.sysWait4 (h : s.Ok children) {copies : Bool} {accept stopped : Nat → Bool}
    {t : Procs} (hcur : cur ∈ s.tasks)
    (hrun : s.sysWait4 cur noThread copies accept stopped = some t) :
    ∃ children', t.Ok children' := by
  unfold Procs.sysWait4 at hrun
  split at hrun
  · rename_i p hscan
    obtain ⟨hp, hzombie⟩ := h.scanThreads_mem (.inr hcur) hscan
    split at hrun
    · cases hrun
      unfold reapZombie
      rw [if_neg (not_not.2 (h.same p (.inr hp)))]
      exact ⟨_, h.releaseTask hp hzombie.symm⟩
    · cases hrun
      exact ⟨children, h⟩
  · cases hrun
    exact ⟨children, h⟩
  · cases hrun

end Procs
end PsxLinux.Proc
