import PsxLinux.Lib.Exec
import PsxLinux.Lib.HeadList

/-!
# The process tree

The family links of tasks as `do_fork`, `exit_notify` and `sys_wait4` change them: the parent
pointers `p_pptr` and `p_opptr`, the list of children that starts at `p_cptr` and runs through
`p_osptr` and `p_ysptr`, and the ring of threads. Tasks are numbers, the idle task is 0 and `init` is
1. The list of all tasks is a `List`; the idle task is its head in the source and not an entry.

No task is traced. Which children a `wait4` accepts (by number, group and clone signal), which of
them are stopped, and whether the copies to the caller succeed are arguments. Signals are left out.
-/

namespace PsxLinux.Proc

open Lib Function

def idle : Nat := 0

/-- `child_reaper` -/
def init : Nat := 1

/-- The links of all tasks. -/
structure Procs where
  tasks : List Nat
  pPptr : Nat → Nat
  pOpptr : Nat → Nat
  pCptr : Nat → Option Nat
  pOsptr : Nat → Option Nat
  pYsptr : Nat → Option Nat
  threadNext : Nat → Nat
  threadPrev : Nat → Nat
  zombie : Nat → Bool

/-- The flags of `do_fork` that matter for the tree. -/
structure CloneFlags where
  parent : Bool
  thread : Bool
  vfork : Bool
deriving DecidableEq, Repr

namespace Procs

def setLinks (s : Procs) (p : Nat) : Procs :=
  let parent := s.pPptr p
  let links := HeadList.pushFront s.pOsptr s.pYsptr (s.pCptr parent) p
  { s with
    tasks := s.tasks ++ [p]
    pOsptr := links.1
    pYsptr := links.2
    pCptr := update s.pCptr parent (some p) }

def removeLinks (s : Procs) (p : Nat) : Procs :=
  let parent := s.pPptr p
  let links := HeadList.unlink s.pOsptr s.pYsptr (s.pCptr parent) p
  { s with
    tasks := s.tasks.erase p
    pOsptr := links.1
    pYsptr := links.2.1
    pCptr := update s.pCptr parent links.2.2 }

def listAdd (s : Procs) (p cur : Nat) : Procs :=
  { s with
    threadPrev := update (update s.threadPrev (s.threadNext cur) p) p cur
    threadNext := update (update s.threadNext p (s.threadNext cur)) cur p }

def listDel (s : Procs) (p : Nat) : Procs :=
  { s with
    threadPrev := update s.threadPrev (s.threadNext p) (s.threadPrev p)
    threadNext := update s.threadNext (s.threadPrev p) (s.threadNext p) }

/-! ## `do_fork` -/

/-- The new task before it is linked: a copy of the current one, with a parent of its own unless it
shares the parent of the current task. -/
def copyTask (s : Procs) (cur p : Nat) (flags : CloneFlags) : Procs :=
  let parent := if flags.vfork ∨ flags.parent = false then cur else s.pPptr cur
  let opparent := if flags.vfork ∨ flags.parent = false then cur else s.pOpptr cur
  { s with
    pPptr := update s.pPptr p parent
    pOpptr := update s.pOpptr p opparent
    pCptr := update s.pCptr p none
    zombie := update s.zombie p false
    threadNext := update s.threadNext p p
    threadPrev := update s.threadPrev p p }

/-- `do_fork`; `alloc` is the new task, or nothing if the call fails. -/
def doFork (s : Procs) (cur : Nat) (flags : CloneFlags) (alloc : Option Nat) : Procs :=
  match alloc with
  | none => s
  | some p =>
    let s := s.copyTask cur p flags
    let s := if flags.thread then s.listAdd p cur else s
    s.setLinks p

/-! ## `exit_notify` -/

/-- The task that inherits the children: the next thread, or `init` if there is none. -/
def reaper (s : Procs) (father : Nat) : Nat :=
  if s.threadNext father = father then init else s.threadNext father

def forgetOriginalParent (s : Procs) (father : Nat) : Procs :=
  { s with
    pOpptr := fun p =>
      if p ∈ s.tasks ∧ s.pOpptr p = father then s.reaper father else s.pOpptr p }

/-- One turn of the loop of `exit_notify`: the first child `p` goes to its original parent. -/
def moveChild (s : Procs) (cur p : Nat) : Procs :=
  let parent := s.pOpptr p
  let pCptr := update s.pCptr cur (s.pOsptr p)
  let links := HeadList.pushFront s.pOsptr (update s.pYsptr p none) (pCptr parent) p
  { s with
    pPptr := update s.pPptr p parent
    pOsptr := links.1
    pYsptr := links.2
    pCptr := update pCptr parent (some p) }

/-- The loop of `exit_notify`; `none` if it does not end. -/
def moveChildren : Nat → Procs → Nat → Option Procs
  | 0, _, _ => none
  | fuel + 1, s, cur =>
    match s.pCptr cur with
    | none => some s
    | some p => moveChildren fuel (s.moveChild cur p) cur

def exitNotify (s : Procs) (cur : Nat) : Option Procs :=
  let s := s.forgetOriginalParent cur
  moveChildren (s.tasks.length + 1) { s with zombie := update s.zombie cur true } cur

/-! ## `sys_wait4` -/

/-- The loop over the children: the first that is accepted and is a zombie or stopped. -/
def scanChildren (s : Procs) (accept stopped : Nat → Bool) :
    Nat → Option Nat → Option (Option (Nat × Bool))
  | 0, _ => none
  | _ + 1, none => some none
  | fuel + 1, some p =>
    if accept p && (s.zombie p || stopped p) then some (some (p, s.zombie p))
    else scanChildren s accept stopped fuel (s.pOsptr p)

/-- The loop over the threads of the caller. -/
def scanThreads (s : Procs) (cur : Nat) (noThread : Bool) (accept stopped : Nat → Bool) :
    Nat → Nat → Option (Option (Nat × Bool))
  | 0, _ => none
  | fuel + 1, tsk =>
    match s.scanChildren accept stopped (s.tasks.length + 1) (s.pCptr tsk) with
    | none => none
    | some (some r) => some (some r)
    | some none =>
      if noThread ∨ s.threadNext tsk = cur then some none
      else scanThreads s cur noThread accept stopped fuel (s.threadNext tsk)

/-- `release_task` of a task other than the current one -/
def releaseTask (s : Procs) (p : Nat) : Procs := (s.removeLinks p).listDel p

/-- What `sys_wait4` does with a zombie: a child that was given to another parent goes back. -/
def reapZombie (s : Procs) (p : Nat) : Procs :=
  if s.pOpptr p ≠ s.pPptr p then
    let t := s.removeLinks p
    ({ t with pPptr := update t.pPptr p (t.pOpptr p) }).setLinks p
  else s.releaseTask p

/-- `sys_wait4`; `none` if the loop over the threads does not end. -/
def sysWait4 (s : Procs) (cur : Nat) (noThread copies : Bool) (accept stopped : Nat → Bool) :
    Option Procs :=
  match s.scanThreads cur noThread accept stopped (s.tasks.length + 1) cur with
  | some (some (p, true)) => if copies ∧ p ≠ cur then some (s.reapZombie p) else some s
  | some _ => some s
  | none => none

end Procs

/-! ## Runs -/

/-- The calls. -/
inductive Act
  | fork (cur : Nat) (flags : CloneFlags) (alloc : Option Nat)
  | exit (cur : Nat)
  | wait (cur : Nat) (noThread copies : Bool) (accept stopped : Nat → Bool)

/-- The caller is a task that has not exited, not the idle task, and only `init` does not exit. A new
task is none that exists. -/
def Act.Enabled (s : Procs) : Act → Prop
  | .fork cur _ alloc => (cur ∈ s.tasks ∧ s.zombie cur = false) ∧
      ∀ p, alloc = some p → p ∉ s.tasks ∧ p ≠ idle
  | .exit cur => (cur ∈ s.tasks ∧ s.zombie cur = false) ∧ cur ≠ init
  | .wait cur _ _ _ _ => cur ∈ s.tasks ∧ s.zombie cur = false

/-- One call. -/
def step (s : Procs) : Act → Option (Procs × List Unit)
  | .fork cur flags alloc => some (s.doFork cur flags alloc, [])
  | .exit cur => (s.exitNotify cur).map fun s => (s, [])
  | .wait cur noThread copies accept stopped =>
    (s.sysWait4 cur noThread copies accept stopped).map fun s => (s, [])

end PsxLinux.Proc
