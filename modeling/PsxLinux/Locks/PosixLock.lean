import PsxLinux.Lib.Exec

/-!
# POSIX record locks

`posix_lock_file` of `fs/locks.c` and the tests it uses, over the list `inode->i_flock`. File
offsets are `loff_t`, 64 bits and signed; where the code adds to one the result wraps.

The pass over the caller's own locks keeps its place in the list: `passed` are the locks in
front of `*before`, and the pointers `caller` and `left` into that part are positions there,
`right` points to `*before` itself. Waiting on a lock ends the call here; when it is woken the
caller starts again at the label `repeat`, which is another call.
-/

namespace PsxLinux.Locks

open Lib

def offsetMax : ℤ := 2 ^ 63 - 1

/-- A `loff_t` sum. -/
def offAdd (x y : ℤ) : ℤ := (x + y).bmod (2 ^ 64)

inductive LockType where
  | rdlck
  | wrlck
  | unlck
deriving DecidableEq

/-- Which of `FL_POSIX`, `FL_FLOCK` and `FL_LEASE` is set in `fl_flags`. -/
inductive Flags where
  | posix
  | flock
  | lease
deriving DecidableEq

/-- The fields of a `struct file_lock` that `posix_lock_file` uses. -/
structure FileLock where
  flOwner : ℕ
  flPid : ℕ
  flFlags : Flags
  flType : LockType
  flStart : ℤ
  flEnd : ℤ
deriving DecidableEq

/-! ## Tests on two locks -/

def locksOverlap (fl1 fl2 : FileLock) : Bool :=
  decide (fl2.flStart ≤ fl1.flEnd) && decide (fl1.flStart ≤ fl2.flEnd)

def locksSameOwner (fl1 fl2 : FileLock) : Bool :=
  decide (fl1.flOwner = fl2.flOwner) && decide (fl1.flPid = fl2.flPid)

def locksConflict (callerFl sysFl : FileLock) : Bool :=
  match callerFl.flType with
  | .rdlck => decide (sysFl.flType = .wrlck)
  | .wrlck => true
  | .unlck => false   -- "impossible lock type"

def posixLocksConflict (callerFl sysFl : FileLock) : Bool :=
  if sysFl.flFlags ≠ .posix || locksSameOwner callerFl sysFl then false
  else if !locksOverlap callerFl sysFl then false
  else locksConflict callerFl sysFl

/-! ## The pass over the caller's own locks -/

/-- The local variables of `posix_lock_file` during the pass. -/
structure Walk where
  passed : List FileLock
  caller : FileLock
  /-- Where in `passed` the lock is that `caller` points to, once it is one of the list. -/
  callerAt : Option ℕ
  added : Bool
  left : Option ℕ

/-- `before = &fl->fl_next` -/
def Walk.pass (w : Walk) (fl : FileLock) : Walk := { w with passed := w.passed ++ [fl] }

/-- Write through `caller`. -/
def Walk.setCaller (w : Walk) (caller : FileLock) : Walk :=
  { w with
    caller := caller
    passed := match w.callerAt with
      | none => w.passed
      | some i => w.passed.set i caller }

/-- `caller = fl; added = 1;` and on to the next lock. -/
def Walk.become (w : Walk) (fl : FileLock) : Walk :=
  { w with
    passed := w.passed ++ [fl]
    caller := fl
    callerAt := some w.passed.length
    added := true }

/-- `while ((fl = *before) && locks_same_owner (caller, fl))`: returns the variables, whether
`right` was set, and the list from `*before` on. -/
def processLocks : Walk → List FileLock → Walk × Bool × List FileLock
  | w, [] => (w, false, [])
  | w, fl :: rest =>
    if !locksSameOwner w.caller fl then (w, false, fl :: rest)
    else if w.caller.flType = fl.flType then
      if fl.flEnd < offAdd w.caller.flStart (-1) then processLocks (w.pass fl) rest
      else if offAdd w.caller.flEnd 1 < fl.flStart then (w, false, fl :: rest)
      else
        -- both locks get the lower start and the higher end
        let start := if w.caller.flStart < fl.flStart then w.caller.flStart else fl.flStart
        let stop := if fl.flEnd < w.caller.flEnd then w.caller.flEnd else fl.flEnd
        let w := w.setCaller { w.caller with flStart := start, flEnd := stop }
        if w.added then processLocks w rest   -- `fl` is deleted
        else processLocks (w.become { fl with flStart := start, flEnd := stop }) rest
    else
      if fl.flEnd < w.caller.flStart then processLocks (w.pass fl) rest
      else if w.caller.flEnd < fl.flStart then (w, false, fl :: rest)
      else
        let w := { w with
          added := w.added || decide (w.caller.flType = .unlck)
          left := if fl.flStart < w.caller.flStart then some w.passed.length else w.left }
        if w.caller.flEnd < fl.flEnd then (w, true, fl :: rest)
        else if w.caller.flStart ≤ fl.flStart then
          if w.added then processLocks w rest   -- `fl` is deleted
          else
            processLocks (w.become { fl with
              flStart := w.caller.flStart, flEnd := w.caller.flEnd, flType := w.caller.flType }) rest
        else processLocks (w.pass fl) rest

/-- `left->fl_end = caller->fl_start - 1`, where `left` is one of the passed locks. -/
def Walk.trimLeft (w : Walk) : List FileLock :=
  match w.left with
  | none => w.passed
  | some i => w.passed.modify i fun fl => { fl with flEnd := offAdd w.caller.flStart (-1) }

/-- What follows the pass: insert the new lock and trim `right` and `left`. -/
def finishLocks : Walk × Bool × List FileLock → List FileLock
  | (w, right, rest) =>
    if !w.added && decide (w.caller.flType = .unlck) then w.passed ++ rest
    else
      let newFl := if w.added then [] else [w.caller]
      match right, rest with
      | true, fl :: rest =>
        let trimmed := { fl with flStart := offAdd w.caller.flEnd 1 }
        if w.left = some w.passed.length then
          -- `left == right`: the old lock breaks in two pieces
          w.passed ++ [{ fl with flEnd := offAdd w.caller.flStart (-1) }] ++ newFl ++ trimmed :: rest
        else w.trimLeft ++ newFl ++ trimmed :: rest
      | _, rest => w.trimLeft ++ newFl ++ rest

/-! ## `posix_lock_file` -/

/-- The value returned, or that the caller sleeps. -/
inductive Outcome where
  | ok
  | eagain
  | edeadlk
  | enolck
  | blocked
deriving DecidableEq

/-- The locks in front of the caller's own, and the rest. -/
def skipOthers (caller : FileLock) (list : List FileLock) : List FileLock × List FileLock :=
  list.span fun fl => fl.flFlags ≠ .posix || !locksSameOwner caller fl

/-- `posix_lock_file (filp, caller, wait)`. `allocated` says whether both locks could be
allocated, `deadlock` is what `posix_locks_deadlock` says. -/
def posixLockFile (list : List FileLock) (caller : FileLock) (wait allocated deadlock : Bool) :
    Outcome × List FileLock :=
  if !allocated then (.enolck, list)
  else if caller.flType ≠ .unlck &&
      list.any fun fl => fl.flFlags = .posix && posixLocksConflict caller fl then
    if !wait then (.eagain, list)
    else if deadlock then (.edeadlk, list)
    else (.blocked, list)
  else
    let (skipped, rest) := skipOthers caller list
    (.ok, skipped ++ finishLocks (processLocks ⟨[], caller, none, false, none⟩ rest))

/-! ## Sequences of calls -/

/-- A call of `posix_lock_file` with a range of file offsets. -/
structure Call where
  caller : FileLock
  wait : Bool
  allocated : Bool
  deadlock : Bool
  posix : caller.flFlags = .posix
  nonneg : 0 ≤ caller.flStart
  ordered : caller.flStart ≤ caller.flEnd
  bounded : caller.flEnd ≤ offsetMax

def step (list : List FileLock) (c : Call) : Option (List FileLock × List Outcome) :=
  let r := posixLockFile list c.caller c.wait c.allocated c.deadlock
  some (r.2, [r.1])

end PsxLinux.Locks
