import PsxLinux.Lib.Exec

/-!
# The setuid family

The four calls of `kernel/sys.c` that change the user ids of a process: `sys_setreuid`,
`sys_setuid`, `sys_setresuid` and `sys_setfsuid`, with the capability fix-ups that follow them.
Whether `alloc_uid` finds memory for the new user is an argument of the calls that use it.
-/

namespace PsxLinux.Cred

open Lib

/-- The ids, capability sets and flags of a process. `noSetuidFixup` is
`issecure(SECURE_NO_SETUID_FIXUP)`. -/
structure Creds where
  uid : BitVec 32
  euid : BitVec 32
  suid : BitVec 32
  fsuid : BitVec 32
  capPermitted : BitVec 32
  capEffective : BitVec 32
  keepCapabilities : Bool
  dumpable : Bool
  noSetuidFixup : Bool
deriving DecidableEq, Repr

/-- What a call returns: 0, an error, or the old `fsuid`. -/
inductive Ret
  | done
  | eperm
  | eagain
  | oldFsuid (uid : BitVec 32)
deriving DecidableEq, Repr

def capSetuid : Nat := 7

def capFsMask : BitVec 32 := 0x1f

/-- `(uid_t) -1`, the argument that leaves an id as it is. -/
def noId : BitVec 32 := -1

namespace Creds

/-- `capable(CAP_SETUID)`: the effective set is asked. -/
def capable (c : Creds) : Bool := c.capEffective.getLsbD capSetuid

/-- `cap_emulate_setxuid`: the three rules are applied one after the other. -/
def capEmulateSetxuid (oldRuid oldEuid oldSuid : BitVec 32) (c : Creds) : Creds :=
  let c :=
    if (oldRuid = 0 ∨ oldEuid = 0 ∨ oldSuid = 0) ∧ (c.uid ≠ 0 ∧ c.euid ≠ 0 ∧ c.suid ≠ 0) ∧
        c.keepCapabilities = false then
      { c with capPermitted := 0, capEffective := 0 }
    else c
  let c := if oldEuid = 0 ∧ c.euid ≠ 0 then { c with capEffective := 0 } else c
  if oldEuid ≠ 0 ∧ c.euid = 0 then { c with capEffective := c.capPermitted } else c

/-- The end of `setuid`, `setreuid` and `setresuid`. -/
def fixup (old c : Creds) : Creds :=
  if c.noSetuidFixup then c else c.capEmulateSetxuid old.uid old.euid old.suid

/-- `set_user`; `none` is `-EAGAIN`, and then nothing has been changed. -/
def setUser (alloc : Bool) (newRuid : BitVec 32) (c : Creds) : Option Creds :=
  if alloc then some { c with uid := newRuid } else none

/-- `set_user` as it is called, for an id that differs from the real one only. -/
def changeUser (alloc : Bool) (newRuid : BitVec 32) (c : Creds) : Option Creds :=
  if newRuid ≠ c.uid then c.setUser alloc newRuid else some c

/-- `sys_setreuid`. -/
def setreuid (alloc : Bool) (ruid euid : BitVec 32) (c : Creds) : Creds × Ret :=
  let newRuid := if ruid ≠ noId then ruid else c.uid
  let newEuid := if euid ≠ noId then euid else c.euid
  if ruid ≠ noId ∧ c.uid ≠ ruid ∧ c.euid ≠ ruid ∧ c.capable = false then (c, .eperm)
  else if euid ≠ noId ∧ c.uid ≠ euid ∧ c.euid ≠ euid ∧ c.suid ≠ euid ∧ c.capable = false then
    (c, .eperm)
  else
    match c.changeUser alloc newRuid with
    | none => (c, .eagain)
    | some d =>
      (fixup c { d with
        euid := newEuid
        -- the real id is set at all, or the effective id to something else than the old real id
        suid := if ruid ≠ noId ∨ (euid ≠ noId ∧ euid ≠ c.uid) then newEuid else d.suid
        fsuid := newEuid
        dumpable := d.dumpable && decide (newEuid = c.euid) }, .done)

/-- `sys_setuid`: a capable caller sets all four ids. -/
def setuid (alloc : Bool) (uid : BitVec 32) (c : Creds) : Creds × Ret :=
  let finish (d : Creds) : Creds × Ret :=
    (fixup c { d with
      euid := uid, fsuid := uid, dumpable := d.dumpable && decide (c.euid = uid) }, .done)
  if c.capable then
    match c.changeUser alloc uid with
    | none => (c, .eagain)
    | some d => finish { d with suid := uid }
  else if uid ≠ c.uid ∧ uid ≠ c.suid then (c, .eperm)
  else finish c

/-- An argument of `sys_setresuid` that only a capable caller may give. -/
def foreign (c : Creds) (id : BitVec 32) : Bool :=
  id ≠ noId && id ≠ c.uid && id ≠ c.euid && id ≠ c.suid

/-- `sys_setresuid`: `fsuid` follows the effective id only if that is set. -/
def setresuid (alloc : Bool) (ruid euid suid : BitVec 32) (c : Creds) : Creds × Ret :=
  if c.capable = false ∧ (c.foreign ruid || c.foreign euid || c.foreign suid) then
    (c, .eperm)
  else
    match (if ruid ≠ noId then c.changeUser alloc ruid else some c) with
    | none => (c, .eagain)
    | some d =>
      (fixup c { d with
        euid := if euid ≠ noId then euid else d.euid
        fsuid := if euid ≠ noId then euid else d.fsuid
        suid := if suid ≠ noId then suid else d.suid
        dumpable := d.dumpable && decide (euid = noId ∨ euid = d.euid) }, .done)

/-- The part of the effective set that `sys_setfsuid` changes. -/
def fsFixup (oldFsuid : BitVec 32) (c : Creds) : Creds :=
  let c := if oldFsuid = 0 ∧ c.fsuid ≠ 0 then
    { c with capEffective := c.capEffective &&& ~~~capFsMask } else c
  if oldFsuid ≠ 0 ∧ c.fsuid = 0 then
    { c with capEffective := c.capEffective ||| (c.capPermitted &&& capFsMask) }
  else c

/-- `sys_setfsuid`: a refused id is no error. -/
def setfsuid (uid : BitVec 32) (c : Creds) : Creds × Ret :=
  let d := if uid = c.uid ∨ uid = c.euid ∨ uid = c.suid ∨ uid = c.fsuid ∨ c.capable then
    { c with fsuid := uid } else c
  let d := { d with dumpable := d.dumpable && decide (d.fsuid = c.fsuid) }
  (if d.noSetuidFixup then d else d.fsFixup c.fsuid, .oldFsuid c.fsuid)

end Creds

/-- A call of the family with its arguments. -/
inductive Call
  | setreuid (alloc : Bool) (ruid euid : BitVec 32)
  | setuid (alloc : Bool) (uid : BitVec 32)
  | setresuid (alloc : Bool) (ruid euid suid : BitVec 32)
  | setfsuid (uid : BitVec 32)
deriving DecidableEq, Repr

/-- Execute one call. -/
def Call.exec (c : Creds) : Call → Creds × Ret
  | .setreuid alloc ruid euid => c.setreuid alloc ruid euid
  | .setuid alloc uid => c.setuid alloc uid
  | .setresuid alloc ruid euid suid => c.setresuid alloc ruid euid suid
  | .setfsuid uid => c.setfsuid uid

/-- A call as a step of a run; its event is what it returns. -/
def step (c : Creds) (call : Call) : Option (Creds × List Ret) :=
  some ((call.exec c).1, [(call.exec c).2])

end PsxLinux.Cred
