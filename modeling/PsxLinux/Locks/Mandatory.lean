import PsxLinux.Locks.ListTheorems

/-!
# Mandatory locks

`locks_mandatory_area` looks for a POSIX lock that conflicts with a read or write. It stops at the first
lock that starts behind the access. The list is sorted by the owner first, so a lock of a later owner can
start further in front: the answer is right exactly if a conflicting lock, where there is one, stands in
the part of the list that is looked at (`answers_iff`).
-/

namespace PsxLinux.Locks

open Lib List

/-- A read or write of a file with mandatory locks. -/
structure Access where
  owner : ℕ
  pid : ℕ
  write : Bool
  offset : ℤ
  count : ℕ
  inRange : -2 ^ 63 ≤ offset
  positive : 0 < count

/-- `new_fl` -/
def Access.lock (a : Access) : FileLock where
  flOwner := a.owner
  flPid := a.pid
  flFlags := .posix
  flType := if a.write then .wrlck else .rdlck
  flStart := a.offset
  flEnd := offAdd (a.offset + a.count) (-1)

/-- The search of `locks_mandatory_area`. `deadlock` is what `posix_locks_deadlock` says; after it has
slept the call starts again, which is another call here. -/
def mandatoryScan (newFl : FileLock) (nonblock deadlock : Bool) : List FileLock → Outcome
  | [] => .ok
  | fl :: rest =>
    if fl.flFlags ≠ .posix then mandatoryScan newFl nonblock deadlock rest
    else if newFl.flEnd < fl.flStart then .ok
    else if posixLocksConflict newFl fl then
      if nonblock then .eagain else if deadlock then .edeadlk else .blocked
    else mandatoryScan newFl nonblock deadlock rest

def locksMandatoryArea (list : List FileLock) (a : Access) (nonblock deadlock : Bool) : Outcome :=
  mandatoryScan a.lock nonblock deadlock list

/-- The lock keeps the access out: a POSIX lock of another owner that has a byte of the access and is
not compatible with it. -/
def Access.BlockedBy (a : Access) (fl : FileLock) : Prop :=
  fl.flFlags = .posix ∧ locksSameOwner a.lock fl = false ∧
    (fl.flStart ≤ a.offset + a.count - 1 ∧ a.offset ≤ fl.flEnd) ∧ locksConflict a.lock fl

/-- An access that does not wait is answered as it should be. -/
def Answers (list : List FileLock) (a : Access) (deadlock : Bool) : Prop :=
  locksMandatoryArea list a true deadlock = .eagain ∧ (∃ fl ∈ list, a.BlockedBy fl) ∨
    locksMandatoryArea list a true deadlock = .ok ∧ ¬ ∃ fl ∈ list, a.BlockedBy fl

/-- The locks in front of the first POSIX lock that starts behind the access. -/
def inFront (a : Access) (list : List FileLock) : List FileLock :=
  list.takeWhile fun fl => fl.flFlags ≠ .posix || decide (fl.flStart ≤ a.lock.flEnd)

variable {a : Access} {list : List FileLock}

lemma Access.flEnd_le (a : Access) : a.lock.flEnd ≤ a.offset + a.count - 1 := by
  have hrange := a.inRange
  have hpos := a.positive
  show offAdd (a.offset + a.count) (-1) ≤ _
  by_cases hmax : a.offset + a.count + -1 ≤ offsetMax
  · rw [offAdd_eq (by omega) hmax]
    omega
  · have hlt : offAdd (a.offset + a.count) (-1) < 2 ^ 63 := Int.bmod_lt (by decide)
    unfold offsetMax at hmax
    omega

/-- Where the search comes to, the test on the two locks is the right one. -/
lemma Access.blockedBy_iff {fl : FileLock} (hposix : fl.flFlags = .posix)
    (hstart : fl.flStart ≤ a.lock.flEnd) : a.BlockedBy fl ↔ posixLocksConflict a.lock fl := by
  have hle := hstart.trans a.flEnd_le
  have hstart' : a.lock.flStart = a.offset := rfl
  simp [Access.BlockedBy, posixLocksConflict, locksOverlap, hposix, hstart, hstart', hle]

/-- The search finds what stands in front. -/
lemma mandatoryScan_eq (deadlock : Bool) :
    mandatoryScan a.lock true deadlock list = .eagain ∧ (∃ fl ∈ inFront a list, a.BlockedBy fl) ∨
      mandatoryScan a.lock true deadlock list = .ok ∧ ¬ ∃ fl ∈ inFront a list, a.BlockedBy fl := by
  induction list with
  | nil => exact .inr ⟨rfl, by simp [inFront]⟩
  | cons fl rest ih =>
    by_cases hposix : fl.flFlags = .posix
    · by_cases hstart : fl.flStart ≤ a.lock.flEnd
      · have hfront : inFront a (fl :: rest) = fl :: inFront a rest := by
          simp [inFront, hstart]
        have hiff := Access.blockedBy_iff hposix hstart
        rw [hfront, exists_mem_cons_iff, hiff, mandatoryScan, if_neg (not_not.2 hposix),
          if_neg (not_lt.2 hstart)]
        by_cases hconflict : posixLocksConflict a.lock fl
        · simp [hconflict]
        · simpa [hconflict] using ih
      · have hfront : inFront a (fl :: rest) = [] := by simp [inFront, hposix, hstart]
        rw [hfront, mandatoryScan, if_neg (not_not.2 hposix), if_pos (not_le.1 hstart)]
        exact .inr ⟨rfl, by simp⟩
    · have hfront : inFront a (fl :: rest) = fl :: inFront a rest := by simp [inFront, hposix]
      have hno : ¬ a.BlockedBy fl := fun h => hposix h.1
      rw [hfront, exists_mem_cons_iff, mandatoryScan, if_pos hposix]
      simpa [hno] using ih

/-- **Mandatory locks.** An access that does not wait is answered as it should be exactly if, where some
lock keeps it out, one does that stands in front of the first lock behind the access. -/
theorem answers_iff (list : List FileLock) (a : Access) (deadlock : Bool) :
    Answers list a deadlock ↔
      ((∃ fl ∈ list, a.BlockedBy fl) → ∃ fl ∈ inFront a list, a.BlockedBy fl) := by
  have hsub : (∃ fl ∈ inFront a list, a.BlockedBy fl) → ∃ fl ∈ list, a.BlockedBy fl :=
    fun ⟨fl, hfl, h⟩ => ⟨fl, (takeWhile_sublist _).subset hfl, h⟩
  rcases @mandatoryScan_eq a list deadlock with ⟨hscan, hfront⟩ | ⟨hscan, hfront⟩
  · simp [Answers, locksMandatoryArea, hscan, hfront, hsub hfront]
  · simp [Answers, locksMandatoryArea, hscan, hfront]

/-- The first process locks 100 to 199, the second 0 to 9. A third one that writes the first byte is let
through. -/
theorem later_owner_not_seen :
    ∃ list outcomes, Exec step anyStep []
        [lockCall .wrlck 100 199 (by decide),
          ⟨⟨2, 2, .posix, .wrlck, 0, 9⟩, false, true, false, rfl, by decide, by decide, by decide⟩]
        outcomes list ∧
      locksMandatoryArea list ⟨3, 3, true, 0, 1, by decide, by decide⟩ true false = .ok ∧
      ¬ Answers list ⟨3, 3, true, 0, 1, by decide, by decide⟩ false := by
  have hfirst : Exec step anyStep [] [lockCall .wrlck 100 199 (by decide)] [.ok]
      [⟨1, 1, .posix, .wrlck, 100, 199⟩] := .single trivial (by decide +kernel)
  refine ⟨[⟨1, 1, .posix, .wrlck, 100, 199⟩, ⟨2, 2, .posix, .wrlck, 0, 9⟩], [.ok, .ok],
    hfirst.trans (.single trivial (by decide +kernel)), by decide +kernel, ?_⟩
  rintro (⟨hscan, -⟩ | ⟨-, hno⟩)
  · exact absurd hscan (by decide +kernel)
  · exact hno ⟨⟨2, 2, .posix, .wrlck, 0, 9⟩, by simp, rfl, rfl, by decide, rfl⟩

end PsxLinux.Locks
