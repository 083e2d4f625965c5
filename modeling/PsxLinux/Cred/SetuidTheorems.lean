import PsxLinux.Cred.Setuid
import Mathlib.Data.BitVec

/-!
# Dropping privileges

What one call can do is said once, in `Creds.Effect`: the ids it stores are ids the process
has unless it is capable, and the capability sets only shrink or follow the permitted set. The
results about runs follow. A drop of the last zero id leaves `fsuid` zero in one case: `setresuid`
is told to leave the effective id alone, and `fsuid` was set apart from it before.
-/

namespace PsxLinux.Cred

open Lib

def CapSubset (a b : BitVec 32) : Prop := ∀ i, a.getLsbD i → b.getLsbD i

lemma CapSubset.refl (a : BitVec 32) : CapSubset a a := fun _ h => h

lemma CapSubset.trans {a b c : BitVec 32} (hab : CapSubset a b) (hbc : CapSubset b c) :
    CapSubset a c := fun i h => hbc i (hab i h)

lemma CapSubset.empty (b : BitVec 32) : CapSubset 0 b := by
  intro i h
  simp at h

lemma CapSubset.eq_zero {a : BitVec 32} (h : CapSubset a 0) : a = 0 := by
  apply BitVec.eq_of_getLsbD_eq
  intro i _
  rw [Bool.eq_iff_iff]
  exact ⟨h i, CapSubset.empty a i⟩

namespace Creds

def ids (c : Creds) : List (BitVec 32) := [c.uid, c.euid, c.suid, c.fsuid]

/-- One of the real, effective and saved ids is the superuser's. -/
def HasRoot (c : Creds) : Prop := c.uid = 0 ∨ c.euid = 0 ∨ c.suid = 0

instance (c : Creds) : Decidable c.HasRoot :=
  inferInstanceAs (Decidable (c.uid = 0 ∨ c.euid = 0 ∨ c.suid = 0))

/-- The process keeps nothing of the superuser: no id is zero and both sets are empty. -/
structure Dropped (c : Creds) : Prop where
  ids : ∀ id ∈ c.ids, id ≠ 0
  permitted : c.capPermitted = 0
  effective : c.capEffective = 0

/-- What is asked of a process at the start and holds all along. -/
structure Plain (c : Creds) : Prop where
  effective : CapSubset c.capEffective c.capPermitted
  keep : c.keepCapabilities = false
  fixup : c.noSetuidFixup = false

/-- What one call does to a process `c`, without saying which call it is. -/
structure Effect (c d : Creds) : Prop where
  plain : d.Plain
  permitted : CapSubset d.capPermitted c.capPermitted
  ids : c.capable = false → ∀ id ∈ d.ids, id ∈ c.ids
  drop : c.HasRoot → ¬ d.HasRoot → d.capPermitted = 0

lemma Effect.refl {c : Creds} (h : c.Plain) : Effect c c :=
  ⟨h, .refl _, fun _ _ hid => hid, fun hroot hnone => absurd hroot hnone⟩

/-! ## The fix-ups -/

section Fixup
variable {c d : Creds}

lemma fixup_ids : (fixup c d).uid = d.uid ∧ (fixup c d).euid = d.euid ∧
    (fixup c d).suid = d.suid ∧ (fixup c d).fsuid = d.fsuid := by
  unfold fixup capEmulateSetxuid
  dsimp only
  split_ifs <;> exact ⟨rfl, rfl, rfl, rfl⟩

lemma ids_fixup : (fixup c d).ids = d.ids := by
  obtain ⟨huid, heuid, hsuid, hfsuid⟩ := @fixup_ids c d
  simp only [ids, huid, heuid, hsuid, hfsuid]

lemma hasRoot_fixup : (fixup c d).HasRoot ↔ d.HasRoot := by
  obtain ⟨huid, heuid, hsuid, -⟩ := @fixup_ids c d
  simp only [HasRoot, huid, heuid, hsuid]

lemma fixup_plain (hd : d.Plain) : (fixup c d).Plain := by
  obtain ⟨heff, hkeep, hfix⟩ := hd
  unfold fixup capEmulateSetxuid
  dsimp only
  split_ifs <;>
    exact ⟨by first | exact heff | exact .empty _ | exact .refl _, hkeep, hfix⟩

lemma fixup_permitted : CapSubset (fixup c d).capPermitted d.capPermitted := by
  unfold fixup capEmulateSetxuid
  dsimp only
  split_ifs <;> first | exact .refl _ | exact .empty _

lemma fixup_drop (hd : d.Plain) (hroot : c.HasRoot) (hnone : ¬ d.HasRoot) :
    (fixup c d).capPermitted = 0 := by
  have hids : d.uid ≠ 0 ∧ d.euid ≠ 0 ∧ d.suid ≠ 0 := by
    simpa only [HasRoot, not_or] using hnone
  have hrule := And.intro hroot (And.intro hids hd.keep)
  unfold fixup capEmulateSetxuid
  rw [if_neg (by simp [hd.fixup])]
  dsimp only
  split_ifs
  all_goals first | rfl | exact absurd hrule (by assumption)

/-- The process just before the fix-up: only ids have been stored, and without the capability
only ids the process has. -/
structure Stored (c d : Creds) : Prop where
  plain : d.Plain
  permitted : d.capPermitted = c.capPermitted
  ids : c.capable = false → ∀ id ∈ d.ids, id ∈ c.ids

lemma Stored.effect (h : Stored c d) : Effect c (fixup c d) where
  plain := fixup_plain h.plain
  permitted := h.permitted ▸ fixup_permitted
  ids := fun hcap => by rw [ids_fixup]; exact h.ids hcap
  drop := fun hroot hnone => fixup_drop h.plain hroot fun h' => hnone (hasRoot_fixup.2 h')

/-- `fsFixup` changes the effective set only, and inside the permitted one. -/
lemma Stored.effect_fsFixup {old : BitVec 32} (h : Stored c d)
    (hroot : d.uid = c.uid ∧ d.euid = c.euid ∧ d.suid = c.suid) :
    Effect c (d.fsFixup old) := by
  have hsame : (d.fsFixup old).ids = d.ids ∧ (d.fsFixup old).capPermitted = d.capPermitted ∧
      ((d.fsFixup old).HasRoot ↔ d.HasRoot) := by
    unfold fsFixup
    dsimp only
    split_ifs <;> exact ⟨rfl, rfl, Iff.rfl⟩
  refine ⟨?_, ?_, ?_, ?_⟩
  · obtain ⟨heff, hkeep, hfix⟩ := h.plain
    unfold fsFixup
    dsimp only
    have hclear : CapSubset (d.capEffective &&& ~~~capFsMask) d.capPermitted := by
      intro i h
      rw [BitVec.getLsbD_and, Bool.and_eq_true] at h
      exact heff i h.1
    have hraise : ∀ e, CapSubset e d.capPermitted →
        CapSubset (e ||| (d.capPermitted &&& capFsMask)) d.capPermitted := by
      intro e he i h
      rw [BitVec.getLsbD_or, BitVec.getLsbD_and, Bool.or_eq_true, Bool.and_eq_true] at h
      exact h.elim (he i) And.left
    split_ifs
    · exact ⟨hraise _ hclear, hkeep, hfix⟩
    · exact ⟨hclear, hkeep, hfix⟩
    · exact ⟨hraise _ heff, hkeep, hfix⟩
    · exact ⟨heff, hkeep, hfix⟩
  · rw [hsame.2.1, h.permitted]
    exact .refl _
  · rw [hsame.1]
    exact h.ids
  · intro hzero hnone
    rw [hsame.2.2, HasRoot, hroot.1, hroot.2.1, hroot.2.2] at hnone
    exact absurd hzero hnone

end Fixup

/-! ## The calls -/

section Calls
variable {c d : Creds} {alloc : Bool} {ruid euid suid uid : BitVec 32}

lemma changeUser_some (h : c.changeUser alloc uid = some d) : d = { c with uid := uid } := by
  unfold changeUser setUser at h
  split_ifs at h with hne halloc
  · exact (Option.some.inj h).symm
  · cases h
    rw [not_not] at hne
    rw [hne]

lemma setreuid_cases (hc : c.Plain) : (c.setreuid alloc ruid euid).1 = c ∨
    ∃ d, (c.setreuid alloc ruid euid).1 = fixup c d ∧ Stored c d ∧ d.fsuid = d.euid := by
  unfold setreuid
  dsimp only
  split
  · exact .inl rfl
  split
  · exact .inl rfl
  split
  · exact .inl rfl
  rename_i d hd
  obtain rfl := changeUser_some hd
  refine .inr ⟨_, rfl, ⟨{ hc with }, rfl, ?_⟩, rfl⟩
  intro hcap
  -- both new ids are ids of the process
  have hr : (if ruid ≠ noId then ruid else c.uid) ∈ c.ids := by
    unfold ids
    grind
  have he : (if euid ≠ noId then euid else c.euid) ∈ c.ids := by
    unfold ids
    grind
  have hs : (if ruid ≠ noId ∨ (euid ≠ noId ∧ euid ≠ c.uid) then
      (if euid ≠ noId then euid else c.euid) else c.suid) ∈ c.ids := by
    split
    · exact he
    · simp [ids]
  intro id hid
  simp only [ids, List.mem_cons, List.not_mem_nil, or_false] at hid
  rcases hid with rfl | rfl | rfl | rfl
  · exact hr
  · exact he
  · exact hs
  · exact he

lemma setuid_cases (hc : c.Plain) : (c.setuid alloc uid).1 = c ∨
    ∃ d, (c.setuid alloc uid).1 = fixup c d ∧ Stored c d ∧ d.fsuid = d.euid := by
  unfold setuid
  split
  case isTrue hcap =>
    split
    · exact .inl rfl
    · rename_i d hd
      obtain rfl := changeUser_some hd
      refine .inr ⟨_, rfl, ⟨{ hc with }, rfl, ?_⟩, rfl⟩
      intro hcap'
      simp [hcap] at hcap'
  case isFalse =>
    split
    case isTrue => exact .inl rfl
    case isFalse hown =>
      refine .inr ⟨_, rfl, ⟨{ hc with }, rfl, ?_⟩, rfl⟩
      intro _ id hid
      simp only [ids] at hid ⊢
      grind

/-- An argument that an uncapable caller may give. -/
lemma mem_ids_of_not_foreign (h : c.foreign uid = false) (hset : uid ≠ noId) : uid ∈ c.ids := by
  simp only [foreign] at h
  unfold ids
  grind

lemma setresuid_cases (hc : c.Plain) : (c.setresuid alloc ruid euid suid).1 = c ∨
    ∃ d, (c.setresuid alloc ruid euid suid).1 = fixup c d ∧ Stored c d ∧
      d.fsuid = if euid ≠ noId then d.euid else c.fsuid := by
  unfold setresuid
  split
  · exact .inl rfl
  rename_i hforeign
  split
  · exact .inl rfl
  rename_i d hd
  have hreal : d = { c with uid := if ruid ≠ noId then ruid else c.uid } := by
    split_ifs at hd with hset
    · rw [if_pos hset]
      exact changeUser_some hd
    · rw [if_neg hset]
      exact (Option.some.inj hd).symm
  subst hreal
  refine .inr ⟨_, rfl, ⟨{ hc with }, rfl, ?_⟩, ?_⟩
  · intro hcap
    have hown : c.foreign ruid = false ∧ c.foreign euid = false ∧ c.foreign suid = false := by
      simpa [hcap, and_assoc] using hforeign
    -- an id that is set is one of the process, and one that is not stays
    have hset : ∀ {arg old : BitVec 32}, c.foreign arg = false → old ∈ c.ids →
        (if arg ≠ noId then arg else old) ∈ c.ids := by
      intro arg old harg hold
      split
      case isTrue hne => exact mem_ids_of_not_foreign harg hne
      case isFalse => exact hold
    intro id hid
    simp only [ids, List.mem_cons, List.not_mem_nil, or_false] at hid
    rcases hid with rfl | rfl | rfl | rfl
    · exact hset hown.1 (by simp [ids])
    · exact hset hown.2.1 (by simp [ids])
    · exact hset hown.2.2 (by simp [ids])
    · exact hset hown.2.1 (by simp [ids])
  · by_cases heuid : euid = noId
    · simp [heuid]
    · simp [heuid]

/-- `setfsuid` stores an id the process has, or any id if it is capable. -/
lemma effect_setfsuid (hc : c.Plain) : Effect c (c.setfsuid uid).1 := by
  unfold setfsuid
  dsimp only
  split
  case isTrue hallowed =>
    rw [if_neg (by simp [hc.fixup])]
    refine Stored.effect_fsFixup ⟨{ hc with }, rfl, ?_⟩ ⟨rfl, rfl, rfl⟩
    intro hcap id hid
    simp only [ids] at hid ⊢
    grind
  case isFalse =>
    rw [if_neg (by simp [hc.fixup])]
    exact Stored.effect_fsFixup ⟨{ hc with }, rfl, fun _ _ hid => hid⟩
      ⟨rfl, rfl, rfl⟩

lemma setfsuid_hasRoot : (c.setfsuid uid).1.HasRoot ↔ c.HasRoot := by
  unfold setfsuid fsFixup
  dsimp only
  split_ifs <;> exact Iff.rfl

lemma Effect.of_cases {d : Creds} {P : Creds → Prop} (hc : c.Plain)
    (h : d = c ∨ ∃ e, d = fixup c e ∧ Stored c e ∧ P e) : Effect c d := by
  rcases h with rfl | ⟨e, rfl, he, -⟩
  · exact .refl hc
  · exact he.effect

end Calls

end Creds

lemma Call.effect {c : Creds} (hc : c.Plain) (call : Call) : c.Effect (call.exec c).1 := by
  cases call with
  | setreuid => exact .of_cases hc (Creds.setreuid_cases hc)
  | setuid => exact .of_cases hc (Creds.setuid_cases hc)
  | setresuid => exact .of_cases hc (Creds.setresuid_cases hc)
  | setfsuid => exact Creds.effect_setfsuid hc

/-! ## The file system id -/

/-- The call takes the process from having a zero id to having none. -/
def Call.Drops (c : Creds) (call : Call) : Prop := c.HasRoot ∧ ¬ (call.exec c).1.HasRoot

/-- A `setresuid` that is told to leave the effective id alone finds `fsuid` non-zero. -/
def Call.FsuidFollows (c : Creds) : Call → Prop
  | .setresuid _ _ euid _ => euid ≠ noId ∨ c.fsuid ≠ 0
  | _ => True

section Fsuid
variable {c d : Creds}

/-- A drop goes through the fix-up, and `fsuid` is what was stored before it. -/
lemma drop_cases {P : Creds → Prop} (hroot : c.HasRoot) (hnone : ¬ d.HasRoot)
    (h : d = c ∨ ∃ e, d = Creds.fixup c e ∧ Creds.Stored c e ∧ P e) :
    ∃ e, e.euid ≠ 0 ∧ d.fsuid = e.fsuid ∧ P e := by
  rcases h with rfl | ⟨e, rfl, -, he⟩
  · exact absurd hroot hnone
  · rw [Creds.hasRoot_fixup] at hnone
    exact ⟨e, fun h => hnone (.inr (.inl h)), Creds.fixup_ids.2.2.2, he⟩

/-- After a drop, `fsuid` is non-zero exactly in this case. -/
lemma Call.Drops.fsuid_iff {call : Call} (hc : c.Plain) (h : call.Drops c) :
    (call.exec c).1.fsuid ≠ 0 ↔ call.FsuidFollows c := by
  obtain ⟨hroot, hnone⟩ := h
  cases call with
  | setreuid alloc ruid euid =>
    obtain ⟨e, heuid, hfsuid, hsame⟩ := drop_cases hroot hnone (Creds.setreuid_cases hc)
    refine ⟨fun _ => trivial, fun _ => ?_⟩
    rwa [hfsuid, hsame]
  | setuid alloc uid =>
    obtain ⟨e, heuid, hfsuid, hsame⟩ := drop_cases hroot hnone (Creds.setuid_cases hc)
    refine ⟨fun _ => trivial, fun _ => ?_⟩
    rwa [hfsuid, hsame]
  | setresuid alloc ruid euid suid =>
    obtain ⟨e, heuid, hfsuid, hsame⟩ := drop_cases hroot hnone (Creds.setresuid_cases hc)
    rw [hfsuid, hsame, Call.FsuidFollows]
    by_cases harg : euid = noId
    · simp [harg]
    · simpa [harg] using heuid
  | setfsuid uid => exact absurd (Creds.setfsuid_hasRoot.2 hroot) hnone

end Fsuid

/-! ## Runs -/

section Runs
variable {c₀ c : Creds} {calls : List Call} {rets : List Ret}

/-- **Run lemma.** A run is plain all along and never adds to the permitted set. -/
theorem run_plain (h₀ : c₀.Plain) (hrun : Exec step anyStep c₀ calls rets c) :
    c.Plain ∧ CapSubset c.capPermitted c₀.capPermitted := by
  refine hrun.invariant_state
    (P := fun d => d.Plain ∧ CapSubset d.capPermitted c₀.capPermitted) ⟨h₀, .refl _⟩ ?_
  intro d call d' _ hd _ hs
  cases hs
  have heffect := call.effect hd.1
  exact ⟨heffect.plain, heffect.permitted.trans hd.2⟩

/-- **Run lemma.** Without the capability in the permitted set the ids come from the first
ones. -/
theorem run_ids (h₀ : c₀.Plain) (hcap : c₀.capPermitted.getLsbD capSetuid = false)
    (hrun : Exec step anyStep c₀ calls rets c) : ∀ id ∈ c.ids, id ∈ c₀.ids := by
  have hall := hrun.invariant_state
    (P := fun d => (d.Plain ∧ CapSubset d.capPermitted c₀.capPermitted) ∧
      ∀ id ∈ d.ids, id ∈ c₀.ids) ⟨⟨h₀, .refl _⟩, fun _ h => h⟩ ?_
  · exact hall.2
  intro d call d' _ hd _ hs
  cases hs
  obtain ⟨⟨hplain, hperm⟩, hids⟩ := hd
  have heffect := call.effect hplain
  have huncapable : d.capable = false := by
    rw [Bool.eq_false_iff]
    intro h
    rw [hperm _ (hplain.effective _ h)] at hcap
    cases hcap
  exact ⟨⟨heffect.plain, heffect.permitted.trans hperm⟩,
    fun id hid => hids id (heffect.ids huncapable id hid)⟩

/-- **Run lemma.** A process that has dropped everything never gets anything back. -/
theorem run_dropped (h₀ : c₀.Plain) (hdropped : c₀.Dropped)
    (hrun : Exec step anyStep c₀ calls rets c) : c.Dropped := by
  obtain ⟨hplain, hperm⟩ := run_plain h₀ hrun
  have hzero : c.capPermitted = 0 := by
    rw [hdropped.permitted] at hperm
    exact hperm.eq_zero
  refine ⟨?_, hzero, ?_⟩
  · intro id hid
    have hcap : c₀.capPermitted.getLsbD capSetuid = false := by
      rw [hdropped.permitted]
      simp
    exact hdropped.ids id (run_ids h₀ hcap hrun id hid)
  · have heff := hplain.effective
    rw [hzero] at heff
    exact heff.eq_zero

/-- Right after a drop, everything is gone exactly if `fsuid` is. -/
lemma Call.Drops.dropped_iff {call : Call} (hc : c.Plain) (h : call.Drops c) :
    (call.exec c).1.Dropped ↔ call.FsuidFollows c := by
  rw [← h.fsuid_iff hc]
  have heffect := call.effect hc
  have hperm := heffect.drop h.1 h.2
  refine ⟨fun hd => hd.ids _ (by simp [Creds.ids]), fun hfsuid => ⟨?_, hperm, ?_⟩⟩
  · have hnone := h.2
    simp only [Creds.HasRoot, not_or] at hnone
    intro id hid
    simp only [Creds.ids, List.mem_cons, List.not_mem_nil, or_false] at hid
    rcases hid with rfl | rfl | rfl | rfl
    · exact hnone.1
    · exact hnone.2.1
    · exact hnone.2.2
    · exact hfsuid
  · have heff := heffect.plain.effective
    rw [hperm] at heff
    exact heff.eq_zero

/-- **Dropping privileges.** In every run the permitted set never grows, the effective set stays
inside it, and without `CAP_SETUID` in it the ids stay inside the first ones. A call that leaves
none of the real, effective and saved ids zero leaves the process without any privilege, for
good, if and only if it is no `setresuid` that skips the effective id while `fsuid` is zero. -/
theorem privileges_dropped_iff (h₀ : c₀.Plain) (hrun : Exec step anyStep c₀ calls rets c) :
    (CapSubset c.capPermitted c₀.capPermitted ∧ CapSubset c.capEffective c.capPermitted) ∧
    (c₀.capPermitted.getLsbD capSetuid = false → ∀ id ∈ c.ids, id ∈ c₀.ids) ∧
    ∀ call : Call, call.Drops c →
      ((∀ later rets' d, Exec step anyStep (call.exec c).1 later rets' d → d.Dropped) ↔
        call.FsuidFollows c) := by
  obtain ⟨hplain, hperm⟩ := run_plain h₀ hrun
  refine ⟨⟨hperm, hplain.effective⟩, fun hcap => run_ids h₀ hcap hrun, ?_⟩
  intro call hdrop
  rw [← hdrop.dropped_iff hplain]
  constructor
  · intro hall
    exact hall [] [] _ (.refl _)
  · intro hdropped later rets' d hlater
    exact run_dropped (call.effect hplain).plain hdropped hlater

/-- The superuser with all capabilities, running a program of user 1. -/
def userOne : Creds where
  uid := 0
  euid := 1
  suid := 0
  fsuid := 1
  capPermitted := 0xffffffff
  capEffective := 0
  keepCapabilities := false
  dumpable := true
  noSetuidFixup := false

lemma userOne_plain : userOne.Plain := ⟨.empty _, rfl, rfl⟩

/-- `setresuid(1, -1, 1)` as the first call is a complete drop: `setfsuid(0)` after it fails. -/
theorem privileges_dropped_first : ∃ rets d,
    Exec step anyStep ((Call.setresuid true 1 noId 1).exec userOne).1 [.setfsuid 0] rets d ∧
      d.Dropped :=
  ⟨_, _, .single trivial rfl, ((privileges_dropped_iff userOne_plain (.refl _)).2.2
    (.setresuid true 1 noId 1) ⟨by decide, by decide⟩).2 (.inr (by decide)) _ _ _
    (.single trivial rfl)⟩

/-- After `setfsuid(0)` the same call leaves `fsuid` zero. -/
theorem setresuid_keeps_fsuid :
    ∃ c rets, Exec step anyStep userOne [.setfsuid 0] rets c ∧
      (Call.setresuid true 1 noId 1).Drops c ∧
      ((Call.setresuid true 1 noId 1).exec c).1.fsuid = 0 :=
  ⟨_, _, .single trivial rfl, ⟨by decide, by decide⟩, by decide⟩

end Runs
end PsxLinux.Cred
