import PsxLinux.Flat.Reloc

/-!
# Isolation of flat binary loads

Between a HI16 record and its LO16 record, `do_reloc` keeps the pending half in variables that all
loads share. As long as no other load uses these variables in the meantime, no HI16 record is left
over from a load before, every record is read whole and points into the memory of its own load, a
load gives the memory image it gives when it runs alone after boot, and no record changes the memory
of another process (`isolated_of_own`).

Nothing in the source ensures this: `pending_hi16_reaches_next_load`.
-/

namespace PsxLinux.Flat

open Lib Memory Function

/-! ## What should hold, and when -/

/-- A load that is complete and not yet started has the image that depends on it alone. -/
def Isolated (s : Sys) : Prop :=
  ∀ p load, s.procs p = some ⟨load, load.records.length, false⟩ →
    AgreeOn load.region s.mem (load.alone load.records.length).2

/-- The HI16 record that waits for its LO16 record, behind a record `r` of a type. -/
def nextPending (r : Word) (pending : Option Word) : RelocType → Option Word
  | .hi16 => some r
  | .lo16 => pending.filter fun hi =>
      r &&& relMask != hi &&& relMask || r &&& inMask != hi &&& inMask
  | _ => pending

/-- The same behind a record or a failed read of a load. -/
def Load.advance (load : Load) (pending : Option Word) : Read → Option Word
  | .full r =>
    match relocBase load.mm r, relocPtr load.mm r, relocType r with
    | some _, some _, some type => nextPending r pending type
    | _, _, _ => pending
  | _ => pending

/-- The HI16 record that waits behind the first `n` records of a load. -/
def Load.pending (load : Load) (n : ℕ) : Option Word := (load.records.take n).foldl load.advance none

/-- The process is relocating, with a HI16 record that waits for its LO16 record. -/
def Proc.Waits (proc : Proc) : Prop :=
  proc.done < proc.load.records.length ∧ proc.load.pending proc.done ≠ none

/-- The record points into the region. -/
def PointsInto (load : Load) (r : Word) : Prop :=
  ∀ ptr, relocPtr load.mm r = some ptr → Covers load.region ptr

/-- The next record of a load is not read in part and points into the load's own memory. If it uses
the shared variables, no other load waits, and a LO16 record finds no HI16 record but one of its own
load. -/
def Own (s : Sys) : Act → Prop
  | .reloc p _ => ∀ load done running read, s.procs p = some ⟨load, done, running⟩ →
      load.records[done]? = some read → read ≠ .short ∧ ∀ r, read = .full r →
      PointsInto load r ∧
      (relocType r ∉ [none, some .abs32] → ∀ q proc, q ≠ p → s.procs q = some proc → ¬ proc.Waits) ∧
      (relocType r = some .lo16 → s.statics.hiFlag → load.pending done ≠ none)
  | _ => True

/-! ## One record -/

variable {load : Load} {st st' : Statics} {m m' : Memory} {r offset ptr : Word}
variable {R : Word → Bool} {type : RelocType}

/-- The HI16 record that is pending. -/
def Statics.pending (st : Statics) : Option Word := if st.hiFlag then some st.prev else none

lemma relocWord_pending :
    (relocWord r offset ptr type (st, m)).1.pending = nextPending r st.pending type := by
  obtain ⟨prevPtr, prev, hiFlag, res⟩ := st
  cases type with
  | abs32 | hi16 | jump26 => rfl
  | lo16 =>
    cases hiFlag with
    | false => rfl
    | true =>
      simp only [relocWord, nextPending, Statics.pending]
      split_ifs with hbad <;> simp_all [Option.filter]

/-- Both have the same HI16 pending, or none. -/
def SamePending (st st' : Statics) : Prop :=
  st = st' ∨ (st.hiFlag = false ∧ st'.hiFlag = false)

/-- The word that a pending HI16 record is about lies in the region. -/
def PendingIn (R : Word → Bool) (st : Statics) : Prop := st.hiFlag → Covers R st.prevPtr

/-- A load that waits finds the variables as it has left them. -/
lemma relocWord_statics (hmem : AgreeOn R m m') (hptr : Covers R ptr)
    (hwaits : st'.pending ≠ none → st = st') (hpending : type = .lo16 → SamePending st st')
    (h : (relocWord r offset ptr type (st', m')).1.pending ≠ none) :
    (relocWord r offset ptr type (st, m)).1 = (relocWord r offset ptr type (st', m')).1 := by
  cases type with
  | abs32 => exact hwaits h
  | hi16 => simp only [relocWord, hmem.word hptr]
  | jump26 =>
    obtain rfl := hwaits h
    simp only [relocWord, hmem.word hptr]
  | lo16 =>
    rcases hpending rfl with rfl | ⟨-, h'⟩
    · simp only [relocWord, hmem.word hptr]
      split_ifs <;> rfl
    · exact absurd (by simp [relocWord, Statics.pending, h']) h

lemma relocWord_agree (hmem : AgreeOn R m m') (hptr : Covers R ptr)
    (hpending : type = .lo16 → SamePending st st') (hin : PendingIn R st') :
    AgreeOn R (relocWord r offset ptr type (st, m)).2 (relocWord r offset ptr type (st', m')).2 ∧
      PendingIn R (relocWord r offset ptr type (st', m')).1 := by
  cases type with
  | abs32 =>
    refine ⟨?_, hin⟩
    simp only [relocWord, hmem.word hptr]
    exact hmem.setWord _ _
  | hi16 => exact ⟨hmem, fun _ => hptr⟩
  | lo16 =>
    rcases hpending rfl with rfl | ⟨h, h'⟩
    · simp only [relocWord]
      split_ifs with hbad
      · exact ⟨hmem, hin⟩
      -- `*prev_ptr` and `*ptr` are in the region, so the same words are read and written
      · have hprev : Covers R st.prevPtr := hin (by simp_all)
        refine ⟨?_, fun h => absurd h Bool.false_ne_true⟩
        simp only [hmem.word hptr, hmem.word hprev]
        rw [(hmem.setWord _ _).word hptr]
        exact (hmem.setWord _ _).setWord _ _
    · have hbad : relocWord r offset ptr .lo16 (st', m') = (st', m') := by
        simp [relocWord, h']
      rw [hbad]
      simp only [relocWord, h]
      exact ⟨hmem, hin⟩
  | jump26 =>
    refine ⟨?_, hin⟩
    simp only [relocWord, hmem.word hptr]
    exact hmem.setWord _ _

lemma relocWord_frame (hptr : Covers R ptr)
    (hpending : type = .lo16 → SamePending st st') (hin : PendingIn R st') {x : Word}
    (hx : ¬ R x) : (relocWord r offset ptr type (st, m)).2 x = m x := by
  cases type with
  | abs32 => exact setWord_of_not_mem hptr _ hx
  | hi16 => rfl
  | lo16 =>
    simp only [relocWord]
    split_ifs with hbad
    · rfl
    · have hflag : st.hiFlag := by simp_all
      have hprev : Covers R st.prevPtr := by
        rcases hpending rfl with rfl | ⟨h, -⟩
        · exact hin hflag
        · rw [hflag] at h
          cases h
      exact (setWord_of_not_mem hptr _ hx).trans (setWord_of_not_mem hprev _ hx)
  | jump26 => exact setWord_of_not_mem hptr _ hx

/-- A record is about a word, or it does nothing. -/
lemma read_cases (load : Load) {read : Read} (hshort : read ≠ .short) :
    (∃ r offset ptr type, read = .full r ∧ relocPtr load.mm r = some ptr ∧ relocType r = some type ∧
      (∀ stale, relocRecord load.mm stale read = relocWord r offset ptr type) ∧
      ∀ pending, load.advance pending read = nextPending r pending type) ∨
    (∀ stale, relocRecord load.mm stale read = id) ∧ ∀ pending, load.advance pending read = pending := by
  cases read with
  | failed => exact .inr ⟨fun _ => rfl, fun _ => rfl⟩
  | short => exact absurd rfl hshort
  | full r =>
    have hrec (stale : Word) : relocRecord load.mm stale (.full r) = doReloc load.mm r := rfl
    unfold doReloc at hrec
    simp only [Load.advance, hrec]
    cases relocBase load.mm r with
    | none => exact .inr ⟨fun _ => rfl, fun _ => rfl⟩
    | some offset =>
      cases hptr : relocPtr load.mm r with
      | none => exact .inr ⟨fun _ => rfl, fun _ => rfl⟩
      | some ptr =>
        cases htype : relocType r with
        | none => exact .inr ⟨fun _ => rfl, fun _ => rfl⟩
        | some type => exact .inl ⟨r, offset, ptr, type, rfl, hptr, htype, fun _ => rfl, fun _ => rfl⟩

/-- What is known of a load in progress: it is where it would be alone, and while it waits the
variables are its own. -/
structure Loading (st : Statics) (m : Memory) (load : Load) (done : ℕ) : Prop where
  image : AgreeOn load.region m (load.alone done).2
  inside : PendingIn load.region (load.alone done).1
  pending : (load.alone done).1.pending = load.pending done
  statics : done < load.records.length → load.pending done ≠ none → st = (load.alone done).1

lemma Load.succ {n : ℕ} {read : Read} (h : load.records[n]? = some read) :
    load.alone (n + 1) = relocRecord load.mm 0 read (load.alone n) ∧
      load.pending (n + 1) = load.advance (load.pending n) read := by
  simp only [Load.alone, Load.pending]
  rw [List.take_add_one, h, List.foldl_append, List.foldl_append]
  exact ⟨rfl, rfl⟩

/-- **One record.** The load goes on as it would alone, and changes no other memory. -/
lemma Loading.record {n : ℕ} {read : Read} (h : Loading st m load n) (stale : Word)
    (hread : load.records[n]? = some read) (hshort : read ≠ .short)
    (hown : ∀ r, read = .full r → PointsInto load r ∧
      (relocType r = some .lo16 → st.hiFlag → load.pending n ≠ none)) :
    Loading (relocRecord load.mm stale read (st, m)).1 (relocRecord load.mm stale read (st, m)).2
        load (n + 1) ∧
      ∀ x, ¬ load.region x → (relocRecord load.mm stale read (st, m)).2 x = m x := by
  obtain ⟨halone, hpending⟩ := Load.succ hread
  have hwaits := h.statics (List.getElem?_eq_some_iff.1 hread).1
  rcases read_cases load hshort with
    ⟨r, offset, ptr, type, rfl, hptr, htype, heq, hadvance⟩ | ⟨heq, hadvance⟩
  · obtain ⟨hpoints, hlo⟩ := hown r rfl
    have hcovers := hpoints ptr hptr
    rw [heq] at halone ⊢
    rw [hadvance] at hpending
    rw [← h.pending] at hwaits hlo hpending
    have hsame : type = .lo16 → SamePending st (load.alone n).1 := by
      rintro rfl
      by_cases hnone : (load.alone n).1.pending = none
      · refine .inr ⟨Bool.eq_false_iff.2 fun hflag => hlo htype hflag hnone, ?_⟩
        simpa [Statics.pending] using hnone
      · exact .inl (hwaits hnone)
    obtain ⟨himage, hinside⟩ := @relocWord_agree _ _ _ _ r offset _ _ type h.image hcovers hsame h.inside
    refine ⟨⟨?_, ?_, ?_, fun _ hne => ?_⟩, fun x hx => relocWord_frame hcovers hsame h.inside hx⟩
    all_goals rw [halone]
    · exact himage
    · exact hinside
    · exact relocWord_pending.trans hpending.symm
    · rw [hpending, ← relocWord_pending] at hne
      exact relocWord_statics h.image hcovers hwaits hsame hne
  · rw [heq] at halone ⊢
    rw [hadvance] at hpending
    refine ⟨⟨?_, ?_, ?_, fun _ => ?_⟩, fun _ _ => rfl⟩
    all_goals rw [halone]
    · exact h.image
    · exact h.inside
    · exact h.pending.trans hpending.symm
    · rw [hpending]
      exact hwaits

/-- A record that only changes a word leaves the variables alone. -/
lemma relocRecord_statics {read : Read} {stale : Word} (hshort : read ≠ .short)
    (h : ∀ r, read = .full r → relocType r ∈ [none, some .abs32]) :
    (relocRecord load.mm stale read (st, m)).1 = st := by
  rcases read_cases load hshort with ⟨r, offset, ptr, type, rfl, -, htype, heq, -⟩ | ⟨heq, -⟩
  · obtain rfl : type = .abs32 := by simpa [htype] using h r rfl
    rw [heq]
    rfl
  · rw [heq]
    rfl

/-! ## Whole runs -/

/-- Each load in progress is where it would be alone, and no memory has two owners. -/
structure SysInv (s : Sys) : Prop where
  loading : ∀ p load done, s.procs p = some ⟨load, done, false⟩ →
    Loading s.statics s.mem load done
  apart : ∀ p q proc proc', p ≠ q → s.procs p = some proc → s.procs q = some proc' →
    ∀ a, ¬ (proc.load.region a ∧ proc'.load.region a)
  complete : ∀ p proc, s.procs p = some proc → proc.running →
    proc.done = proc.load.records.length

variable {s s' : Sys} {es : List Empty}

lemma sysInv_boot (mem : Memory) : SysInv (Sys.boot mem) where
  loading := nofun
  apart := nofun
  complete := nofun

/-- A process changes. It keeps its memory or takes over memory that no other process has, and what
is written is not the memory of the others, nor the variables if one of them waits. -/
lemma SysInv.setProc (h : SysInv s) {p : ℕ} {proc : Proc} {statics : Statics} {mem : Memory}
    (hothers : ∀ q proc', q ≠ p → s.procs q = some proc' →
      AgreeOn proc'.load.region mem s.mem ∧ (proc'.Waits → statics = s.statics))
    (hproc : proc.running = false → Loading statics mem proc.load proc.done)
    (hapart : ∀ q proc', q ≠ p → s.procs q = some proc' →
      ∀ a, ¬ (proc.load.region a ∧ proc'.load.region a))
    (hcomplete : proc.running → proc.done = proc.load.records.length) :
    SysInv ⟨statics, mem, update s.procs p (some proc)⟩ := by
  have hcases : ∀ q proc', update s.procs p (some proc) q = some proc' →
      q = p ∧ proc = proc' ∨ q ≠ p ∧ s.procs q = some proc' :=
    fun q proc' hq => (update_cases hq).imp_left (And.imp_right Option.some.inj)
  constructor
  · intro q load' done' hq
    rcases hcases q _ hq with ⟨rfl, rfl⟩ | ⟨hqp, hq⟩
    · exact hproc rfl
    · obtain ⟨himage, hstatics⟩ := hothers q _ hqp hq
      have hold := h.loading q load' done' hq
      refine { hold with image := fun x hx => ?_, statics := fun hlt hne => ?_ }
      · exact (himage x hx).trans (hold.image x hx)
      · exact (hstatics ⟨hlt, hne⟩).trans (hold.statics hlt hne)
  · intro q q' proc₁ proc₂ hne h₁ h₂ a
    rcases hcases q _ h₁ with ⟨rfl, rfl⟩ | ⟨hq, hs₁⟩ <;>
      rcases hcases q' _ h₂ with ⟨rfl, rfl⟩ | ⟨hq', hs₂⟩
    · exact absurd rfl hne
    · exact hapart q' proc₂ hq' hs₂ a
    · exact fun hboth => hapart q proc₁ hq hs₁ a hboth.symm
    · exact h.apart q q' proc₁ proc₂ hne hs₁ hs₂ a
  · intro q proc' hq hrun
    rcases hcases q _ hq with ⟨rfl, rfl⟩ | ⟨hqp, hq⟩
    · exact hcomplete hrun
    · exact h.complete q proc' hq hrun

lemma SysInv.reloc (h : SysInv s) {p : ℕ} {stale : Word} (hown : Own s (.reloc p stale))
    (hstep : step s (.reloc p stale) = some (s', es)) :
    SysInv s' ∧ ∀ q proc, q ≠ p → s.procs q = some proc → AgreeOn proc.load.region s'.mem s.mem := by
  simp only [step] at hstep
  cases hp : s.procs p with
  | none => simp [hp] at hstep
  | some proc =>
    obtain ⟨load, done, running⟩ := proc
    simp only [hp] at hstep
    cases hrec : load.records[done]? with
    | none => simp [hrec] at hstep
    | some read =>
      simp only [hrec] at hstep
      have hlt : done < load.records.length := (List.getElem?_eq_some_iff.1 hrec).1
      have hrunning : running = false := by
        cases running with
        | false => rfl
        | true => exact absurd (h.complete p _ hp rfl) (Nat.ne_of_lt hlt)
      subst hrunning
      obtain ⟨hshort, hown⟩ := hown load done false read hp hrec
      obtain ⟨hload, hframe⟩ := (h.loading p load done hp).record stale hrec hshort
        fun r hr => ⟨(hown r hr).1, (hown r hr).2.2⟩
      have hs' := congrArg Prod.fst (Option.some.inj hstep)
      subst hs'
      have hothers : ∀ q proc, q ≠ p → s.procs q = some proc →
          AgreeOn proc.load.region (relocRecord load.mm stale read (s.statics, s.mem)).2 s.mem := by
        intro q proc hq hproc x hx
        exact hframe x fun hxp => h.apart p q _ proc (Ne.symm hq) hp hproc x ⟨hxp, hx⟩
      refine ⟨h.setProc (fun q proc hq hproc => ⟨hothers q proc hq hproc, fun hwaits => ?_⟩)
        (fun _ => hload) (fun q proc' hq hproc' =>
        h.apart p q ⟨load, done, false⟩ proc' (Ne.symm hq) hp hproc') nofun, hothers⟩
      refine relocRecord_statics hshort fun r hr => ?_
      by_contra hwrites
      exact (hown r hr).2.1 hwrites q proc hq hproc hwaits

lemma SysInv.step {a : Act} (h : SysInv s) (hplaced : Placed s a) (hown : Own s a)
    (hstep : step s a = some (s', es)) : SysInv s' := by
  cases a with
  | reloc p => exact (h.reloc hown hstep).1
  | exec p load =>
    cases hstep
    refine h.setProc ?_ (fun _ => ⟨fun x hx => if_pos hx, nofun, rfl, fun _ hne => absurd rfl hne⟩)
      hplaced nofun
    refine fun q proc' hq hproc' => ⟨fun x hx => ?_, fun _ => rfl⟩
    exact if_neg fun hxp => hplaced q proc' hq hproc' x ⟨hxp, hx⟩
  | start p =>
    simp only [Flat.step] at hstep
    cases hp : s.procs p with
    | none => simp [hp] at hstep
    | some proc =>
      obtain ⟨load, done, running⟩ := proc
      simp only [hp] at hstep
      split_ifs at hstep with hdone
      cases hstep
      exact h.setProc (fun _ _ _ _ => ⟨fun _ _ => rfl, fun _ => rfl⟩) nofun (fun q proc' hq hproc' =>
        h.apart p q ⟨load, done, running⟩ proc' (Ne.symm hq) hp hproc') fun _ => hdone
  | store p x v =>
    simp only [Flat.step] at hstep
    cases hp : s.procs p with
    | none => simp [hp] at hstep
    | some proc =>
      simp only [hp] at hstep
      split_ifs at hstep with hmine
      simp only [Bool.and_eq_true] at hmine
      cases hstep
      refine ⟨fun q load' done' hq => ?_, h.apart, h.complete⟩
      have hold := h.loading q load' done' hq
      have hqp : q ≠ p := by
        rintro rfl
        rw [hp] at hq
        cases hq
        exact absurd hmine.1 Bool.false_ne_true
      refine { hold with image := fun y hy => ?_ }
      have hyx : y ≠ x := by
        rintro rfl
        exact h.apart p q proc _ (Ne.symm hqp) hp hq y ⟨hmine.2, hy⟩
      exact (update_of_ne hyx _ _).trans (hold.image y hy)
  | exit p =>
    cases hstep
    have hold : ∀ {q proc}, update s.procs p none q = some proc → s.procs q = some proc := by
      intro q proc hq
      by_cases hqp : q = p
      · subst hqp
        simp at hq
      · rwa [update_of_ne hqp] at hq
    exact ⟨fun q load' done' hq => h.loading q load' done' (hold hq),
      fun q q' proc₁ proc₂ hne h₁ h₂ => h.apart q q' proc₁ proc₂ hne (hold h₁) (hold h₂),
      fun q proc' hq hrun => h.complete q proc' (hold hq) hrun⟩

/-- **Isolation.** In every run whose relocation steps are `Own`, every complete load has the image
that it has alone after boot, and the next relocation step changes no byte of another process. -/
theorem isolated_of_own {mem : Memory} {acts : List Act}
    (hrun : Exec step (fun s a => Placed s a ∧ Own s a) (Sys.boot mem) acts es s) :
    Isolated s ∧
      ∀ p stale s' es', Own s (.reloc p stale) → step s (.reloc p stale) = some (s', es') →
        ∀ q proc, q ≠ p → s.procs q = some proc → AgreeOn proc.load.region s'.mem s.mem := by
  have hinv : SysInv s := hrun.invariant_state (sysInv_boot mem)
    fun t a u fs ht hok hs => ht.step hok.1 hok.2 hs
  exact ⟨fun p load hp => (hinv.loading p load _ hp).image,
    fun p stale s' es' hown hs => (hinv.reloc hown hs).2⟩

/-! ## Two loads -/

/-- A binary of one page, empty apart from its records. -/
def onePage (page : Word) (records : List Read) : Load where
  mm := { startCode := page <<< 12, startData := page <<< 12, endData := page <<< 12 }
  region := fun a => a >>> 12 == page
  image := fun _ => 0
  records := records

/-- Both processes have mapped their memory and processed no record. -/
def twoLoads (load load' : Load) : Sys where
  statics := Statics.boot
  mem := fun a => if load'.region a then load'.image a else if load.region a then load.image a else 0
  procs := update (update (fun _ => none) 1 (some ⟨load, 0, false⟩)) 2 (some ⟨load', 0, false⟩)

lemma exec_twoLoads {page page' : Word} (h : page ≠ page') (records records' : List Read) :
    Exec step (fun s a => Placed s a ∧ Own s a) (Sys.boot fun _ => 0)
      [.exec 1 (onePage page records), .exec 2 (onePage page' records')] []
      (twoLoads (onePage page records) (onePage page' records')) := by
  have hfirst : Exec step (fun s a => Placed s a ∧ Own s a) (Sys.boot fun _ => 0)
      [.exec 1 (onePage page records)] [] _ := .single ⟨nofun, trivial⟩ rfl
  refine hfirst.trans (.single ⟨?_, trivial⟩ rfl)
  intro q proc hq hproc a ha
  by_cases hq₁ : q = 1
  · subst hq₁
    simp only [update_self, Option.some.injEq] at hproc
    subst hproc
    simp only [onePage, beq_iff_eq] at ha
    exact h (ha.2.symm.trans ha.1)
  · simp only [update_of_ne hq₁] at hproc
    cases hproc

instance (proc : Proc) : Decidable proc.Waits := inferInstanceAs (Decidable (_ ∧ _))

/-- The condition on a record, evaluated where only the processes 1 and 2 exist. -/
def recordTest (s : Sys) (p : ℕ) (load : Load) (done : ℕ) : Read → Bool
  | .failed => true
  | .short => false
  | .full r =>
    (relocPtr load.mm r).all (fun ptr => decide (Covers load.region ptr)) &&
    (decide (relocType r ∈ [none, some .abs32]) ||
      [1, 2].all fun q => q == p || (s.procs q).all fun proc => !decide proc.Waits) &&
    (relocType r != some .lo16 || !s.statics.hiFlag || load.pending done != none)

def ownTest (s : Sys) : Act → Bool
  | .reloc p _ => (s.procs p).all fun proc =>
      (proc.load.records[proc.done]?).all (recordTest s p proc.load proc.done)
  | _ => false

lemma own_of_ownTest {s : Sys} {a : Act} (hs : ∀ q, q ∉ [1, 2] → s.procs q = none)
    (h : ownTest s a) : Placed s a ∧ Own s a := by
  cases a with
  | reloc p stale =>
    refine ⟨trivial, ?_⟩
    intro load done running read hp hrec
    have h : recordTest s p load done read := by
      rw [ownTest, hp] at h
      simpa only [Option.all_some, hrec] using h
    cases read with
    | failed => exact ⟨nofun, nofun⟩
    | short => cases h
    | full r =>
      simp only [recordTest, Bool.and_eq_true] at h
      refine ⟨nofun, fun r' hr => ?_⟩
      cases hr
      refine ⟨fun ptr hptr => ?_, fun hwrites q proc hq hproc => ?_, fun hlo hflag => ?_⟩
      · have hcovers := h.1.1
        rw [hptr] at hcovers
        exact of_decide_eq_true hcovers
      · have hmem : q ∈ [1, 2] := by
          by_contra hno
          rw [hs q hno] at hproc
          cases hproc
        have hall := (Bool.or_eq_true_iff.1 h.1.2).resolve_left (by simpa using hwrites)
        simpa [hq, hproc] using List.all_eq_true.1 hall q hmem
      · simpa [hlo, hflag] using h.2
  | exec | start | store | exit => cases h

/-- Relocation steps make no new processes. -/
lemma only_of_step {s s' : Sys} {a : Act} {es : List Empty} (hs : ∀ q, q ∉ [1, 2] → s.procs q = none)
    (htest : ownTest s a) (hstep : step s a = some (s', es)) :
    ∀ q, q ∉ [1, 2] → s'.procs q = none := by
  cases a with
  | reloc p stale =>
    intro q hq
    simp only [step] at hstep
    split at hstep
    · cases hstep
    · rename_i hp
      split at hstep
      · cases hstep
      · cases hstep
        have hqp : q ≠ p := by
          rintro rfl
          rw [hs q hq] at hp
          cases hp
        exact (update_of_ne hqp _ _).trans (hs q hq)
  | exec | start | store | exit => cases htest

/-- Two loads relocate at the same time; the HI16 and the LO16 record of the second have a 32-bit
record of the first between them. -/
theorem isolated_of_own_interleaved :
    ∃ s es,
      Exec step (fun s a => Placed s a ∧ Own s a) (Sys.boot fun _ => 0)
        ([.exec 1 (onePage 0x80011 [.full 0x1000000, .full 0x2000004, .full 0x8]),
          .exec 2 (onePage 0x80012 [.full 0x1000000, .full 0x2000004])] ++
        [.reloc 1 0, .reloc 1 0, .reloc 2 0, .reloc 1 0, .reloc 2 0]) es s ∧
      s.mem.word 0x80011000 = 0x8001 ∧ s.mem.word 0x80012004 = 0x2000 ∧ Isolated s := by
  have hruns : ((Exec.run step ownTest (twoLoads
      (onePage 0x80011 [.full 0x1000000, .full 0x2000004, .full 0x8])
      (onePage 0x80012 [.full 0x1000000, .full 0x2000004]))
      [.reloc 1 0, .reloc 1 0, .reloc 2 0, .reloc 1 0, .reloc 2 0]).map fun r =>
        r.1.mem.word 0x80011000 == 0x8001 && r.1.mem.word 0x80012004 == 0x2000) = some true := by
    decide +kernel
  obtain ⟨s, es, htested, hmem⟩ := Exec.exists_of_run (fun _ _ h => h) _ hruns
  have hrun := htested.mono_of_invariant (P := fun s => ∀ q, q ∉ [1, 2] → s.procs q = none)
    (fun q hq => by simp_all [twoLoads, update])
    (fun t a u fs hs htest hstep => only_of_step hs htest hstep) fun t a hs htest => own_of_ownTest hs htest
  simp only [Bool.and_eq_true, beq_iff_eq] at hmem
  have hall := (exec_twoLoads (by decide) _ _).trans hrun
  exact ⟨s, _, hall, hmem.1, hmem.2, (isolated_of_own hall).1⟩

/-- The first load ends with a HI16 record, the second begins with a LO16 record: the second
writes into the memory of the first, and its own image is not the one it has alone. -/
theorem pending_hi16_reaches_next_load :
    ∃ s s' es,
      Exec step Placed (Sys.boot fun _ => 0)
        ([.exec 1 (onePage 0x80011 [.full 0x1000000]),
          .exec 2 (onePage 0x80012 [.full 0x2000004])] ++ [.reloc 1 0]) es s ∧
      step s (.reloc 2 0) = some (s', []) ∧
      (∃ proc, s.procs 1 = some proc ∧ ¬ AgreeOn proc.load.region s'.mem s.mem) ∧
      ¬ Isolated s' := by
  have hpages : (0x80011 : Word) ≠ 0x80012 := by decide
  have hstart := (exec_twoLoads hpages [.full 0x1000000] [.full 0x2000004]).mono fun _ _ h => h.1
  refine ⟨_, _, _, hstart.trans (.single trivial rfl), rfl, ⟨_, rfl, fun h => ?_⟩, fun h => ?_⟩
  · have hbyte := h 0x80011000 (by decide)
    revert hbyte
    decide +kernel
  · have hbyte := h 2 (onePage 0x80012 [.full 0x2000004]) rfl 0x80012005 (by decide)
    revert hbyte
    decide +kernel

end PsxLinux.Flat
