import PsxLinux.Elf2psx.ConvertTheorems

/-!
# What a rejected ELF leaves behind

`main` opens its output after the first pass over the program headers, and the second pass
makes one more test of each of them. Both passes add in 32 bits, so a segment that wraps may
pass the first and fail the second, with the output already written.
-/

namespace PsxLinux.Elf2psx

open Lib List UInt32

/-- The failures that are about the contents of the ELF file. -/
def Failure.rejects : Failure → Bool
  | invalidElfMagic | not32Bit | notLittleEndian | unusualPhdrEntrySize | notMips
  | notExecutable | noPtLoad | endsTooLate | notAligned | outOfRange => true
  | _ => false

/-- Whenever `main` rejects this ELF file, the output was not opened. -/
def RejectsFirst (elf : File) : Prop :=
  ∀ (env : Env) (argv : List String) (region : Region) (fnameElf fnamePsx : String)
    (stop : Stop) (f : Failure), readArguments argv = .ok (region, fnameElf, fnamePsx) →
    env.files fnameElf = some elf → main env argv = .error stop → f.rejects →
    stop.message = f.message → stop.psx = none

/-- Every loaded segment that wraps starts below the last page of another one's 32-bit end and
ends, in 32 bits, no earlier than another one starts. -/
def WrapsInside (hdrs : List Phdr) : Prop :=
  ∀ h ∈ hdrs, h.loads → 2 ^ 32 ≤ h.stop →
    (∃ p ∈ hdrs, p.loads ∧ h.vaddr.toNat < roundUp (p.stop % 2 ^ 32)) ∧
    ∃ p ∈ hdrs, p.loads ∧ p.vaddr.toNat ≤ h.stop - 2 ^ 32

/-- The test of the second pass. -/
def Inside (r : Range) (h : Phdr) : Prop :=
  h.vaddr - r.ftext < r.aedata - r.ftext ∧ h.vaddr - r.ftext + h.filesz ≤ r.aedata - r.ftext

lemma roundUp_mono {a b : ℕ} (h : a ≤ b) : roundUp a ≤ roundUp b :=
  Nat.mul_le_mul_right _ (Nat.div_le_div_right (Nat.add_le_add_right h _))

/-- **The second test, given the first.** -/
theorem inside_iff {hdrs : List Phdr} (hc : checkRange (findRange hdrs) = .ok ()) :
    (∀ h ∈ hdrs, h.loads → Inside (findRange hdrs) h) ↔ WrapsInside hdrs := by
  have hf := rangeFacts hc
  have hok := findRange_ok hdrs
  obtain ⟨q, hq, hql, hftext⟩ := hf.ftext_mem
  have hround : (findRange hdrs).edata.toNat ≤ roundUp (findRange hdrs).edata.toNat ∧
      roundUp (findRange hdrs).edata.toNat < 2 ^ 32 := by
    have hlate := hf.late
    unfold roundUp
    omega
  have hend : ∀ p : Phdr, (p.vaddr + p.filesz).toNat = p.stop % 2 ^ 32 :=
    fun p => UInt32.toNat_add _ _
  refine forall₃_congr fun h hh hl => ?_
  have hfv := le_iff_toNat_le.mp (hok.ftext_le h hh hl)
  have hsub : (h.vaddr - (findRange hdrs).ftext).toNat = _ :=
    UInt32.toNat_sub_of_le _ _ (hok.ftext_le h hh hl)
  have hedata := le_iff_toNat_le.mp (hok.le_edata h hh hl)
  -- the last page and the first byte of the image
  have hlast : (∃ p ∈ hdrs, p.loads ∧ h.vaddr.toNat < roundUp (p.stop % 2 ^ 32)) ↔
      h.vaddr.toNat < roundUp (findRange hdrs).edata.toNat := by
    constructor
    · rintro ⟨p, hp, hpl, hlt⟩
      refine lt_of_lt_of_le hlt (roundUp_mono ?_)
      exact le_iff_toNat_le.mp (hok.le_edata p hp hpl)
    · intro hlt
      rcases hok.edata_mem with h0 | ⟨p, hp, hpl, hpe⟩
      · rw [h0] at hlt
        exact absurd hlt (Nat.not_lt_zero _)
      · refine ⟨p, hp, hpl, ?_⟩
        rwa [← hend, ← hpe]
  have hfirst : (∃ p ∈ hdrs, p.loads ∧ p.vaddr.toNat ≤ h.stop - 2 ^ 32) ↔
      (findRange hdrs).ftext.toNat ≤ h.stop - 2 ^ 32 := by
    constructor
    · rintro ⟨p, hp, hpl, hlt⟩
      exact (le_iff_toNat_le.mp (hok.ftext_le p hp hpl)).trans hlt
    · exact fun hlt => ⟨q, hq, hql, hftext ▸ hlt⟩
  rw [hlast, hfirst, Inside, UInt32.lt_iff_toNat_lt, UInt32.le_iff_toNat_le, UInt32.toNat_add,
    hsub, hf.filesz]
  -- a segment that does not wrap passes the test, one that wraps has to end past `ftext`
  have hpos : 0 < h.filesz.toNat := lt_iff_toNat_lt.mp hl.2
  have hlate : (h.vaddr.toNat + h.filesz.toNat) % 2 ^ 32 ≤ _ := hedata.trans hround.1
  have hlen := h.filesz.toNat_lt
  clear hlast hfirst
  unfold Phdr.stop
  omega

/-! ## How `main` fails -/

lemma checkElf_psx {elf : File} {stop : Stop} (h : checkElf elf = .error stop) :
    stop.psx = none := by
  unfold checkElf fail at h
  simp only at h
  split_ifs at h <;> cases h <;> rfl

lemma checkRange_psx {r : Range} {stop : Stop} (h : checkRange r = .error stop) :
    stop.psx = none := by
  unfold checkRange fail at h
  split_ifs at h <;> cases h <;> rfl

/-- Nothing goes wrong with the files: the writes succeed and the segments can be read. -/
def Smooth (env : Env) (elf : ℕ → File) (hdrs : List Phdr) : Prop :=
  (∀ n, env.writes n) ∧
    ∀ n, ∀ h ∈ hdrs, h.loads → h.offset.toNat + h.filesz.toNat ≤ (elf n).size

/-- The failures of `main` after the first pass. -/
inductive LateFailure (env : Env) (elf : ℕ → File) (r : Range) (hdrs : List Phdr) : Stop → Prop
  | create {name : String} : env.creates name = false →
      LateFailure env elf r hdrs ⟨Failure.fopenPsx.message, none⟩
  | io {f : Failure} {psx : Option File} : f ∈ [.fwriteHead, .fwriteZero, .fwriteCopy, .freadCopy] →
      ¬ Smooth env elf hdrs → LateFailure env elf r hdrs ⟨f.message, psx⟩
  | range {h : Phdr} {psx : File} : h ∈ hdrs → h.loads → ¬ Inside r h →
      LateFailure env elf r hdrs ⟨Failure.outOfRange.message, psx⟩

section Late

variable {env : Env} {elf : ℕ → File} {r : Range} {hdrs : List Phdr} {stop : Stop}

lemma LateFailure.cons (h : LateFailure env elf r hdrs stop) (g : Phdr) :
    LateFailure env elf r (g :: hdrs) stop := by
  cases h with
  | create hname => exact .create hname
  | io hf hno => exact .io hf fun hs => hno ⟨hs.1, fun n p hp => hs.2 n p (mem_cons_of_mem _ hp)⟩
  | range hp hl hout => exact .range (mem_cons_of_mem _ hp) hl hout

/-- The zero fill ends, and fails only where a write does. -/
lemma zeroFill_error {filesz : UInt32} (hle : filesz.toNat ≤ 0x80200000) :
    ∀ (fuel : ℕ) (i : UInt32) (n pos : ℕ) (psx : File), i.toNat < filesz.toNat + 0x800 →
      filesz.toNat + 0x800 ≤ 0x800 * fuel + i.toNat →
      zeroFill env filesz fuel i n pos psx = .error stop → LateFailure env elf r hdrs stop := by
  intro fuel
  induction fuel with
  | zero =>
    intro i n pos psx hi hfuel
    omega
  | succ fuel ih =>
    intro i n pos psx hi hfuel h
    rw [zeroFill] at h
    split_ifs at h with hlt hw
    · have hlt' := lt_iff_toNat_lt.mp hlt
      have hi' : (i + 0x800).toNat = i.toNat + 0x800 := by
        show (i.toNat + 0x800) % 2 ^ 32 = _
        omega
      exact ih _ _ _ _ (by omega) (by omega) h
    · cases h
      exact .io (by simp) fun hs => hw (hs.1 n)

/-- The second pass fails for a file operation or for a segment outside the image. -/
lemma applyLoads_error : ∀ (n : ℕ) (psx : File),
    applyLoads env elf r.ftext (r.aedata - r.ftext) hdrs n psx = .error stop →
    LateFailure env elf r hdrs stop := by
  induction hdrs with
  | nil => intro n psx h; cases h
  | cons g hdrs ih =>
    intro n psx h
    rw [applyLoads] at h
    simp only at h
    split_ifs at h with ht h0 hr hs hw
    · exact (ih _ _ h).cons g
    · exact (ih _ _ h).cons g
    all_goals have hl : g.loads := ⟨not_not.mp ht, UInt32.pos_iff_ne_zero.mpr h0⟩
    · cases h
      refine .range mem_cons_self hl fun hin => ?_
      exact hr.elim (UInt32.not_le.mpr hin.1) (UInt32.not_lt.mpr hin.2)
    · cases h
      exact .io (by simp) fun hok => absurd (hok.2 n g mem_cons_self hl) (by omega)
    · exact (ih _ _ h).cons g
    · cases h
      exact .io (by simp) fun hok => hw (hok.1 n)

lemma fill_apply_error {psx : File} (hle : (r.aedata - r.ftext).toNat ≤ 0x80200000)
    (h : (zeroFill env (r.aedata - r.ftext) ((r.aedata - r.ftext).toNat + 1) 0 1 0x800 psx >>=
      fun p => applyLoads env elf r.ftext (r.aedata - r.ftext) hdrs p.1 p.2 >>=
        fun psx => pure (env.close psx)) = .error stop) :
    LateFailure env elf r hdrs stop := by
  cases hz : zeroFill env (r.aedata - r.ftext) ((r.aedata - r.ftext).toNat + 1) 0 1 0x800 psx with
  | error e =>
    rw [hz] at h
    cases h
    exact zeroFill_error hle _ _ _ _ _ (Nat.add_pos_right _ (by decide))
      (by rw [UInt32.toNat_zero]; omega) hz
  | ok p =>
    rw [hz] at h
    cases ha : applyLoads env elf r.ftext (r.aedata - r.ftext) hdrs p.1 p.2 with
    | error e =>
      refine applyLoads_error p.1 p.2 (ha.trans ?_)
      exact (congrArg (· >>= fun psx => pure (env.close psx)) ha).symm.trans h
    | ok psx => cases (congrArg (· >>= fun psx => pure (env.close psx)) ha).symm.trans h

end Late

/-- The first pass accepts the file. -/
def Accepted (elf : File) : Prop :=
  checkElf elf = .ok () ∧ checkRange (findRange (phdrs elf)) = .ok ()

/-- A failure of `main` on a file it could open: in the first pass, or later. -/
lemma main_error {env : Env} {argv : List String} {region : Region} {fnameElf fnamePsx : String}
    {elf : File} {stop : Stop} (hargs : readArguments argv = .ok (region, fnameElf, fnamePsx))
    (helf : env.files fnameElf = some elf) (h : main env argv = .error stop) :
    (stop.psx = none ∧ ¬ Accepted elf) ∨
      (Accepted elf ∧ LateFailure env (env.elfAt fnameElf fnamePsx elf) (findRange (phdrs elf))
        (phdrs elf) stop) := by
  unfold main at h
  rw [hargs] at h
  change (pure (region, fnameElf, fnamePsx) >>= _) = _ at h
  simp only [pure_bind, helf] at h
  cases hc : checkElf elf with
  | error e =>
    rw [hc] at h
    cases h
    exact .inl ⟨checkElf_psx hc, fun ha => by cases hc.symm.trans ha.1⟩
  | ok u =>
    rw [hc] at h
    cases hr : checkRange (findRange (phdrs elf)) with
    | error e =>
      rw [hr] at h
      cases h
      exact .inl ⟨checkRange_psx hr, fun ha => by cases hr.symm.trans ha.2⟩
    | ok u =>
      rw [hr] at h
      refine .inr ⟨⟨hc, hr⟩, ?_⟩
      split_ifs at h with hcr hw
      · exact fill_apply_error (rangeFacts hr).pages.2 h
      · cases h
        exact .io (by simp) fun hs => hw (hs.1 0)
      · cases h
        exact .create (by simpa using hcr)

lemma message_ne {f g : Failure} (hf : f.rejects)
    (hg : g ∈ [.fwriteHead, .fwriteZero, .fwriteCopy, .freadCopy]) : f.message ≠ g.message := by
  have hall : ∀ g ∈ [Failure.fwriteHead, .fwriteZero, .fwriteCopy, .freadCopy],
      f.message ≠ g.message := by
    cases f with
    | notEnoughArguments | invalidRegionFlag | fopenElf | freadElf | freadPhdrs | fopenPsx
    | fwriteHead | fwriteZero | freadCopy | fwriteCopy => cases hf
    | _ => decide
  exact hall g hg

/-- **When a rejected file leaves the output alone.** For every ELF file whose segments lie in
it, `main` rejects it only before the output is opened if and only if the first pass rejects
it too or the segments that wrap lie, in 32 bits, inside the image. -/
theorem rejectsFirst_iff {elf : File}
    (hread : ∀ h ∈ phdrs elf, h.loads → h.offset.toNat + h.filesz.toNat ≤ elf.size) :
    RejectsFirst elf ↔ (Accepted elf → WrapsInside (phdrs elf)) := by
  constructor
  · intro hfirst hacc
    rw [← inside_iff hacc.2]
    by_contra hout
    have hargs : readArguments sampleArgv = .ok (.ntscJapan, "in.elf", "out.exe") := rfl
    cases h : main (sampleEnv elf) sampleArgv with
    | ok out =>
      obtain ⟨env, n, psx, -, ha⟩ := (main_converted hargs rfl rfl (fun _ => rfl) h).fill
      exact hout (applyLoads_ok _ _ _ _ ha).2
    | error stop =>
      rcases main_error hargs rfl h with ⟨-, hno⟩ | ⟨-, hlate⟩
      · exact hno hacc
      cases hlate with
      | create hcr => cases hcr
      | io _ hno => exact hno ⟨fun _ => rfl, fun _ => hread⟩
      | range => cases hfirst _ _ _ _ _ _ .outOfRange hargs rfl h rfl rfl
  · intro hin env argv region fnameElf fnamePsx stop f hargs helf h hf hmsg
    rcases main_error hargs helf h with ⟨hnone, -⟩ | ⟨hacc, hlate⟩
    · exact hnone
    cases hlate with
    | create => rfl
    | io hio => exact absurd hmsg.symm (message_ne hf hio)
    | range hp hl hout => exact absurd ((inside_iff hacc.2).mpr (hin hacc) _ hp hl) hout

/-- Two segments, of which the second starts far above the first and wraps into it. -/
def wrappingDownElf : File :=
  sampleElf 0x1900 [⟨1, 0, 0, 0x800⟩, ⟨1, 0, 0xfffff000, 0x1800⟩]

/-- The first pass accepts these segments, the second does not. -/
theorem wrapping_down_writes_output :
    ∃ stop, (∀ h ∈ phdrs wrappingDownElf, h.loads →
        h.offset.toNat + h.filesz.toNat ≤ wrappingDownElf.size) ∧
      main (sampleEnv wrappingDownElf) sampleArgv = .error stop ∧
      stop.message = Failure.outOfRange.message ∧ stop.psx.isSome := by
  have hlate : (match main (sampleEnv wrappingDownElf) sampleArgv with
      | .ok _ => false
      | .error stop => decide (stop.message = Failure.outOfRange.message) && stop.psx.isSome) =
        true := by decide +kernel
  cases h : main (sampleEnv wrappingDownElf) sampleArgv with
  | ok out => simp [h] at hlate
  | error stop =>
    simp only [h, Bool.and_eq_true, decide_eq_true_eq] at hlate
    exact ⟨stop, by decide +kernel, rfl, hlate⟩

theorem rejectsFirst_overlapping :
    (∀ h ∈ phdrs overlappingElf, h.loads →
      h.offset.toNat + h.filesz.toNat ≤ overlappingElf.size) ∧ RejectsFirst overlappingElf := by
  have hread : ∀ h ∈ phdrs overlappingElf, h.loads →
      h.offset.toNat + h.filesz.toNat ≤ overlappingElf.size := by decide +kernel
  refine ⟨hread, (rejectsFirst_iff hread).mpr fun _ h hh hl hwrap => ?_⟩
  have hno : ∀ h ∈ phdrs overlappingElf, h.stop < 2 ^ 32 := by decide +kernel
  exact absurd (hno h hh) (Nat.not_lt.mpr hwrap)

end PsxLinux.Elf2psx
