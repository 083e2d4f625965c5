import PsxLinux.MathEmu.Machine

/-!
# The emulator follows the program

The handler stops at a state that the program reaches in program order. Every turn of its loop is
one instruction of the program, or a branch together with its delay slot. Five slips of
`cop1Emulate` break this, and `Thread.Regular` is the state that meets none of them.
-/

namespace PsxLinux.MathEmu

open Lib Mips Machine

/-! ## Condition codes -/

lemma fpucondbit_eq (i : BitVec 3) :
    fpucondbit i = BitVec.twoPow 32 (if i = 0 then 23 else 24 + i.toNat) := by
  revert i
  decide

/-- The masks of the emulator select the architecture's condition codes. -/
lemma and_fpucondbit (sr : BitVec 32) (i : BitVec 3) :
    (sr &&& fpucondbit i != 0) = conditionCode sr i := by
  have hne : fpucondbit i ≠ 0 := by
    revert i
    decide
  rw [conditionCode, fpucondbit_eq, BitVec.and_twoPow, ← fpucondbit_eq]
  generalize sr.getLsbD _ = b
  cases b
  · simp
  · simpa using hne

lemma and_one_ne_zero (field : BitVec 5) : (field &&& 1 != 0) = field.getLsbD 0 := by
  revert field
  decide

/-- The emulator tests the condition bit that the instruction names. -/
lemma movTest_eq (sr : BitVec 32) (field : BitVec 5) : movTest sr field = testsTrue sr field := by
  rw [movTest, testsTrue, and_fpucondbit, and_one_ne_zero]

lemma bcTaken_eq (ir sr : BitVec 32) : bcTaken ir sr = testsTrue sr (rt ir) := by
  have hone : (rt ir &&& 1 = 0) ↔ (rt ir).getLsbD 0 = false := by
    rw [← and_one_ne_zero]
    simp
  simp only [bcTaken, testsTrue, and_fpucondbit]
  split <;> simp_all

/-! ## Floating point instructions -/

/-- The computational instructions of a format, which converts to the format `cvt` selects. -/
def implementedFmt (cvt n : Nat) : Bool :=
  n ≤ 7 || n = cvt || n = 0x24 || 0x0c ≤ n && n ≤ 0x0f || 0x11 ≤ n && n ≤ 0x13 ||
    0x15 ≤ n && n ≤ 0x16 || 0x30 ≤ n

/-- The instructions, `bc1` apart, that the emulator knows. -/
def implemented (ir : BitVec 32) : Bool :=
  match (opcode ir).toNat with
  | 0x35 | 0x3d | 0x31 | 0x39 => true
  | 0x11 =>
    match (rs ir).toNat with
    | 0x00 | 0x02 | 0x04 | 0x06 => true
    | n =>
      if n &&& 0x10 = 0 then false
      else
        match n % 16 with
        | 0 => implementedFmt 0x21 (func ir).toNat
        | 1 => implementedFmt 0x20 (func ir).toNat
        | 4 => func ir = 0x20 || func ir = 0x21
        | _ => false
  | 0x13 =>
    match (func ir).toNat with
    | 0x00 | 0x01 | 0x08 | 0x09 | 0x20 | 0x21 | 0x28 | 0x29 | 0x30 | 0x31 | 0x38 | 0x39 => true
    | _ => false
  | 0x00 => func ir = 1
  | _ => false

/-- How a case of the `switch` ends: `SIGILL` only for an instruction that the emulator does not
know, and without a change; a return of 0 only for a conditional move; register 0 is written by
no other instruction than the move. -/
structure Exits (ir sr : BitVec 32) (d : Data) (r : Exit × Data) : Prop where
  ill : r.1 = .ret (some .ill) → r.2 = d ∧ implemented ir = false
  passed : r.1 = .ret none → r.2 = d ∧ isMovc ir ∧ movTest sr (rt ir) = false
  zero : isMovc ir = false → r.2.regs 0 = d.regs 0

variable {d' : Data}

section Exits
variable {ir sr status : BitVec 32} {d : Data}

lemma Exits.of_done (h : d'.regs 0 = d.regs 0) : Exits ir sr d (.done, d') where
  ill := nofun
  passed := nofun
  zero := fun _ => h

lemma Exits.of_bus (h : d'.regs 0 = d.regs 0) : Exits ir sr d (.ret (some .bus), d') where
  ill := nofun
  passed := nofun
  zero := fun _ => h

lemma Exits.of_ill (h : implemented ir = false) : Exits ir sr d (.ret (some .ill), d) where
  ill := fun _ => ⟨rfl, h⟩
  passed := nofun
  zero := fun _ => rfl

lemma Exits.of_sig {sig : Option Signal} (hregs : d'.regs = d.regs)
    (h : sig = some .ill → d' = d ∧ implemented ir = false) :
    Exits ir sr d (.ofSig sig, d') where
  ill := by
    intro hill
    cases sig with
    | none => cases hill
    | some sig =>
      injection hill with hill
      exact h hill
  passed := by
    intro hpassed
    cases sig <;> cases hpassed
  zero := by
    intro _
    rw [hregs]

lemma setGpr_zero {r : BitVec 5} (hr : r ≠ 0) (v : BitVec 32) : (d.setGpr r v).regs 0 = d.regs 0 :=
  Function.update_of_ne hr.symm _ _

lemma moveIf_ne_ill (csr : Csr) (c : Bool) (rv : Rv) : (moveIf csr c rv).1 ≠ .ret (some .ill) := by
  cases c <;> exact nofun

lemma fpuxFinish_ne_ill (ctx : FpuCtx) (rcsr : BitVec 32) :
    (fpuxFinish ctx rcsr).1 ≠ some .ill := by
  simp only [fpuxFinish]
  split <;> exact nofun

lemma convert_ill {csr : Csr} {r : Option (Rv × Csr)}
    (h : (convert csr r).1 = .ret (some .ill)) : r = none := by
  cases r with
  | none => rfl
  | some r => cases h

lemma fpuFmt_ill {f : Format} (ops : FmtOps f) (cvt : Nat) (gpr : BitVec 32) (fs ft : Fp f)
    (csr : Csr) (hcvt : cvt = 0x20 ∨ cvt = 0x21)
    (hs : cvt = 0x20 → ∀ csr x, ops.cvts csr x ≠ none)
    (hd : cvt = 0x21 → ∀ csr x, ops.cvtd csr x ≠ none)
    (h : (fpuFmt ops ir sr gpr fs ft csr).1 = .ret (some .ill)) :
    (fpuFmt ops ir sr gpr fs ft csr).2 = csr ∧ implementedFmt cvt (func ir).toNat = false := by
  unfold fpuFmt at h ⊢
  generalize (func ir).toNat = n at h ⊢
  split at h
  case h_8 | h_9 | h_10 | h_13 => exact absurd h (moveIf_ne_ill _ _ _)
  case h_14 => -- fcvts_op
    have hnone := convert_ill h
    have hne : 0x20 ≠ cvt := fun e => hs e.symm _ _ hnone
    rw [hnone]
    exact ⟨rfl, by simp [implementedFmt, hne]⟩
  case h_15 => -- fcvtd_op
    have hnone := convert_ill h
    have hne : 0x21 ≠ cvt := fun e => hd e.symm _ _ hnone
    rw [hnone]
    exact ⟨rfl, by simp [implementedFmt, hne]⟩
  case h_21 =>
    split at h
    case isTrue => cases h
    case isFalse hlow =>
      refine ⟨by simp [hlow], ?_⟩
      simp only [implementedFmt, Bool.or_eq_false_iff, Bool.and_eq_false_iff,
        decide_eq_false_iff_not]
      simp only [imp_false] at *
      omega
  all_goals cases h

/-- Only a computation that is not known returns `SIGILL`. -/
lemma fpuFinish_ne_ill (fd : BitVec 5) (ctx : FpuCtx) (rv : Rv) (rcsr : BitVec 32) :
    (fpuFinish status fd ctx rv rcsr).1 ≠ some .ill := by
  simp only [fpuFinish]
  split
  · exact nofun
  · cases rv <;> exact nofun

lemma fpuCompute_ill (hop : (opcode ir).toNat = 0x11) (hrs : (rs ir).toNat &&& 0x10 ≠ 0)
    (h : (fpuCompute status ir d).1 = .ret (some .ill)) :
    (fpuCompute status ir d).2 = d.csr ∧ implemented ir = false := by
  simp only [implemented, hop]
  split
  case h_5 =>
    rw [if_neg hrs]
    unfold fpuCompute at h ⊢
    generalize (rs ir).toNat % 16 = n at h ⊢
    split at h
    case h_1 =>
      exact fpuFmt_ill spOps 0x21 _ _ _ _ (.inr rfl) (by rintro ⟨⟩) (fun _ _ _ => by rintro ⟨⟩) h
    case h_2 =>
      exact fpuFmt_ill dpOps 0x20 _ _ _ _ (.inl rfl) (fun _ _ _ => by rintro ⟨⟩) (by rintro ⟨⟩) h
    case h_3 =>
      split at h
      case h_3 hs hd =>
        have hs' : func ir ≠ 0x20 := fun e => hs (by rw [e]; rfl)
        have hd' : func ir ≠ 0x21 := fun e => hd (by rw [e]; rfl)
        exact ⟨rfl, by simpa using ⟨hs', hd'⟩⟩
      all_goals cases h
    case h_4 h₀ h₁ h₄ =>
      refine ⟨rfl, ?_⟩
      rcases n with _ | _ | _ | _ | _ | n
      · exact absurd rfl h₀
      · exact absurd rfl h₁
      · rfl
      · rfl
      · exact absurd rfl h₄
      · rfl
  all_goals (rename_i hn; rw [hn] at hrs; exact absurd rfl hrs)

lemma fpuEmu_regs : (fpuEmu status ir d).2.regs = d.regs := by
  unfold fpuEmu
  split <;> rfl

lemma fpuEmu_ill (hop : (opcode ir).toNat = 0x11) (hrs : (rs ir).toNat &&& 0x10 ≠ 0)
    (h : (fpuEmu status ir d).1 = some .ill) :
    (fpuEmu status ir d).2 = d ∧ implemented ir = false := by
  have hcompute := @fpuCompute_ill ir status d hop hrs
  unfold fpuEmu at h ⊢
  rcases hr : fpuCompute status ir d with ⟨c, csr⟩
  rw [hr] at h hcompute
  cases c with
  | ret sig =>
    obtain ⟨hcsr, himpl⟩ := hcompute (congrArg Computed.ret h)
    subst hcsr
    exact ⟨rfl, himpl⟩
  | value rv rcsr => exact absurd h (fpuFinish_ne_ill _ _ _ _)

lemma exits_emulCop1 (hop : (opcode ir).toNat = 0x11) : Exits ir sr d (emulCop1 status ir d) := by
  unfold emulCop1
  split
  case h_1 => -- mfc_op
    apply Exits.of_done
    split
    case isTrue hrt => exact setGpr_zero hrt _
    case isFalse => rfl
  case h_2 => exact .of_done rfl
  case h_3 => -- cfc_op
    apply Exits.of_done
    split
    case isTrue hrt => exact setGpr_zero hrt _
    case isFalse => rfl
  case h_4 =>
    apply Exits.of_done
    split <;> rfl
  case h_5 h₀ h₄ h₂ h₆ =>
    split
    case isTrue hrs =>
      apply Exits.of_ill
      simp only [implemented]
      split <;> simp_all
    case isFalse hrs => exact .of_sig fpuEmu_regs (fpuEmu_ill hop hrs)

lemma fpuxEmu_regs (fault : BitVec 32 → Bool) : (fpuxEmu fault status ir d).2.regs = d.regs := by
  unfold fpuxEmu
  dsimp only
  split
  case h_1 | h_2 | h_7 => split <;> rfl
  all_goals rfl

lemma fpuxEmu_ill (fault : BitVec 32 → Bool) (hop : (opcode ir).toNat = 0x13)
    (h : (fpuxEmu fault status ir d).1 = some .ill) :
    (fpuxEmu fault status ir d).2 = d ∧ implemented ir = false := by
  simp only [implemented]
  unfold fpuxEmu at h ⊢
  dsimp only at h ⊢
  split at h
  case h_1 | h_2 | h_7 => split at h <;> cases h
  case h_8 => split at h <;> cases h
  case h_13 =>
    refine ⟨rfl, ?_⟩
    split <;> simp_all
  all_goals exact absurd h (fpuxFinish_ne_ill _ _)

/-- Every case of the `switch` ends in one of these ways. -/
lemma exits_emulInstr (fault : BitVec 32 → Bool) (ir status : BitVec 32) (d : Data) :
    Exits ir d.ctx.sr d (emulInstr fault status ir d) := by
  unfold emulInstr
  dsimp only
  split
  case h_1 => split <;> [exact .of_bus rfl; exact .of_done rfl]
  case h_2 =>
    cases (mipsPutDword fault status d.mem _ _).1
    · exact .of_done rfl
    · exact .of_bus rfl
  case h_3 | h_4 => split <;> [exact .of_bus rfl; exact .of_done rfl]
  case h_5 hop => exact exits_emulCop1 hop
  case h_6 hop => exact .of_sig (fpuxEmu_regs fault) (fpuxEmu_ill fault hop)
  case h_7 hop => -- spec_op
    have hop : opcode ir = 0 := BitVec.eq_of_toNat_eq hop
    split
    case isTrue hfunc => exact .of_ill (by simpa [implemented, hop] using hfunc)
    case isFalse hfunc =>
      have hmovc : isMovc ir := by
        simpa [isMovc, hop] using hfunc
      split
      case isTrue htest =>
        exact ⟨by rintro ⟨⟩, fun _ => ⟨rfl, hmovc, by simpa using htest⟩, fun _ => rfl⟩
      case isFalse =>
        refine ⟨by rintro ⟨⟩, by rintro ⟨⟩, fun h => ?_⟩
        rw [hmovc] at h
        cases h
  case h_8 =>
    apply Exits.of_ill
    unfold implemented
    split <;> simp_all

end Exits

/-! ## One instruction -/

section Instruction
variable {fault : BitVec 32 → Bool} {native : BitVec 32 → Machine → Machine}
variable {ir contpc status : BitVec 32} {d : Data} {s s' : Thread} {m : Machine}

/-- A conditional move is made or not as the architecture has it: register 0 is not written with
another value than 0. -/
def MoveRegular (d : Data) (ir : BitVec 32) : Prop :=
  isMovc ir → testsTrue d.ctx.sr (rt ir) → rd ir ≠ 0 ∨ d.regs (rs ir) = 0

instance : Decidable (MoveRegular d ir) := inferInstanceAs (Decidable (_ → _ → _))

lemma isMovc_iff : isMovc ir ↔ opcode ir = 0 ∧ func ir = 1 := by
  simp [isMovc]

lemma emulInstr_movc (h : isMovc ir) :
    emulInstr fault status ir d =
      if testsTrue d.ctx.sr (rt ir) then (.done, d.setGpr (rd ir) (d.regs (rs ir)))
      else (.ret none, d) := by
  obtain ⟨hop, hfunc⟩ := isMovc_iff.1 h
  simp only [emulInstr, hop, hfunc, movTest_eq]
  cases testsTrue d.ctx.sr (rt ir) <;> simp

/-- What the emulator completes is what the instruction does. -/
lemma executeFp_of_done (hzero : d.regs 0 = 0) (hmove : MoveRegular d ir)
    (h : emulInstr fault status ir d = (.done, d')) :
    executeFp fault status ir d = some d' ∧ d'.regs 0 = 0 := by
  by_cases hmovc : isMovc ir
  · rw [emulInstr_movc hmovc] at h
    split at h
    case isFalse => cases h
    case isTrue htest =>
      cases h
      simp only [executeFp, hmovc, htest, true_and]
      by_cases hrd : rd ir = 0
      · -- the move writes 0 into register 0
        have hrs := (hmove hmovc htest).resolve_left (not_not_intro hrd)
        have hsame : d.setGpr (rd ir) 0 = d := by
          rw [Data.setGpr, hrd, ← hzero, Function.update_eq_self]
        rw [if_neg (not_not_intro hrd), hrs, hsame]
        exact ⟨rfl, hzero⟩
      · rw [if_pos hrd]
        exact ⟨rfl, (setGpr_zero hrd _).trans hzero⟩
  · have hexits := exits_emulInstr fault ir status d
    rw [h] at hexits
    simp only [Bool.not_eq_true] at hmovc
    simp only [executeFp, hmovc, h]
    exact ⟨rfl, (hexits.zero hmovc).trans hzero⟩

lemma emulInstr_of_not_isOurs (h : isOurs ir = false) :
    emulInstr fault status ir d = (.ret (some .ill), d) := by
  unfold isOurs at h
  unfold emulInstr
  split <;> simp_all

lemma decode_of_isOurs (h : isOurs ir) (hbc : isBc ir = false) : Jump.decode ir = none := by
  unfold isOurs at h
  unfold Jump.decode
  split at h
  case h_5 hop =>
    have hrs : (rs ir).toNat ≠ 8 := by
      intro hrs
      have hbc' : isBc ir := by
        have h₁ : opcode ir = 0x11 := BitVec.eq_of_toNat_eq hop
        have h₂ : rs ir = 0x08 := BitVec.eq_of_toNat_eq hrs
        simp [isBc, h₁, h₂]
      rw [hbc] at hbc'
      cases hbc'
    split <;> simp_all
  case h_7 hop =>
    have hfunc : (func ir).toNat = 1 := by rw [of_decide_eq_true h]; rfl
    simp only [hop, hfunc]
  case h_8 => cases h
  all_goals
    rename_i hop
    simp only [hop]

/-- A completed emulation leaves the thread behind the instruction; a return of 0 without that is
a conditional move that is not made. -/
lemma emulPlain_none (h : emulPlain fault ir contpc s = (none, s')) :
    (∃ d, emulInstr fault s.xcp.cp0Status ir s.data = (.done, d) ∧
      s' = ((s.setData d).setEpc contpc).setBd false) ∨
    s' = s ∧ isMovc ir ∧ testsTrue s.ctx.sr (rt ir) = false := by
  have hexits := exits_emulInstr fault ir s.xcp.cp0Status s.data
  unfold emulPlain at h
  rcases hr : emulInstr fault s.xcp.cp0Status ir s.data with ⟨e, d⟩
  rw [hr] at h hexits
  cases e with
  | done =>
    left
    exact ⟨d, rfl, (congrArg Prod.snd h).symm⟩
  | ret sig =>
    right
    obtain ⟨hsig, hs⟩ := Prod.mk.inj h
    obtain ⟨hd, hmovc, htest⟩ := hexits.passed (congrArg Exit.ret hsig)
    subst hd
    exact ⟨hs.symm, hmovc, (movTest_eq _ _).symm.trans htest⟩

/-- `SIGILL` leaves the thread as it was. -/
lemma emulPlain_ill (h : emulPlain fault ir contpc s = (some .ill, s')) :
    s' = s ∧ implemented ir = false := by
  have hexits := exits_emulInstr fault ir s.xcp.cp0Status s.data
  unfold emulPlain at h
  rcases hr : emulInstr fault s.xcp.cp0Status ir s.data with ⟨e, d⟩
  rw [hr] at h hexits
  cases e with
  | done => cases h
  | ret sig =>
    obtain ⟨hsig, hs⟩ := Prod.mk.inj h
    obtain ⟨hd, himpl⟩ := hexits.ill (congrArg Exit.ret hsig)
    subst hd
    exact ⟨hs.symm, himpl⟩

lemma step_of_executeFp (hfetch : mipsGetWord fault m.status m.data.mem m.pc = some ir)
    (hours : isOurs ir) (hbc : isBc ir = false)
    (h : executeFp fault m.status ir m.data = some d) :
    m.step fault native = some { m.next with data := d } := by
  have hir : ir ≠ 0 := by
    rintro rfl
    exact absurd hours (by decide)
  simp only [step, hfetch, if_neg hir, hbc, decode_of_isOurs hours hbc, hours, h]
  rfl

lemma step_of_isBc (native : BitVec 32 → Machine → Machine) (m : Machine)
    (hfetch : mipsGetWord fault m.status m.data.mem m.pc = some ir)
    (hbc : isBc ir) :
    m.step fault native = some (m.branch (bcTaken ir m.data.ctx.sr) ((rt ir).getLsbD 1)
      (m.pc + 4#32 + (simm ir <<< 2))) := by
  have hir : ir ≠ 0 := by
    rintro rfl
    exact absurd hbc (by decide)
  simp only [step, hfetch, if_neg hir, hbc, if_true, bcTaken_eq]

lemma emulPlain_follows (native : BitVec 32 → Machine → Machine) (m : Machine)
    (hbc : isBc ir = false) (hzero : s.xcp.regs 0 = 0) (hmove : MoveRegular s.data ir)
    (hm : m.data = s.data ∧ m.status = s.xcp.cp0Status)
    (hfetch : mipsGetWord fault m.status m.data.mem m.pc = some ir)
    (h : emulInstr fault s.xcp.cp0Status ir s.data = (.done, d)) :
    m.step fault native = some { m.next with data := d } ∧ d.regs 0 = 0 := by
  have hours : isOurs ir := by
    by_contra hours
    rw [emulInstr_of_not_isOurs (Bool.not_eq_true _ ▸ hours)] at h
    cases h
  obtain ⟨hexecute, hzero'⟩ := executeFp_of_done hzero hmove h
  rw [← hm.1, ← hm.2] at hexecute
  exact ⟨step_of_executeFp hfetch hours hbc hexecute, hzero'⟩

end Instruction

/-! ## One turn of the handler -/

/-- The word in the delay slot of a taken branch. It is no jump or branch; if it is a floating
point instruction, then one the emulator knows, and a conditional move in it is made. -/
structure SlotRegular (d : Data) (ir : BitVec 32) : Prop where
  plain : isBc ir = false ∧ Jump.decode ir = none
  known : isOurs ir → implemented ir
  made : isMovc ir → testsTrue d.ctx.sr (rt ir)
  move : MoveRegular d ir

instance {d : Data} {ir : BitVec 32} : Decidable (SlotRegular d ir) :=
  decidable_of_iff ((isBc ir = false ∧ Jump.decode ir = none) ∧
      (isOurs ir → implemented ir) ∧
      (isMovc ir → testsTrue d.ctx.sr (rt ir)) ∧ MoveRegular d ir)
    ⟨fun ⟨h₁, h₂, h₃, h₄⟩ => ⟨h₁, h₂, h₃, h₄⟩, fun ⟨h₁, h₂, h₃, h₄⟩ => ⟨h₁, h₂, h₃, h₄⟩⟩

/-- The instruction at the saved address, where the handler entered at `start`. -/
structure Thread.Regular (start : BitVec 32) (s : Thread) : Prop where
  /-- a delay slot flag that is left set does not meet a branch -/
  flag : s.bd → isBranchInstr (s.mem.word s.xcp.cp0Epc) = false
  /-- a likely branch is taken -/
  likely : isBc (s.mem.word s.xcp.cp0Epc) →
    testsTrue s.ctx.sr (rt (s.mem.word s.xcp.cp0Epc)) = false →
    (rt (s.mem.word s.xcp.cp0Epc)).getLsbD 1 = false
  slot : isBc (s.mem.word s.xcp.cp0Epc) →
    testsTrue s.ctx.sr (rt (s.mem.word s.xcp.cp0Epc)) →
    SlotRegular s.data (s.mem.word (s.xcp.cp0Epc + 4))
  /-- a conditional move that is not made is not the first instruction -/
  first : isMovc (s.mem.word s.xcp.cp0Epc) →
    testsTrue s.ctx.sr (rt (s.mem.word s.xcp.cp0Epc)) = false → s.xcp.cp0Epc ≠ start
  move : MoveRegular s.data (s.mem.word s.xcp.cp0Epc)

instance {start : BitVec 32} {s : Thread} : Decidable (s.Regular start) :=
  let ir := s.mem.word s.xcp.cp0Epc
  let test := testsTrue s.ctx.sr (rt ir)
  decidable_of_iff ((s.bd → isBranchInstr ir = false) ∧
      (isBc ir → test = false → (rt ir).getLsbD 1 = false) ∧
      (isBc ir → test → SlotRegular s.data (s.mem.word (s.xcp.cp0Epc + 4))) ∧
      (isMovc ir → test = false → s.xcp.cp0Epc ≠ start) ∧ MoveRegular s.data ir)
    ⟨fun ⟨h₁, h₂, h₃, h₄, h₅⟩ => ⟨h₁, h₂, h₃, h₄, h₅⟩,
      fun ⟨h₁, h₂, h₃, h₄, h₅⟩ => ⟨h₁, h₂, h₃, h₄, h₅⟩⟩

section Turn
variable {fault : BitVec 32 → Bool} {native : BitVec 32 → Machine → Machine}
variable {ir start : BitVec 32} {s s' : Thread}

/-- Some instructions of the program, at least one. -/
def Machine.Runs (fault : BitVec 32 → Bool) (native : BitVec 32 → Machine → Machine) :
    Machine → Machine → Prop :=
  Relation.TransGen fun m m' => m.step fault native = some m'

/-- What a turn of the handler's loop that starts at `s` does. It runs instructions of the
program; or it stays where it is, at an instruction that it does not know or at a conditional
move behind the first instruction. -/
def TurnFollows (fault : BitVec 32 → Bool) (native : BitVec 32 → Machine → Machine)
    (start : BitVec 32) (s : Thread) : Option Signal × Thread → Prop
  | (none, s') => s'.dsemul = s.dsemul ∧ s'.xcp.regs 0 = 0 ∧
      (Machine.Runs fault native s.machine s'.machine ∨
        s'.machine = s.machine ∧ s.xcp.cp0Epc ≠ start)
  | (some .ill, s') => s'.dsemul = s.dsemul ∧ s'.machine = s.machine ∨
      ∃ m, Machine.Runs fault native s.machine m ∧ s.Lands native s' m
  | _ => True

lemma mipsGetWord_eq {status va w : BitVec 32} {mem : Memory}
    (h : mipsGetWord fault status mem va = some w) : mem.word va = w := by
  unfold mipsGetWord at h
  split at h
  · cases h
  · exact Option.some.inj h

lemma mipsPutWord_eq {status va val : BitVec 32} {mem mem' : Memory}
    (h : mipsPutWord fault status mem va val = some mem') : mem' = mem.setWord va val := by
  unfold mipsPutWord at h
  split at h
  · cases h
  · exact (Option.some.inj h).symm

/-- The thread with a trampoline for `ir` at `insns`, which ends in the word `trap`. -/
def Thread.withTrampoline (s : Thread) (ir cpc insns trap : BitVec 32) : Thread :=
  { s.setEpc insns with
    mem := (s.mem.setWord insns ir).setWord (insns + 4) trap
    dsemul := some { epc := cpc, aerpc := insns + 4 } }

lemma mipsDsemul_cases {cpc : BitVec 32} (hir : ir ≠ 0) :
    (∃ s', mipsDsemul fault ir cpc s = (some .bus, s')) ∨
    ∃ insns trap, (trap = adeload ∨ trap = adeload - 1) ∧
      mipsDsemul fault ir cpc s = (some .ill, s.withTrampoline ir cpc insns trap) := by
  simp only [mipsDsemul, if_neg hir]
  split
  · exact .inl ⟨_, rfl⟩
  case h_2 mem₁ hput₁ =>
    split
    · exact .inl ⟨_, rfl⟩
    case h_2 mem₂ hput₂ =>
      right
      rw [mipsPutWord_eq hput₂, mipsPutWord_eq hput₁]
      refine ⟨_, _, ?_, rfl⟩
      split
      · exact .inr rfl
      · exact .inl rfl

/-- The trampoline stands for the instruction it holds. -/
lemma pending_withTrampoline (s : Thread) (ir cpc insns : BitVec 32) {trap : BitVec 32}
    (htrap : trap = adeload ∨ trap = adeload - 1) :
    (s.withTrampoline ir cpc insns trap).Pending native { epc := cpc, aerpc := insns + 4 }
      { native ir { s.machine with npc := cpc } with pc := cpc, npc := cpc + 4 } where
  dsemul := rfl
  aerpc := rfl
  trap := by
    have hword : (s.withTrampoline ir cpc insns trap).mem.word (insns + 4) = trap :=
      Memory.word_setWord _
    rw [hword]
    exact htrap
  behind := by
    have hword : (s.withTrampoline ir cpc insns trap).mem.word insns = ir := by
      refine (Memory.word_setWord_of_le ?_ ?_).trans (Memory.word_setWord _) <;> bv_omega
    refine ⟨{ s.machine with npc := cpc }, rfl, rfl, rfl, rfl, rfl, rfl, ?_, ?_⟩
    · intro a ha
      symm
      change 8 ≤ (a - insns).toNat at ha
      refine (Memory.setWord_of_le ?_).trans (Memory.setWord_of_le ?_) <;> bv_omega
    · change _ = { native ((s.withTrampoline ir cpc insns trap).mem.word insns) _ with
        pc := cpc, npc := cpc + 4 }
      rw [hword]

lemma mipsDsemul_follows (native : BitVec 32 → Machine → Machine) (cpc : BitVec 32)
    (hplain : isBc ir = false ∧ Jump.decode ir = none)
    (hours : isOurs ir = false)
    (hfetch : mipsGetWord fault s.xcp.cp0Status s.mem s.xcp.cp0Epc = some ir) :
    match mipsDsemul fault ir cpc s with
    | (none, s') => s'.dsemul = s.dsemul ∧ s'.xcp.regs = s.xcp.regs ∧
        { s.machine with npc := cpc }.step fault native = some s'.machine
    | (some .ill, s') => ∃ m, { s.machine with npc := cpc }.step fault native = some m ∧
        ∃ t, s'.Pending native t m
    | _ => True := by
  have hfetch' : mipsGetWord fault s.machine.status s.machine.data.mem s.machine.pc = some ir :=
    hfetch
  by_cases hir : ir = 0
  · subst hir
    refine ⟨rfl, rfl, ?_⟩
    simp only [step, hfetch']
    rfl
  · rcases mipsDsemul_cases hir with ⟨s', h⟩ | ⟨insns, trap, htrap, h⟩
    · rw [h]
      trivial
    · rw [h]
      simp only [step, hfetch', if_neg hir, hplain.1, hplain.2, hours]
      exact ⟨_, rfl, _, pending_withTrampoline s ir cpc insns htrap⟩

/-- A branch that is taken, with the instruction in its delay slot. -/
lemma bcSlot_follows (hzero : s.xcp.regs 0 = 0)
    (hslot : SlotRegular s.data (s.mem.word (s.xcp.cp0Epc + 4)))
    (hstep : s.machine.step fault native =
      some { s.machine with
        pc := s.xcp.cp0Epc + 4, npc := s.xcp.cp0Epc + 4#32 + (simm ir <<< 2) }) :
    TurnFollows fault native start s (bcSlot fault ir s) := by
  have hruns : ∀ {m : Machine}, step fault native
      { s.machine with pc := s.xcp.cp0Epc + 4, npc := s.xcp.cp0Epc + 4#32 + (simm ir <<< 2) } =
        some m → Machine.Runs fault native s.machine m :=
    fun h => .tail (.single hstep) h
  unfold bcSlot
  dsimp only
  split
  · trivial
  case h_2 w hfetch =>
    have hw : s.mem.word (s.xcp.cp0Epc + 4) = w := mipsGetWord_eq hfetch
    rw [hw] at hslot
    split
    case isTrue hours =>
      rw [if_neg (by simp [hslot.plain.1])]
      generalize hcontpc : (s.setEpc _).xcp.cp0Epc + (simm ir <<< 2) = contpc
      rcases hr : emulPlain fault w contpc (s.setEpc (s.xcp.cp0Epc + 4)) with ⟨_ | sig, s'⟩
      · rcases emulPlain_none hr with ⟨d, hdone, rfl⟩ | ⟨-, hmovc, htest⟩
        · obtain ⟨hw, hzero'⟩ := emulPlain_follows native
            { s.machine with pc := s.xcp.cp0Epc + 4, npc := contpc } hslot.plain.1 hzero
            hslot.move ⟨rfl, rfl⟩ hfetch hdone
          subst hcontpc
          exact ⟨rfl, hzero', .inl (hruns hw)⟩
        · -- the move would be made
          have htest' := hslot.made hmovc
          exact absurd (htest'.symm.trans htest) (by decide)
      · cases sig with
        | ill =>
          have hknown := hslot.known hours
          rw [(emulPlain_ill hr).2] at hknown
          cases hknown
        | bus => trivial
        | fpe => trivial
    case isFalse hours =>
      have hfollows := mipsDsemul_follows native (s.xcp.cp0Epc + 4#32 + (simm ir <<< 2))
        hslot.plain (Bool.not_eq_true _ ▸ hours) hfetch
      change TurnFollows fault native start s (mipsDsemul fault w
        (s.xcp.cp0Epc + 4#32 + (simm ir <<< 2)) (s.setEpc (s.xcp.cp0Epc + 4)))
      generalize mipsDsemul fault w _ _ = r at hfollows ⊢
      rcases r with ⟨_ | sig, s'⟩
      · obtain ⟨hdsemul, hregs, hw⟩ := hfollows
        exact ⟨hdsemul, by rw [hregs]; exact hzero, .inl (hruns hw)⟩
      · cases sig with
        | ill =>
          obtain ⟨m, hw, hpending⟩ := hfollows
          exact .inr ⟨m, hruns hw, .inr hpending⟩
        | bus => trivial
        | fpe => trivial

/-- One emulated instruction outside a delay slot. -/
lemma emul_follows (hzero : s.xcp.regs 0 = 0) (hregular : s.Regular start) (hbd : s.bd = false)
    (hfetch : mipsGetWord fault s.xcp.cp0Status s.mem s.xcp.cp0Epc = some ir) :
    TurnFollows fault native start s (emul fault ir (s.xcp.cp0Epc + 4) s) := by
  have hir := mipsGetWord_eq hfetch
  obtain ⟨-, hlikely, hslot, hfirst, hmove⟩ := hregular
  rw [hir] at hlikely hslot hfirst hmove
  unfold emul
  split
  case isTrue hbc =>
    have hstep := step_of_isBc native s.machine hfetch hbc
    rw [bcTaken_eq, show s.machine.data.ctx.sr = s.ctx.sr from rfl] at hstep
    simp only [hbd, bcTaken_eq, show (s.setBd true).ctx.sr = s.ctx.sr from rfl]
    rw [if_neg (by decide)]
    split
    case isTrue htest =>
      rw [htest] at hstep
      have hfollows : TurnFollows fault native start (s.setBd true)
          (bcSlot fault ir (s.setBd true)) :=
        bcSlot_follows hzero (hslot hbc htest) hstep
      exact hfollows
    case isFalse htest =>
      simp only [Bool.not_eq_true] at htest
      rw [htest, hlikely hbc htest] at hstep
      -- whether the branch is likely, the thread continues behind it
      split
      all_goals exact ⟨rfl, hzero, .inl (.single hstep)⟩
  case isFalse hbc =>
    simp only [Bool.not_eq_true] at hbc
    rcases hr : emulPlain fault ir (s.xcp.cp0Epc + 4) s with ⟨_ | sig, s'⟩
    · rcases emulPlain_none hr with ⟨d, hdone, rfl⟩ | ⟨rfl, hmovc, htest⟩
      · obtain ⟨hstep, hzero'⟩ := emulPlain_follows native s.machine hbc hzero hmove ⟨rfl, rfl⟩
          hfetch hdone
        exact ⟨rfl, hzero', .inl (.single hstep)⟩
      · exact ⟨rfl, hzero, .inr ⟨rfl, hfirst hmovc htest⟩⟩
    · cases sig with
      | ill =>
        obtain ⟨rfl, -⟩ := emulPlain_ill hr
        exact .inl ⟨rfl, rfl⟩
      | bus => trivial
      | fpe => trivial

lemma bd_setBd_false (s : Thread) : (s.setBd false).bd = false := by
  simp [Thread.bd, Thread.setBd, BitVec.and_assoc]

lemma cop1Emulate_follows (hzero : s.xcp.regs 0 = 0) (hregular : s.Regular start) :
    TurnFollows fault native start s (cop1Emulate fault s) := by
  unfold cop1Emulate
  split
  · trivial
  case h_2 ir hfetch =>
    have hir := mipsGetWord_eq hfetch
    by_cases hbd : s.bd
    · have hbranch := hregular.flag hbd
      rw [hir] at hbranch
      simp only [hbd, hbranch, if_true]
      have hregular' : (s.setBd false).Regular start :=
        ⟨fun _ => (congrArg isBranchInstr hir).trans hbranch, hregular.likely, hregular.slot,
          hregular.first, hregular.move⟩
      have hfollows : TurnFollows fault native start (s.setBd false)
          (emul fault ir (s.xcp.cp0Epc + 4) (s.setBd false)) :=
        emul_follows hzero hregular' (bd_setBd_false s) hfetch
      exact hfollows
    · simp only [Bool.not_eq_true] at hbd
      simp only [hbd]
      exact emul_follows hzero hregular hbd hfetch

/-- One turn of the handler's loop. -/
lemma handlerTurn_follows (fault : BitVec 32 → Bool) (native : BitVec 32 → Machine → Machine)
    (hzero : s.xcp.regs 0 = 0) (hregular : s.Regular start) :
    TurnFollows fault native start s (handlerTurn fault s) := by
  unfold handlerTurn
  split
  · trivial
  case h_2 ir hfetch =>
    split
    case isTrue => exact cop1Emulate_follows hzero hregular
    case isFalse hir =>
      have hstep : s.machine.step fault native = some s.machine.next := by
        have hfetch' : mipsGetWord fault s.machine.status s.machine.data.mem s.machine.pc =
          some ir := hfetch
        simp only [step, hfetch', if_pos (not_not.1 hir)]
      exact ⟨rfl, hzero, .inl (.single hstep)⟩

end Turn

/-! ## The handler -/

section Handler
variable {fault : BitVec 32 → Bool} {native : BitVec 32 → Machine → Machine}
variable {s s' : Thread}

/-- The turns of the handler's loop that are followed by another. -/
def Turns (fault : BitVec 32 → Bool) : Thread → Thread → Prop :=
  Relation.ReflTransGen fun s s' =>
    handlerTurn fault s = (none, s') ∧ s.xcp.cp0Epc.toNat < s'.xcp.cp0Epc.toNat

/-- Behind a turn that returns 0 the thread has left the address the handler entered at, or the
program has been run. -/
lemma runs_of_turn {t t' : Thread} (hfollows : TurnFollows fault native s.xcp.cp0Epc t (none, t'))
    (hruns : t = s ∨ Machine.Runs fault native s.machine t.machine) :
    Machine.Runs fault native s.machine t'.machine := by
  obtain ⟨-, -, hturn | ⟨hmachine, hmoved⟩⟩ := hfollows
  · rcases hruns with rfl | hruns
    · exact hturn
    · exact hruns.trans hturn
  · rcases hruns with rfl | hruns
    · exact absurd rfl hmoved
    · rw [hmachine]
      exact hruns

/-- The loop of the handler, entered at `s` and now at `t`, ends where the program leads. -/
lemma handlerLoop_follows (native : BitVec 32 → Machine → Machine)
    (hregular : ∀ t, Turns fault s t → t.Regular s.xcp.cp0Epc)
    (t : Thread) (hturns : Turns fault s t) (hzero : t.xcp.regs 0 = 0)
    (hdsemul : t.dsemul = s.dsemul)
    (hruns : t = s ∨ Machine.Runs fault native s.machine t.machine) :
    ((handlerLoop fault t).1 = none ∨
      (handlerLoop fault t).1 = some .ill ∧ (handlerLoop fault t).2.xcp.cp0Epc ≠ s.xcp.cp0Epc) →
    ∃ m, Machine.Runs fault native s.machine m ∧ s.Lands native (handlerLoop fault t).2 m := by
  -- the induction is on the turns left; what carries it is that `t` is the entry or has been
  -- reached by the program
  fun_induction handlerLoop fault t with
  | case1 t sig t' hturn hgoes ih =>
    obtain ⟨hlt, rfl⟩ := hgoes
    have hfollows := handlerTurn_follows fault native hzero (hregular t hturns)
    rw [hturn] at hfollows
    exact ih (hturns.tail ⟨hturn, hlt⟩) hfollows.2.1 (hfollows.1.trans hdsemul)
      (.inr (runs_of_turn hfollows hruns))
  | case2 t sig t' hturn hstop =>
    have hfollows := handlerTurn_follows fault native hzero (hregular t hturns)
    rw [hturn] at hfollows
    rintro (hnone | ⟨hill, hmoved⟩)
    · subst hnone
      exact ⟨_, runs_of_turn hfollows hruns, .inl ⟨hfollows.1.trans hdsemul, rfl⟩⟩
    · subst hill
      rcases hfollows with ⟨hdsemul', hmachine⟩ | ⟨m, hturn, hlands⟩
      · -- an instruction that is not a floating point instruction ends the loop
        have hepc : t'.xcp.cp0Epc = t.xcp.cp0Epc := congrArg pc hmachine
        refine ⟨_, ?_, .inl ⟨hdsemul'.trans hdsemul, rfl⟩⟩
        rcases hruns with rfl | hruns
        · exact absurd hepc hmoved
        · rw [hmachine]
          exact hruns
      · refine ⟨m, ?_, ?_⟩
        · rcases hruns with rfl | hruns
          · exact hturn
          · exact hruns.trans hturn
        · rcases hlands with ⟨hdsemul', hm⟩ | hpending
          · exact .inl ⟨hdsemul'.trans hdsemul, hm⟩
          · exact .inr hpending

/-- For every program and every register state: if the handler returns 0, and every turn of its
loop meets a regular instruction, then the thread stands where the program is after some of its
instructions, at least one. -/
theorem handler_follows_program (fault : BitVec 32 → Bool)
    (native : BitVec 32 → Machine → Machine) (s s' : Thread) (hzero : s.xcp.regs 0 = 0)
    (hregular : ∀ t, Turns fault s t → t.Regular s.xcp.cp0Epc)
    (hreturn : fpuEmulatorCop1Handler fault s = (none, s')) :
    ∃ m, Machine.Runs fault native s.machine m ∧ s.Lands native s' m := by
  have hloop := handlerLoop_follows native hregular s .refl hzero rfl (.inl rfl)
  unfold fpuEmulatorCop1Handler at hreturn
  dsimp only at hreturn
  split at hreturn
  case isTrue hill =>
    obtain rfl : (handlerLoop fault s).2 = s' := congrArg Prod.snd hreturn
    exact hloop (.inr hill)
  case isFalse =>
    rw [hreturn] at hloop
    exact hloop (.inl rfl)

/-- The turns that meet regular instructions, `n` of them at most. -/
def regularTurns (fault : BitVec 32 → Bool) (start : BitVec 32) : Nat → Thread → Bool
  | 0, _ => false
  | n + 1, s =>
    decide (s.Regular start) &&
      (if (handlerTurn fault s).1 = none ∧
          s.xcp.cp0Epc.toNat < (handlerTurn fault s).2.xcp.cp0Epc.toNat then
        regularTurns fault start n (handlerTurn fault s).2
      else true)

lemma regular_of_regularTurns {start : BitVec 32} :
    ∀ {n : Nat} {s t : Thread}, regularTurns fault start n s → Turns fault s t →
      t.Regular start := by
  intro n
  induction n with
  | zero => exact fun h => nomatch h
  | succ n ih =>
    intro s t h hturns
    simp only [regularTurns, Bool.and_eq_true, decide_eq_true_eq] at h
    rcases hturns.cases_head with rfl | ⟨u, ⟨hturn, hlt⟩, hturns⟩
    · exact h.1
    · rw [hturn, if_pos ⟨rfl, hlt⟩] at h
      exact ih h.2 hturns

/-- The loop goes on while the program counter grows and there is no signal. -/
lemma handlerLoop_eq (s : Thread) :
    handlerLoop fault s =
      if s.xcp.cp0Epc.toNat < (handlerTurn fault s).2.xcp.cp0Epc.toNat ∧
          (handlerTurn fault s).1 = none then
        handlerLoop fault (handlerTurn fault s).2
      else handlerTurn fault s := by
  rw [handlerLoop]

lemma eq_of_runs_once {m m₁ m' : Machine} (hfirst : m.step fault native = some m₁)
    (hlast : m₁.step fault native = none) (h : Machine.Runs fault native m m') : m' = m₁ := by
  obtain ⟨c, hc, hrest⟩ := Relation.TransGen.head'_iff.1 h
  obtain rfl : c = m₁ := Option.some.inj (hc.symm.trans hfirst)
  rcases hrest.cases_head with rfl | ⟨c, hc', -⟩
  · rfl
  · rw [hlast] at hc'
    cases hc'

end Handler

/-- A thread at address `0x1000` with `1` in `$f2` and `$f4`, all conditions false, and three words
of program. -/
def threeWords (w₀ w₁ w₂ : BitVec 32) : Thread where
  xcp :=
    { regs := fun _ => 0
      lo := 0
      hi := 0
      cp0Epc := 0x1000
      cp0Badvaddr := 0
      cp0Status := 0
      cp0Cause := 0 }
  ctx := { regs := fun r => if r = 2 ∨ r = 4 then 0x3f800000 else 0, sr := 0 }
  csr := .boot
  mem := ((Memory.setWord (fun _ => 0) 0x1000 w₀).setWord 0x1004 w₁).setWord 0x1008 w₂
  dsemul := none

/-- `bc1f` that is taken, with `add.s $f0, $f2, $f4` in its delay slot, and `addiu` where it
leads. -/
def takenProgram : Thread := threeWords 0x45000001 0x46041000 0x24020001

/-- The branch and its delay slot are two instructions of the program. -/
theorem handler_follows_taken_branch :
    ∃ m, Machine.Runs (fun _ => false) (fun _ m => m) takenProgram.machine m ∧
      takenProgram.Lands (fun _ m => m)
        (fpuEmulatorCop1Handler (fun _ => false) takenProgram).2 m :=
  handler_follows_program (fun _ => false) (fun _ m => m) takenProgram _ rfl
    (fun _ => regular_of_regularTurns (n := 2) (by decide +kernel))
    (Prod.ext (by rw [fpuEmulatorCop1Handler, if_pos (by decide +kernel)]) rfl)

/-- `bc1tl` that is not taken, with `add.s $f0, $f2, $f4` in its delay slot and a word that is no
instruction behind it. -/
def likelyProgram : Thread := threeWords 0x45030004 0x46041000 0x45400000

lemma handler_likelyProgram :
    fpuEmulatorCop1Handler (fun _ => false) likelyProgram =
      (none, (handlerTurn (fun _ => false) (handlerTurn (fun _ => false)
        (handlerTurn (fun _ => false) likelyProgram).2).2).2) := by
  have hloop : handlerLoop (fun _ => false) likelyProgram =
      handlerTurn (fun _ => false) (handlerTurn (fun _ => false)
        (handlerTurn (fun _ => false) likelyProgram).2).2 := by
    rw [handlerLoop_eq, if_pos (by decide +kernel), handlerLoop_eq, if_pos (by decide +kernel),
      handlerLoop_eq, if_neg (by decide +kernel)]
  rw [fpuEmulatorCop1Handler, hloop, if_pos (by decide +kernel)]

/-- The likely branch is not taken and its delay slot is executed. -/
theorem likely_slot_executed : (fpuEmulatorCop1Handler (fun _ => false) likelyProgram).1 = none ∧
    ∀ native m, Machine.Runs (fun _ => false) native likelyProgram.machine m →
      ¬ likelyProgram.Lands native (fpuEmulatorCop1Handler (fun _ => false) likelyProgram).2 m := by
  rw [handler_likelyProgram]
  refine ⟨rfl, fun native m hruns hlands => ?_⟩
  have hm : m = { likelyProgram.machine with pc := 0x1008, npc := 0x100c } :=
    eq_of_runs_once rfl rfl hruns
  rcases hlands with ⟨-, hmachine⟩ | ⟨t, hpending⟩
  · have hsum := congrArg (fun m => m.data.ctx.regs 0) (hm.symm.trans hmachine)
    revert hsum
    decide +kernel
  · have hsome : Option.isSome (Thread.dsemul _) := congrArg Option.isSome hpending.dsemul
    revert hsome
    decide +kernel

end PsxLinux.MathEmu
