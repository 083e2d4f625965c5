import PsxLinux.MathEmu.InstrTheorems
import Mathlib.Data.BitVec

/-!
# Cause bits and sticky flags

For every instruction that computes, `fpu_emu` and `fpux_emu` rewrite the cause bits of the status
register and add to its flags, from what the library has left in `ieee754_csr.cx`. The square roots do
not clear that field, so they must find it clear. A conditional move whose condition is false returns
before the cause bits are rewritten, so it must find those clear.
-/

namespace PsxLinux.MathEmu

open Lib Mips BitVec

/-- `FPU_CSR_ALL_S` -/
def allS : BitVec 32 := 0x0000007c

/-- What an instruction leaves to the next one: the status register of the process and that of the
library. -/
structure Registers where
  sr : BitVec 32
  csr : Csr

/-- An arithmetic instruction, for `fpu_emu` or for `fpux_emu`, with its operands, loaded since the
last one. -/
structure Instr where
  status : BitVec 32
  ir : BitVec 32
  regs : BitVec 5 → BitVec 32
  fprs : BitVec 5 → BitVec 64
  arithmetic : (opcode ir).toNat = 0x11 ∧ (rs ir).toNat &&& 0x10 ≠ 0 ∨
    (opcode ir).toNat = 0x13 ∧ writesCx ir

/-- Everything the instruction can see. -/
def Instr.data (i : Instr) (s : Registers) : Data where
  regs := i.regs
  ctx := { regs := i.fprs, sr := s.sr }
  csr := s.csr
  mem := 0

def Instr.emulate (i : Instr) (d : Data) : Option Signal × Data :=
  if (opcode i.ir).toNat = 0x13 then fpuxEmu (fun _ => false) i.status i.ir d
  else fpuEmu i.status i.ir d

/-- The instruction emulated. -/
def Instr.exec (i : Instr) (s : Registers) : Option Signal × Registers :=
  let (sig, d) := i.emulate (i.data s)
  (sig, { sr := d.ctx.sr, csr := d.csr })

/-- The status register that the instruction alone would leave, from its operands and the rounding
mode. -/
def Instr.raised (i : Instr) (rm : RoundingMode) : BitVec 32 :=
  (i.exec { sr := 0, csr := { Csr.boot with rm := rm } }).2.sr

/-- A step of a sequence: an arithmetic instruction, or `ctc1` to the status register. -/
inductive SrStep where
  | emulate (i : Instr)
  | ctc1 (value : BitVec 32)

/-- The registers after a step. -/
def Registers.next (s : Registers) : SrStep → Registers
  | .emulate i => (i.exec s).2
  | .ctc1 value => { sr := value, csr := { s.csr with rm := ieeeRm (value.extractLsb' 0 2) } }

def Registers.run (s : Registers) (steps : List SrStep) : Registers := steps.foldl Registers.next s

/-- The flags raised since the last `ctc1`, with those it has written. -/
def sticky (s : Registers) (flags : BitVec 32) : List SrStep → BitVec 32
  | [] => flags
  | .emulate i :: steps =>
    sticky (s.next (.emulate i)) (flags ||| i.raised s.csr.rm &&& allS) steps
  | .ctc1 value :: steps => sticky (s.next (.ctc1 value)) (value &&& allS) steps

/-- The instruction completes, with or without a trap. -/
def Instr.Completes (i : Instr) (s : Registers) : Prop := (i.exec s).1 ≠ some .ill

/-- `movf`, `movt`, `movz` or `movn` whose condition is false. -/
def skipsMove (func : ℕ) (test : Bool) (gpr : BitVec 32) : Bool :=
  match func with
  | 0x11 => !test
  | 0x12 => gpr ≠ 0
  | 0x13 => gpr = 0
  | _ => false

/-- The instruction is a conditional move whose condition is false. -/
def Instr.Skips (i : Instr) (s : Registers) : Prop :=
  skipsMove (func i.ir).toNat (movTest s.sr (rt i.ir)) (i.regs (rt i.ir))

/-- A square root finds no exceptions of earlier instructions, and a conditional move whose condition
is false no causes. -/
def Instr.Clean (i : Instr) (s : Registers) : Prop :=
  (usesCx i.ir → s.csr.cx = 0) ∧ (i.Skips s → s.sr &&& allX = 0)

/-- Every step of the sequence meets the condition. -/
def Registers.Clean (s : Registers) : List SrStep → Prop
  | [] => True
  | .emulate i :: steps => i.Clean s ∧ (s.next (.emulate i)).Clean steps
  | .ctc1 value :: steps => (s.next (.ctc1 value)).Clean steps

/-! ## The end of `fpu_emu` -/

/-- The bits that a comparison writes are neither causes nor flags. -/
lemma fpuFinish_and (status : BitVec 32) (fd : BitVec 5) (ctx : FpuCtx) (rv : Rv) (rcsr : BitVec 32)
    {m : BitVec 32} (hm : ∀ i, fpucondbit i &&& m = 0 ∧ ~~~fpucondbit i &&& m = m) :
    (fpuFinish status fd ctx rv rcsr).2.sr &&& m = (ctx.sr &&& ~~~allX ||| rcsr) &&& m := by
  apply fpuFinish_sr (· &&& m)
  · intro v i
    rw [BitVec.and_assoc, (hm i).2]
  · intro v i
    rw [and_or_distrib_right, (hm i).1]
    exact or_zero

lemma no_trap {sr : BitVec 32} (h : sr &&& allX = 0) : (sr >>> 5) &&& sr &&& allE = 0 := by
  have hshift : sr >>> 5 &&& allX >>> 5 = 0 := by
    rw [← ushiftRight_and_distrib, h]
    rfl
  have henable : allE = allX >>> 5 &&& allE := by decide
  calc sr >>> 5 &&& sr &&& allE = sr &&& (sr >>> 5 &&& allX >>> 5) &&& allE := by
        nth_rewrite 1 [henable]
        simp only [← BitVec.and_assoc, BitVec.and_comm (sr >>> 5) sr]
    _ = 0 := by rw [hshift]; simp

/-- The bits `fpu_emu` adds to the status register. -/
def Computed.rcsr : Computed → BitVec 32
  | .ret _ => 0
  | .value _ rcsr => rcsr

/-- The bits the instruction adds to the status register. -/
def Instr.rcsr (i : Instr) (s : Registers) : BitVec 32 :=
  if (opcode i.ir).toNat = 0x13 then copcsrX (i.emulate (i.data s)).2.csr.cx
  else (fpuCompute i.status i.ir (i.data s)).1.rcsr

section Step
variable {i : Instr} {s : Registers} {sr sr' gpr : BitVec 32} {d : Data}

/-! ## Multiplication with addition -/

/-- `fpux_emu` reads the status register at its end only. -/
lemma fpuxEmu_eq (hop : (opcode i.ir).toNat = 0x13) (hw : writesCx i.ir) (csr₀ : Csr) :
    ∃ regs csr, ∀ sr, fpuxEmu (fun _ => false) i.status i.ir (i.data ⟨sr, csr₀⟩) =
      ((fpuxFinish ⟨regs, sr⟩ (copcsrX csr.cx)).1, { i.data ⟨sr, csr₀⟩ with
        ctx := (fpuxFinish ⟨regs, sr⟩ (copcsrX csr.cx)).2, csr := csr }) := by
  let d := (fpuxEmu (fun _ => false) i.status i.ir (i.data ⟨0, csr₀⟩)).2
  refine ⟨d.ctx.regs, d.csr, fun sr => ?_⟩
  simp only [writesCx, hop, decide_eq_true_eq] at hw
  simp only [d]
  unfold fpuxEmu
  split
  case h_3 | h_4 | h_5 | h_6 | h_9 | h_10 | h_11 | h_12 => rfl
  all_goals simp_all

/-! ## The status register as an operand -/

/-- The status register is an operand of one instruction, which raises nothing. -/
lemma rcsr_fpuFmt {f : Format} {ir : BitVec 32} (ops : FmtOps f) (fs ft : Fp f) (csr : Csr) :
    (fpuFmt ops ir sr gpr fs ft csr).1.rcsr = (fpuFmt ops ir sr' gpr fs ft csr).1.rcsr := by
  have hmove (c : Bool) (rv : Rv) : (moveIf csr c rv).1.rcsr = 0 := by cases c <;> rfl
  unfold fpuFmt
  split
  case h_8 => rw [hmove, hmove]
  all_goals rfl

lemma rcsr_fpuCompute (i : Instr) (s : Registers) :
    (fpuCompute i.status i.ir (i.data s)).1.rcsr =
      (fpuCompute i.status i.ir (i.data { s with sr := 0 })).1.rcsr := by
  unfold fpuCompute
  split
  case h_1 | h_2 => exact rcsr_fpuFmt _ _ _ _
  all_goals rfl

/-- `fpu_emu` returns early for an instruction it does not know and for a conditional move whose
condition is false. -/
lemma ret_fpuFmt {f : Format} {ir : BitVec 32} {sig : Option Signal} (ops : FmtOps f) (fs ft : Fp f)
    (csr : Csr) (h : (fpuFmt ops ir sr gpr fs ft csr).1 = .ret sig) :
    sig = some .ill ∨ sig = none ∧ skipsMove (func ir).toNat (movTest sr (rt ir)) gpr := by
  have hmove (c : Bool) (rv : Rv) (h : (moveIf csr c rv).1 = .ret sig) : sig = none ∧ c = false := by
    cases c with
    | false => exact ⟨(Computed.ret.inj h).symm, rfl⟩
    | true => cases h
  have hconvert (o : Option (Rv × Csr)) (h : (convert csr o).1 = .ret sig) : sig = some .ill := by
    cases o with
    | none => exact (Computed.ret.inj h).symm
    | some r => cases h
  unfold fpuFmt at h
  split at h
  case h_8 hf | h_9 hf | h_10 hf =>
    obtain ⟨hsig, hc⟩ := hmove _ _ h
    exact .inr ⟨hsig, by simpa [hf, skipsMove] using hc⟩
  case h_13 => cases (hmove _ _ h).2
  case h_14 | h_15 => exact .inl (hconvert _ h)
  case h_21 =>
    split_ifs at h
    · cases h
    · exact .inl (Computed.ret.inj h).symm
  all_goals cases h

lemma ret_fpuCompute {sig : Option Signal}
    (h : (fpuCompute i.status i.ir (i.data s)).1 = .ret sig) :
    sig = some .ill ∨ sig = none ∧ i.Skips s := by
  unfold fpuCompute at h
  split at h
  case h_1 | h_2 => exact ret_fpuFmt _ _ _ _ h
  case h_3 =>
    split at h
    case h_3 => exact .inl (Computed.ret.inj h).symm
    all_goals cases h
  case h_4 => exact .inl (Computed.ret.inj h).symm

/-- What an instruction does: it returns early and adds nothing, or it rewrites the causes and adds
its flags. -/
lemma exec_cases (i : Instr) (s : Registers) :
    (i.rcsr s = 0 ∧ (i.exec s).2.sr = s.sr ∧
      ((i.exec s).1 = some .ill ∨ (i.exec s).1 = none ∧ i.Skips s)) ∨
    ((∀ m, m = allS ∨ m = allX →
      (i.exec s).2.sr &&& m = (s.sr &&& ~~~allX ||| i.rcsr s) &&& m) ∧
      (i.rcsr s &&& allX = 0 → (i.exec s).1 ≠ some .fpe)) := by
  have hquiet {rcsr : BitVec 32} (h : rcsr &&& allX = 0) :=
    no_trap ((cleared_or_and s.sr rcsr allX).trans h)
  rcases i.arithmetic with ⟨hop, -⟩ | ⟨hop, hw⟩
  · have hne : ¬ (opcode i.ir).toNat = 0x13 := by omega
    simp only [Instr.exec, Instr.emulate, Instr.rcsr, if_neg hne, fpuEmu]
    have hret := @ret_fpuCompute i s
    generalize fpuCompute i.status i.ir (i.data s) = v at hret ⊢
    obtain ⟨v, csr⟩ := v
    cases v with
    | ret sig => exact .inl ⟨rfl, rfl, hret rfl⟩
    | value rv rcsr =>
      refine .inr ⟨?_, fun h => ?_⟩
      · rintro m (rfl | rfl)
        all_goals exact fpuFinish_and _ _ _ _ _ (by decide)
      · have hnone := hquiet (show rcsr &&& allX = 0 from h)
        cases rv <;> simp [fpuFinish, Instr.data, hnone]
  · obtain ⟨regs, csr, heq⟩ := fpuxEmu_eq hop hw s.csr
    simp only [Instr.exec, Instr.emulate, Instr.rcsr, if_pos hop, heq s.sr, fpuxFinish]
    refine .inr ⟨fun m _ => trivial, fun h => ?_⟩
    rw [hquiet h]
    simp

/-- An instruction adds its flags. -/
lemma exec_flags (i : Instr) (s : Registers) :
    (i.exec s).2.sr &&& allS = (s.sr ||| i.rcsr s) &&& allS := by
  rcases exec_cases i s with ⟨hnone, hsr, -⟩ | ⟨hsr, -⟩
  · rw [hnone, hsr]
    exact congrArg (· &&& allS) or_zero.symm
  · have hflags : ~~~allX &&& allS = allS := by decide
    rw [hsr _ (.inl rfl), and_or_distrib_right, BitVec.and_assoc, hflags, ← and_or_distrib_right]

lemma raised_causes (i : Instr) (rm : RoundingMode) : i.raised rm &&& allX =
    i.rcsr { sr := 0, csr := { Csr.boot with rm := rm } } &&& allX := by
  rcases exec_cases i { sr := 0, csr := { Csr.boot with rm := rm } } with ⟨hnone, hsr, -⟩ | ⟨hsr, -⟩
  · rw [Instr.raised, hsr, hnone]
  · exact (hsr _ (.inr rfl)).trans (cleared_or_and _ _ _)

section Clean
variable (hflags : s.csr.flags = Csr.boot.flags) (hclean : i.Clean s)
include hflags hclean

/-- With a clean register, an instruction reports what it would report alone. -/
lemma rcsr_clean : i.rcsr s = i.rcsr { sr := 0, csr := { Csr.boot with rm := s.csr.rm } } := by
  have halike : Alike i.ir s.csr { Csr.boot with rm := s.csr.rm } := ⟨hflags, fun _ => rfl, hclean.1⟩
  unfold Instr.rcsr
  rcases i.arithmetic with ⟨hop, hrs⟩ | ⟨hop, hw⟩
  · have hne : ¬ (opcode i.ir).toNat = 0x13 := by omega
    have hconfined := confined_fpuCompute i.status (i.data { s with sr := 0 }) hop hrs
    rw [if_neg hne, if_neg hne, rcsr_fpuCompute]
    exact congrArg Computed.rcsr (hconfined.result halike).1
  · obtain ⟨regs, csr, heq⟩ := fpuxEmu_eq hop hw s.csr
    obtain ⟨b, hb, hcx⟩ := (isolated_fpuxEmu (fun _ => false) i.status hop).result
      (i.data ⟨0, s.csr⟩) _ halike
    have hb' : fpuxEmu (fun _ => false) i.status i.ir
      (i.data ⟨0, { Csr.boot with rm := s.csr.rm }⟩) = _ := hb
    have hcx' := hcx hw
    rw [heq 0] at hcx'
    simp only [Instr.emulate, if_pos hop]
    rw [heq s.sr, hb']
    exact congrArg copcsrX hcx'

lemma exec_sticky : (i.exec s).2.sr &&& allS = s.sr &&& allS ||| i.raised s.csr.rm &&& allS := by
  rw [exec_flags, Instr.raised, exec_flags, rcsr_clean hflags hclean, and_or_distrib_right]
  exact congrArg (s.sr &&& allS ||| · &&& allS) zero_or.symm

lemma exec_cause (hdone : i.Completes s) :
    (i.exec s).2.sr &&& allX = i.raised s.csr.rm &&& allX ∧
      (i.raised s.csr.rm &&& allX = 0 → (i.exec s).1 ≠ some .fpe) := by
  rw [raised_causes, ← rcsr_clean hflags hclean]
  rcases exec_cases i s with ⟨hnone, hsr, hill | ⟨hsig, hskip⟩⟩ | ⟨hsr, hsig⟩
  · exact absurd hill hdone
  · rw [hsr, hnone, hclean.2 hskip, hsig]
    exact ⟨rfl, fun _ => nofun⟩
  · exact ⟨(hsr _ (.inr rfl)).trans (cleared_or_and _ _ _), hsig⟩

end Clean

/-- **Causes and flags.** In a sequence whose square roots find no exceptions of earlier
instructions, the flags are those raised since the last `ctc1`, and the causes of an instruction are
its own: a function of the instruction, its operands and the rounding mode. Without a cause there is
no trap. -/
theorem causes_of_clean (s : Registers) (steps : List SrStep) (i : Instr)
    (hflags : s.csr.flags = Csr.boot.flags) (hclean : s.Clean (steps ++ [.emulate i])) :
    (s.run steps).sr &&& allS = sticky s (s.sr &&& allS) steps ∧
      (i.Completes (s.run steps) →
        (i.exec (s.run steps)).2.sr &&& allX = i.raised (s.run steps).csr.rm &&& allX ∧
          (i.raised (s.run steps).csr.rm &&& allX = 0 → (i.exec (s.run steps)).1 ≠ some .fpe)) := by
  -- induction on the steps before the instruction
  induction steps generalizing s with
  | nil => exact ⟨rfl, exec_cause hflags hclean.1⟩
  | cons step steps ih =>
    cases step with
    | emulate j =>
      have hkeeps : (j.exec s).2.csr.flags = s.csr.flags := by
        simp only [Instr.exec, Instr.emulate]
        rcases j.arithmetic with ⟨hop, hrs⟩ | ⟨hop, -⟩
        · rw [if_neg (by omega)]
          exact (isolated_fpuEmu j.status hop hrs).flags (j.data s)
        · rw [if_pos hop]
          exact (isolated_fpuxEmu _ j.status hop).flags (j.data s)
      obtain ⟨hstep, hrest⟩ := ih (j.exec s).2 (hkeeps.trans hflags) hclean.2
      rw [exec_sticky hflags hclean.1] at hstep
      exact ⟨hstep, hrest⟩
    | ctc1 value => exact ih (s.next (.ctc1 value)) hflags hclean

end Step

/-- A single precision instruction on 1.0 in register 2, with 0.0 in the others. -/
def onOne (ir : BitVec 32) (h : (opcode ir).toNat = 0x11 ∧ (rs ir).toNat &&& 0x10 ≠ 0 ∨
    (opcode ir).toNat = 0x13 ∧ writesCx ir) : Instr where
  status := 0
  ir := ir
  regs := fun _ => 0
  fprs := fun r => if r = 2 then 0x3f800000 else 0
  arithmetic := h

/-- `sqrt.s $f0, $f2` -/
def sqrtOne : Instr := onOne 0x46001004 (by decide)

/-- `div.s $f0, $f2, $f4` -/
def divOneZero : Instr := onOne 0x46041003 (by decide)

/-- `madd.s $f0, $f4, $f2, $f2` -/
def maddOne : Instr := onOne 0x4c821020 (by decide)

/-- A multiplication with addition, then the square root of 1.0. -/
theorem causes_of_clean_sqrt :
    sqrtOne.Completes (Registers.run ⟨0, .boot⟩ [.emulate maddOne]) ∧
      sqrtOne.raised .rn &&& allX = 0 ∧
      (sqrtOne.exec (Registers.run ⟨0, .boot⟩ [.emulate maddOne])).1 ≠ some .fpe := by
  have h := (causes_of_clean ⟨0, .boot⟩ [.emulate maddOne] sqrtOne rfl
    ⟨⟨nofun, nofun⟩, ⟨fun _ => by decide +kernel, nofun⟩, trivial⟩).2
  have hdone : sqrtOne.Completes (Registers.run ⟨0, .boot⟩ [.emulate maddOne]) := by
    unfold Instr.Completes
    decide +kernel
  have hquiet : sqrtOne.raised .rn &&& allX = 0 := by decide +kernel
  exact ⟨hdone, hquiet, (h hdone).2 hquiet⟩

/-- A division by zero, then `ctc1` enables its trap, and an exact square root ends in `SIGFPE`. -/
theorem sqrt_traps_on_division : sqrtOne.raised .rn &&& allX = 0 ∧
    (sqrtOne.exec (Registers.run ⟨0, .boot⟩ [.emulate divOneZero, .ctc1 0x00000400])).1 =
      some .fpe := by
  decide +kernel

end PsxLinux.MathEmu
