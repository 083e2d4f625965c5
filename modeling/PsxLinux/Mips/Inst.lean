import Mathlib.Logic.Function.Basic

/-!
# Instruction words and saved registers

`asm-mipsnommu/inst.h` and `ptrace.h`: the bit fields of an instruction word and the registers an
exception leaves on the kernel stack. A field of five bits is a register number as it stands.
-/

namespace PsxLinux.Mips

/-- `opcode`, `MIPSInst_OPCODE` -/
def opcode (ir : BitVec 32) : BitVec 6 := ir.extractLsb' 26 6
/-- `rs`, `MIPSInst_RS`, `MIPSInst_FR` -/
def rs (ir : BitVec 32) : BitVec 5 := ir.extractLsb' 21 5
/-- `rt`, `MIPSInst_RT`, `MIPSInst_FT` -/
def rt (ir : BitVec 32) : BitVec 5 := ir.extractLsb' 16 5
/-- `rd`, `MIPSInst_RD`, `MIPSInst_FS` -/
def rd (ir : BitVec 32) : BitVec 5 := ir.extractLsb' 11 5
/-- `re`, `MIPSInst_FD` -/
def re (ir : BitVec 32) : BitVec 5 := ir.extractLsb' 6 5
/-- `func`, `MIPSInst_FUNC` -/
def func (ir : BitVec 32) : BitVec 6 := ir.extractLsb' 0 6
/-- `j_format.target` -/
def target (ir : BitVec 32) : BitVec 26 := ir.extractLsb' 0 26
/-- `i_format.simmediate` -/
def simmediate (ir : BitVec 32) : BitVec 16 := ir.extractLsb' 0 16
/-- `MIPSInst_SIMM`, and what a signed bit field promotes to. -/
def simm (ir : BitVec 32) : BitVec 32 := (simmediate ir).signExtend 32

/-- `struct pt_regs` -/
structure PtRegs where
  regs : BitVec 5 → BitVec 32
  lo : BitVec 32
  hi : BitVec 32
  cp0Epc : BitVec 32
  cp0Badvaddr : BitVec 32
  cp0Status : BitVec 32
  cp0Cause : BitVec 32

/-- `regs->regs[r] = v` -/
def PtRegs.setReg (xcp : PtRegs) (r : BitVec 5) (v : BitVec 32) : PtRegs :=
  { xcp with regs := Function.update xcp.regs r v }

def PtRegs.setEpc (xcp : PtRegs) (epc : BitVec 32) : PtRegs := { xcp with cp0Epc := epc }

variable {xcp : PtRegs} {r : BitVec 5} {v epc : BitVec 32}

@[simp] lemma PtRegs.setReg_regs :
    (xcp.setReg r v).regs = Function.update xcp.regs r v := rfl
@[simp] lemma PtRegs.setReg_cp0Epc : (xcp.setReg r v).cp0Epc = xcp.cp0Epc := rfl
@[simp] lemma PtRegs.setEpc_regs : (xcp.setEpc epc).regs = xcp.regs := rfl
@[simp] lemma PtRegs.setEpc_cp0Epc : (xcp.setEpc epc).cp0Epc = epc := rfl

end PsxLinux.Mips
