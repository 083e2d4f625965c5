import PsxLinux.Lib.Memory
import PsxLinux.MathEmu.Functions
import PsxLinux.Mips.Branch

/-!
# The floating point emulator

`arch/mipsnommu/math-emu/cp1emu.c`: the emulation of one COP1 or COP1X instruction, the trampoline
for the delay slot of a floating point branch, and the handler that goes on emulating until it
meets something else. `fault` says which words of user memory cannot be accessed. The statistics
are left out.
-/

namespace PsxLinux.MathEmu

open Lib Mips

/-! ## State -/

/-- The signals the emulator returns. -/
inductive Signal where
  | bus
  | ill
  | fpe
deriving DecidableEq

/-- `struct mips_fpu_soft_struct` -/
structure FpuCtx where
  regs : BitVec 5 → BitVec 64
  sr : BitVec 32

/-- `ctx->regs[r] = v` -/
def FpuCtx.setReg (ctx : FpuCtx) (r : BitVec 5) (v : BitVec 64) : FpuCtx :=
  { ctx with regs := Function.update ctx.regs r v }

/-- What an instruction that is not a branch works on: the general registers, the floating point
context, the library's `ieee754_csr` and memory. -/
structure Data where
  regs : BitVec 5 → BitVec 32
  ctx : FpuCtx
  csr : Csr
  mem : Memory

/-- `d.ctx->regs[r] = v` -/
def Data.setFpr (d : Data) (r : BitVec 5) (v : BitVec 64) : Data :=
  { d with ctx := d.ctx.setReg r v }

/-- `d.xcp->regs[r] = v` -/
def Data.setGpr (d : Data) (r : BitVec 5) (v : BitVec 32) : Data :=
  { d with regs := Function.update d.regs r v }

/-! ## Status bits -/

/-- `FPU_CSR_ALL_X` -/
def allX : BitVec 32 := 0x0003f000
/-- `FPU_CSR_ALL_E` -/
def allE : BitVec 32 := 0x00000f80
/-- `FPU_CSR_INV_X | FPU_CSR_INV_S` -/
def invXS : BitVec 32 := 0x00010040
/-- `FPU_CSR_DIV_X | FPU_CSR_DIV_S` -/
def divXS : BitVec 32 := 0x00008020
/-- `FPU_CSR_OVF_X | FPU_CSR_OVF_S` -/
def ovfXS : BitVec 32 := 0x00004010
/-- `FPU_CSR_UDF_X | FPU_CSR_UDF_S` -/
def udfXS : BitVec 32 := 0x00002008
/-- `FPU_CSR_INE_X | FPU_CSR_INE_S` -/
def ineXS : BitVec 32 := 0x00001004

def st0Fr : BitVec 32 := 0x04000000
def causefBd : BitVec 32 := 0x80000000

def userMode (status : BitVec 32) : Bool := status &&& 0x08 = 0x08

/-- `fpucondbit[i]` -/
def fpucondbit (i : BitVec 3) : BitVec 32 := if i = 0 then 0x00800000 else 0x01000000 <<< i.toNat

/-- `ieee_rm[i]` -/
def ieeeRm (i : BitVec 2) : RoundingMode :=
  match i.toNat with
  | 0 => .rn
  | 1 => .rz
  | 2 => .ru
  | _ => .rd

/-- `((ctx->sr & cond) != 0) == ((field & 1) != 0)` with the condition bit of the field's number:
the test of a conditional move. -/
def movTest (sr : BitVec 32) (field : BitVec 5) : Bool :=
  (sr &&& fpucondbit (field.extractLsb' 2 3) != 0) == (field &&& 1 != 0)

/-! ## User memory -/

section UserMemory
variable (fault : BitVec 32 → Bool) (status : BitVec 32) (mem : Memory)

def mipsGetWord (va : BitVec 32) : Option (BitVec 32) :=
  if userMode status && fault va then none else some (mem.word va)

def mipsGetDword (va : BitVec 32) : Option (BitVec 64) :=
  if userMode status && (fault va || fault (va + 4)) then none
  else some (mem.word (va + 4) ++ mem.word va)

def mipsPutWord (va val : BitVec 32) : Option Memory :=
  if userMode status && fault va then none else some (mem.setWord va val)

/-- `mips_put_dword (xcp, va, val)`: whether it fails, and the memory, whose first word is stored
even if the second cannot be. -/
def mipsPutDword (va : BitVec 32) (val : BitVec 64) : Bool × Memory :=
  if userMode status && fault va then (true, mem)
  else
    let mem := mem.setWord va (val.extractLsb' 0 32)
    if userMode status && fault (va + 4) then (true, mem)
    else (false, mem.setWord (va + 4) (val.extractLsb' 32 32))

end UserMemory

/-! ## Registers -/

section Registers
variable (status : BitVec 32) (ctx : FpuCtx)

/-- The register a double is in: `(xcp->cp0_status & ST0_FR) ? x : (x & ~1)`. -/
def dpReg (x : BitVec 5) : BitVec 5 := if status &&& st0Fr ≠ 0 then x else x &&& ~~~1

/-- The low word replaced. -/
def setLow (r : BitVec 64) (val : BitVec 32) : BitVec 64 := r.extractLsb' 32 32 ++ val
def setHigh (r : BitVec 64) (val : BitVec 32) : BitVec 64 := val ++ r.extractLsb' 0 32

/-- What `lwc1` and `lwxc1` do with the word they have read. -/
def loadWord (ft : BitVec 5) (val : BitVec 32) : FpuCtx :=
  if status &&& st0Fr ≠ 0 then ctx.setReg ft (val.setWidth 64)
  else if ft &&& 1 ≠ 0 then ctx.setReg (ft &&& ~~~1) (setHigh (ctx.regs (ft &&& ~~~1)) val)
  else ctx.setReg ft (setLow (ctx.regs ft) val)

/-- The word that `swc1`, `swxc1` and `mfc1` take. -/
def storeWord (ft : BitVec 5) : BitVec 32 :=
  if status &&& st0Fr = 0 ∧ ft &&& 1 ≠ 0 then (ctx.regs (ft &&& ~~~1)).extractLsb' 32 32
  else (ctx.regs ft).extractLsb' 0 32

/-- What `mtc1` does with its word. -/
def moveWord (fs : BitVec 5) (val : BitVec 32) : FpuCtx :=
  if status &&& st0Fr = 0 ∧ fs &&& 1 ≠ 0 then
    ctx.setReg (fs &&& ~~~1) (setHigh (ctx.regs (fs &&& ~~~1)) val)
  else ctx.setReg fs (setLow (ctx.regs fs) val)

def spFromReg (x : BitVec 5) : Fp sp := spOfBits ((ctx.regs x).extractLsb' 0 32)
def dpFromReg (x : BitVec 5) : Fp dp := dpOfBits (ctx.regs (dpReg status x))
def spToReg (v : Fp sp) (x : BitVec 5) : FpuCtx := ctx.setReg x ((spBits v).setWidth 64)
def dpToReg (v : Fp dp) (x : BitVec 5) : FpuCtx := ctx.setReg (dpReg status x) (dpBits v)
def siToReg (v : BitVec 32) (x : BitVec 5) : FpuCtx := ctx.setReg x (v.signExtend 64)

end Registers

/-! ## Arithmetic instructions -/

/-- `rv` of `fpu_emu`, with the format `rfmt` it ends up in; `-1` is a condition. -/
inductive Rv where
  | s (v : Fp sp)
  | d (v : Fp dp)
  | w (v : BitVec 32)
  | cond (v : Bool)

/-- How the first `switch` of `fpu_emu` ends: with a return, or with `rv` and `rcsr`. -/
inductive Computed where
  | ret (sig : Option Signal)
  | value (rv : Rv) (rcsr : BitVec 32)

/-- The bits `copcsr` sets for the exceptions of `cx` in a list of flags. -/
def cxBits (cx : BitVec 5) (flags : List (BitVec 5 × BitVec 32)) : BitVec 32 :=
  flags.foldl (fun rcsr p => if cx &&& p.1 ≠ 0 then rcsr ||| p.2 else rcsr) 0

/-- `copcsr` of `fpu_emu` -/
def copcsr (cx : BitVec 5) : BitVec 32 :=
  cxBits cx [(inexact, ineXS), (underflow, udfXS), (overflow, ovfXS), (zeroDivide, divXS),
    (invalidOperation, invXS)]

/-- `copcsr` of `fpux_emu`, which has no division. -/
def copcsrX (cx : BitVec 5) : BitVec 32 :=
  cxBits cx [(inexact, ineXS), (underflow, udfXS), (overflow, ovfXS), (invalidOperation, invXS)]

/-- `cmptab[i]` -/
def cmptab (i : BitVec 3) : BitVec 4 :=
  match i.toNat with
  | 0 => 0
  | 1 => cun
  | 2 => ceq
  | 3 => ceq ||| cun
  | 4 => clt
  | 5 => clt ||| cun
  | 6 => clt ||| ceq
  | _ => clt ||| ceq ||| cun

/-- A result and its exceptions. -/
def computed {α : Type} (wrap : α → Rv) (r : α × Csr) : Computed × Csr :=
  (.value (wrap r.1) (copcsr r.2.cx), r.2)

/-- A library function run with another rounding mode. -/
def withRm {α : Type} (rm : RoundingMode) (op : Csr → α × Csr) (csr : Csr) : α × Csr :=
  let (r, csr') := op { csr with rm := rm }
  (r, { csr' with rm := csr.rm })

/-- What the cases `s_fmt` and `d_fmt` of `fpu_emu` do not share. -/
structure FmtOps (f : Format) where
  wrap : Fp f → Rv
  sqrt : Csr → Fp f → Fp f × Csr
  cvts : Csr → Fp f → Option (Rv × Csr)
  cvtd : Csr → Fp f → Option (Rv × Csr)

/-- `s_fmt` -/
def spOps : FmtOps sp where
  wrap := .s
  sqrt := spSqrt
  cvts := fun _ _ => none
  cvtd := fun csr x => some (.d (dpFsp csr x).1, (dpFsp csr x).2)

/-- `d_fmt` -/
def dpOps : FmtOps dp where
  wrap := .d
  sqrt := dpSqrt
  cvts := fun csr x => some (.s (spFdp csr x).1, (spFdp csr x).2)
  cvtd := fun _ _ => none

/-- A conversion, or `SIGILL` where the format does not define it. -/
def convert (csr : Csr) : Option (Rv × Csr) → Computed × Csr
  | none => (.ret (some .ill), csr)
  | some r => computed id r

/-- A move: `return 0` if its condition is false. -/
def moveIf (csr : Csr) (c : Bool) (rv : Rv) : Computed × Csr :=
  (if c then .value rv 0 else .ret none, csr)

/-- `rv.w = ieee754sp_cmp (fs, ft, cmptab[cmpop & 0x7])` and its exception. -/
def compare {f : Format} (csr : Csr) (fs ft : Fp f) (cmpop : BitVec 4) : Computed × Csr :=
  let (r, csr) := cmp csr fs ft (cmptab (cmpop.extractLsb' 0 3))
  (.value (.cond r) (if cmpop &&& 0x8 ≠ 0 ∧ csr.cx &&& invalidOperation ≠ 0 then invXS else 0), csr)

/-- The cases `s_fmt` and `d_fmt` of `fpu_emu`; `gpr` is `xcp->regs[MIPSInst_FT (ir)]`. -/
def fpuFmt {f : Format} (ops : FmtOps f) (ir sr gpr : BitVec 32) (fs ft : Fp f) (csr : Csr) :
    Computed × Csr :=
  match (func ir).toNat with
  | 0x00 => computed ops.wrap (add csr fs ft)
  | 0x01 => computed ops.wrap (sub csr fs ft)
  | 0x02 => computed ops.wrap (mul csr fs ft)
  | 0x03 => computed ops.wrap (div csr fs ft)
  | 0x04 => computed ops.wrap (ops.sqrt csr fs)
  | 0x16 => -- frsqrt_op
    computed ops.wrap (andThen (ops.sqrt csr fs) fun y csr => div csr (Fp.one false) y)
  | 0x15 => computed ops.wrap (div csr (Fp.one false) fs)
  | 0x11 => moveIf csr (movTest sr (rt ir)) (ops.wrap fs)
  | 0x12 => moveIf csr (gpr = 0) (ops.wrap fs)
  | 0x13 => moveIf csr (gpr ≠ 0) (ops.wrap fs)
  | 0x05 => computed ops.wrap (abs csr fs)
  | 0x07 => computed ops.wrap (neg csr fs)
  | 0x06 => moveIf csr true (ops.wrap fs)
  | 0x20 => convert csr (ops.cvts csr fs)
  | 0x21 => convert csr (ops.cvtd csr fs)
  | 0x24 => computed .w (tint csr fs)
  | 0x0c | 0x0d | 0x0e | 0x0f => -- fround_op, ftrunc_op, fceil_op, ffloor_op
    computed .w (withRm (ieeeRm ((func ir).extractLsb' 0 2)) (fun csr => tint csr fs) csr)
  | n => if n ≥ 0x30 then compare csr fs ft ((func ir).extractLsb' 0 4)
    else (.ret (some .ill), csr)

/-- The end of `fpu_emu`: the status register, then the result unless an enabled exception is
raised. -/
def fpuFinish (status : BitVec 32) (fd : BitVec 5) (ctx : FpuCtx) (rv : Rv) (rcsr : BitVec 32) :
    Option Signal × FpuCtx :=
  let sr := ctx.sr &&& ~~~allX ||| rcsr
  let ctx := { ctx with sr := sr }
  if (sr >>> 5) &&& sr &&& allE ≠ 0 then (some .fpe, ctx)
  else
    match rv with
    | .cond v =>
      let cond := fpucondbit (fd.extractLsb' 2 3)
      (none, { ctx with sr := if v then sr ||| cond else sr &&& ~~~cond })
    | .d v => (none, dpToReg status ctx v fd)
    | .s v => (none, spToReg ctx v fd)
    | .w v => (none, siToReg ctx v fd)

/-- The first `switch` of `fpu_emu`, on the format. -/
def fpuCompute (status ir : BitVec 32) (d : Data) : Computed × Csr :=
  let gpr := d.regs (rt ir)
  match (rs ir).toNat % 16 with
  | 0 => fpuFmt spOps ir d.ctx.sr gpr (spFromReg d.ctx (rd ir)) (spFromReg d.ctx (rt ir)) d.csr
  | 1 => fpuFmt dpOps ir d.ctx.sr gpr (dpFromReg status d.ctx (rd ir))
      (dpFromReg status d.ctx (rt ir)) d.csr
  | 4 => -- w_fmt
    let x := (d.ctx.regs (rd ir)).extractLsb' 0 32
    match (func ir).toNat with
    | 0x20 => computed .s (spFint d.csr x)
    | 0x21 => computed .d (dpFint d.csr x)
    | _ => (.ret (some .ill), d.csr)
  | _ => (.ret (some .ill), d.csr)

def fpuEmu (status ir : BitVec 32) (d : Data) : Option Signal × Data :=
  match fpuCompute status ir d with
  | (.ret sig, csr) => (sig, { d with csr := csr })
  | (.value rv rcsr, csr) =>
    let (sig, ctx) := fpuFinish status (re ir) d.ctx rv rcsr
    (sig, { d with ctx := ctx, csr := csr })

/-! ## COP1X -/

/-- `fpemu_sp_madd`, `fpemu_sp_msub`, `fpemu_sp_nmadd` and `fpemu_sp_nmsub`, chosen by bits 3 and 4
of the function field. -/
def multiplyAdd {f : Format} (msub nmadd : Bool) (csr : Csr) (r s t : Fp f) : Fp f × Csr :=
  andThen (mul csr s t) fun p csr =>
  andThen (if msub then sub csr p r else add csr p r) fun v csr =>
  if nmadd then neg csr v else (v, csr)

/-- `copcsr` of `fpux_emu`, behind the write of the result. -/
def fpuxFinish (ctx : FpuCtx) (rcsr : BitVec 32) : Option Signal × FpuCtx :=
  let sr := ctx.sr &&& ~~~allX ||| rcsr
  (if (sr >>> 5) &&& sr &&& allE ≠ 0 then some .fpe else none, { ctx with sr := sr })

def scoptop (msub nmadd : Bool) (ir : BitVec 32) (d : Data) : Option Signal × Data :=
  let (v, csr) := multiplyAdd msub nmadd d.csr (spFromReg d.ctx (rs ir)) (spFromReg d.ctx (rd ir))
    (spFromReg d.ctx (rt ir))
  let (sig, ctx) := fpuxFinish (spToReg d.ctx v (re ir)) (copcsrX csr.cx)
  (sig, { d with ctx := ctx, csr := csr })

def dcoptop (msub nmadd : Bool) (status ir : BitVec 32) (d : Data) : Option Signal × Data :=
  let (v, csr) := multiplyAdd msub nmadd d.csr (dpFromReg status d.ctx (rs ir))
    (dpFromReg status d.ctx (rd ir)) (dpFromReg status d.ctx (rt ir))
  let (sig, ctx) := fpuxFinish (dpToReg status d.ctx v (re ir)) (copcsrX csr.cx)
  (sig, { d with ctx := ctx, csr := csr })

/-- `fpux_emu (xcp, ctx, ir)`; the format is the low end of the function field. -/
def fpuxEmu (fault : BitVec 32 → Bool) (status ir : BitVec 32) (d : Data) : Option Signal × Data :=
  let va := d.regs (rs ir) + d.regs (rt ir)
  match (func ir).toNat with
  | 0x00 => -- lwxc1_op
    match mipsGetWord fault status d.mem va with
    | none => (some .bus, d)
    | some val => (none, { d with ctx := loadWord status d.ctx (re ir) val })
  | 0x08 => -- swxc1_op
    match mipsPutWord fault status d.mem va (storeWord status d.ctx (rd ir)) with
    | none => (some .bus, d)
    | some mem => (none, { d with mem := mem })
  | 0x20 => scoptop false false ir d
  | 0x28 => scoptop true false ir d
  | 0x30 => scoptop false true ir d
  | 0x38 => scoptop true true ir d
  | 0x01 => -- ldxc1_op
    match mipsGetDword fault status d.mem va with
    | none => (some .bus, d.setFpr (re ir) 0)
    | some val => (none, d.setFpr (re ir) val)
  | 0x09 => -- sdxc1_op
    let (err, mem) := mipsPutDword fault status d.mem va (d.ctx.regs (rd ir))
    (if err then some .bus else none, { d with mem := mem })
  | 0x21 => dcoptop false false status ir d
  | 0x29 => dcoptop true false status ir d
  | 0x31 => dcoptop false true status ir d
  | 0x39 => dcoptop true true status ir d
  | _ => (some .ill, d)

/-! ## One instruction -/

/-- How a case of the `switch` of `cop1Emulate` ends: with `break`, or with a return. -/
inductive Exit where
  | done
  | ret (sig : Option Signal)
deriving DecidableEq

/-- `if ((sig = fpu_emu (..))) return sig; break;` -/
def Exit.ofSig : Option Signal → Exit
  | none => .done
  | some sig => .ret (some sig)

/-- The cases of `cop1_op` other than `bc_op`. -/
def emulCop1 (status ir : BitVec 32) (d : Data) : Exit × Data :=
  match (rs ir).toNat with
  | 0x00 => -- mfc_op
    (.done, if rt ir ≠ 0 then d.setGpr (rt ir) (storeWord status d.ctx (rd ir)) else d)
  | 0x04 => -- mtc_op
    let value := if rt ir = 0 then 0 else d.regs (rt ir)
    (.done, { d with ctx := moveWord status d.ctx (rd ir) value })
  | 0x02 => -- cfc_op
    let value := if rd ir = 31 then d.ctx.sr else 0
    (.done, if rt ir ≠ 0 then d.setGpr (rt ir) value else d)
  | 0x06 => -- ctc_op
    let value := if rt ir = 0 then 0 else d.regs (rt ir)
    (.done, if rd ir = 31 then
        { d with
          ctx := { d.ctx with sr := value }
          csr := { d.csr with rm := ieeeRm (value.extractLsb' 0 2) } }
      else d)
  | n =>
    if n &&& 0x10 = 0 then (.ret (some .ill), d)
    else
      let (sig, d) := fpuEmu status ir d
      (.ofSig sig, d)

/-- The `switch` of `cop1Emulate`, `bc_op` apart. -/
def emulInstr (fault : BitVec 32 → Bool) (status ir : BitVec 32) (d : Data) : Exit × Data :=
  let va := d.regs (rs ir) + simm ir
  match (opcode ir).toNat with
  | 0x35 => -- ldc1_op
    match mipsGetDword fault status d.mem va with
    | none => (.ret (some .bus), d.setFpr (dpReg status (rt ir)) 0)
    | some val => (.done, d.setFpr (dpReg status (rt ir)) val)
  | 0x3d => -- sdc1_op
    let (err, mem) := mipsPutDword fault status d.mem va (d.ctx.regs (dpReg status (rt ir)))
    (if err then .ret (some .bus) else .done, { d with mem := mem })
  | 0x31 => -- lwc1_op
    match mipsGetWord fault status d.mem va with
    | none => (.ret (some .bus), d)
    | some val => (.done, { d with ctx := loadWord status d.ctx (rt ir) val })
  | 0x39 => -- swc1_op
    match mipsPutWord fault status d.mem va (storeWord status d.ctx (rt ir)) with
    | none => (.ret (some .bus), d)
    | some mem => (.done, { d with mem := mem })
  | 0x11 => emulCop1 status ir d
  | 0x13 => -- cop1x_op
    let (sig, d) := fpuxEmu fault status ir d
    (.ofSig sig, d)
  | 0x00 => -- spec_op
    if func ir ≠ 1 then (.ret (some .ill), d)
    else if !movTest d.ctx.sr (rt ir) then (.ret none, d)
    else (.done, d.setGpr (rd ir) (d.regs (rs ir)))
  | _ => (.ret (some .ill), d)

/-! ## Control -/

/-- `dsemul_epc` and `dsemul_aerpc` of a thread while a trampoline is pending. -/
structure Trampoline where
  epc : BitVec 32
  aerpc : BitVec 32

/-- A thread in the emulator. `dsemul_aerpc` holding 0 is `none`. -/
structure Thread where
  xcp : PtRegs
  ctx : FpuCtx
  csr : Csr
  mem : Memory
  dsemul : Option Trampoline

def Thread.data (s : Thread) : Data := { regs := s.xcp.regs, ctx := s.ctx, csr := s.csr, mem := s.mem }

/-- The thread after such an instruction. -/
def Thread.setData (s : Thread) (d : Data) : Thread :=
  { s with xcp := { s.xcp with regs := d.regs }, ctx := d.ctx, csr := d.csr, mem := d.mem }

/-- `xcp->cp0_epc = epc` -/
def Thread.setEpc (s : Thread) (epc : BitVec 32) : Thread :=
  { s with xcp := { s.xcp with cp0Epc := epc } }

/-- `xcp->cp0_cause & CAUSEF_BD` -/
def Thread.bd (s : Thread) : Bool := s.xcp.cp0Cause &&& causefBd ≠ 0

/-- `xcp->cp0_cause |= CAUSEF_BD` and `xcp->cp0_cause &= ~CAUSEF_BD` -/
def Thread.setBd (s : Thread) (bd : Bool) : Thread :=
  { s with xcp := { s.xcp with
      cp0Cause := if bd then s.xcp.cp0Cause ||| causefBd else s.xcp.cp0Cause &&& ~~~causefBd } }

def isBranchInstr (ir : BitVec 32) : Bool :=
  match (opcode ir).toNat with
  | 0x00 => func ir = 0x08 || func ir = 0x09
  | 0x01 => rt ir ≤ 0x03 || 0x10 ≤ rt ir && rt ir ≤ 0x13
  | 0x02 | 0x03 | 0x1d => true
  | 0x04 | 0x05 | 0x06 | 0x07 => true
  | 0x14 | 0x15 | 0x16 | 0x17 => true
  | 0x10 | 0x11 | 0x12 | 0x13 => rs ir = 0x08
  | _ => false

/-- `bc_op` of `cop1_op` -/
def isBc (ir : BitVec 32) : Bool := opcode ir = 0x11 && rs ir = 0x08

/-- "its one of ours": the delay slot is emulated too. -/
def isOurs (ir : BitVec 32) : Bool :=
  match (opcode ir).toNat with
  | 0x31 | 0x39 | 0x35 | 0x3d | 0x11 | 0x13 => true
  | 0x00 => func ir = 1
  | _ => false

def adeload : BitVec 32 := 0x8c000001

section Emulate
variable (fault : BitVec 32 → Bool)

/-- `mips_dsemul (xcp, ir, cpc)`. `verify_area` accepts every address here. -/
def mipsDsemul (ir cpc : BitVec 32) (s : Thread) : Option Signal × Thread :=
  if ir = 0 then (none, s.setEpc cpc)
  else
    let insns := (s.xcp.regs 29 &&& ~~~3) - 12
    match mipsPutWord fault s.xcp.cp0Status s.mem insns ir with
    | none => (some .bus, s)
    | some mem =>
      let forcetrap := if s.xcp.regs 29 &&& 3 = 3 then adeload - 1 else adeload
      match mipsPutWord fault s.xcp.cp0Status mem (insns + 4) forcetrap with
      | none => (some .bus, { s with mem := mem })
      | some mem =>
        (some .ill,
          { s.setEpc insns with mem := mem, dsemul := some { epc := cpc, aerpc := insns + 4 } })

/-- From `emul` to the end of `cop1Emulate`, for an instruction other than `bc1`. -/
def emulPlain (ir contpc : BitVec 32) (s : Thread) : Option Signal × Thread :=
  match emulInstr fault s.xcp.cp0Status ir s.data with
  | (.ret sig, d) => (sig, s.setData d)
  | (.done, d) => (none, ((s.setData d).setEpc contpc).setBd false)

/-- The condition of a `bc1`. -/
def bcTaken (ir sr : BitVec 32) : Bool :=
  let cond := sr &&& fpucondbit ((rt ir).extractLsb' 2 3) != 0
  -- `bcf_op`, `bcfl_op` negate it
  if rt ir &&& 1 = 0 then !cond else cond

/-- A taken `bc1`: the instruction in the delay slot is emulated, or put on a trampoline. -/
def bcSlot (ir : BitVec 32) (s : Thread) : Option Signal × Thread :=
  let s := s.setEpc (s.xcp.cp0Epc + 4)
  let contpc := s.xcp.cp0Epc + (simm ir <<< 2)
  match mipsGetWord fault s.xcp.cp0Status s.mem s.xcp.cp0Epc with
  | none => (some .bus, s)
  | some ir =>
    if isOurs ir then
      -- `goto emul`, where `bc_op` finds `CAUSEF_BD` set
      if isBc ir then (some .ill, s) else emulPlain fault ir contpc s
    else mipsDsemul fault ir contpc s

/-- From `emul` to the end of `cop1Emulate`. -/
def emul (ir contpc : BitVec 32) (s : Thread) : Option Signal × Thread :=
  if isBc ir then
    if s.bd then (some .ill, s)
    else
      let s := s.setBd true
      if bcTaken ir s.ctx.sr then bcSlot fault ir s
      else
        -- "branch likely nullifies dslot if not taken"
        let s := if rt ir &&& 2 ≠ 0 then s.setEpc (s.xcp.cp0Epc + 4) else s
        (none, (s.setEpc contpc).setBd false)
  else emulPlain fault ir contpc s

def cop1Emulate (s : Thread) : Option Signal × Thread :=
  match mipsGetWord fault s.xcp.cp0Status s.mem s.xcp.cp0Epc with
  | none => (some .bus, s)
  | some ir =>
    if s.bd && isBranchInstr ir then
      let emulpc := s.xcp.cp0Epc + 4
      let getUser := fun va => if fault va then none else some (s.mem.word va)
      let (err, xcp) := computeReturnEpc getUser s.ctx.sr s.xcp
      let s := { s with xcp := xcp }
      if err ≠ 0 then (some .ill, s)
      else
        match mipsGetWord fault s.xcp.cp0Status s.mem emulpc with
        | none => (some .bus, s)
        | some ir => emul fault ir s.xcp.cp0Epc s
    else
      let s := if s.bd then s.setBd false else s
      emul fault ir (s.xcp.cp0Epc + 4) s

/-- One turn of the loop of `fpu_emulator_cop1Handler`. -/
def handlerTurn (s : Thread) : Option Signal × Thread :=
  match mipsGetWord fault s.xcp.cp0Status s.mem s.xcp.cp0Epc with
  | none => (some .bus, s)
  | some insn =>
    if insn ≠ 0 then cop1Emulate fault s else (none, s.setEpc (s.xcp.cp0Epc + 4))

/-- The loop of `fpu_emulator_cop1Handler`. It ends because the address grows with every turn. -/
def handlerLoop (s : Thread) : Option Signal × Thread :=
  match handlerTurn fault s with
  | (sig, s') =>
    if s.xcp.cp0Epc.toNat < s'.xcp.cp0Epc.toNat ∧ sig = none then handlerLoop s' else (sig, s')
termination_by 2 ^ 32 - s.xcp.cp0Epc.toNat
decreasing_by
  rename_i h
  omega

def fpuEmulatorCop1Handler (s : Thread) : Option Signal × Thread :=
  let r := handlerLoop fault s
  -- "SIGILL indicates a non-fpu instruction, but if epc has advanced, then ignore it"
  if r.1 = some .ill ∧ r.2.xcp.cp0Epc ≠ s.xcp.cp0Epc then (none, r.2) else r

end Emulate

end PsxLinux.MathEmu
