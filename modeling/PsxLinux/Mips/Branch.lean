import PsxLinux.Mips.Inst

/-!
# Branches

`__compute_return_epc` of `arch/mipsnommu/kernel/branch.c`, and beside it what the architecture
says a jump or branch does: which words are jumps and branches, when one is taken, where it goes
and which register it links.
-/

namespace PsxLinux.Mips

/-! ## The emulator -/

def efault : Int := 14

/-- `epc + 4 + (insn.i_format.simmediate << 2)` if the condition holds, `epc + 8` otherwise. -/
def branchEpc (epc ir : BitVec 32) (taken : Bool) : BitVec 32 :=
  if taken then epc + 4#32 + (simm ir <<< 2) else epc + 8

/-- `epc += 4; epc >>= 28; epc <<= 28; epc |= (insn.j_format.target << 2)`, where `epc` is a
`long`. -/
def jumpEpc (epc ir : BitVec 32) : BitVec 32 :=
  ((epc + 4).sshiftRight 28 <<< 28) ||| ((target ir).setWidth 32 <<< 2)

/-- The `switch` of `__compute_return_epc`. The registers are `unsigned long`, and so are the
comparisons with zero. -/
def branchSwitch (fcr31 ir : BitVec 32) (xcp : PtRegs) : PtRegs :=
  let epc := xcp.cp0Epc
  match (opcode ir).toNat with
  | 0x00 => -- spec_op
    match (func ir).toNat with
    | 0x09 => -- jalr_op
      let xcp := xcp.setReg (rd ir) (epc + 8)
      xcp.setEpc (xcp.regs (rs ir))
    | 0x08 => -- jr_op
      xcp.setEpc (xcp.regs (rs ir))
    | _ => xcp
  | 0x01 => -- bcond_op
    match (rt ir).toNat with
    | 0x00 | 0x02 => -- bltz_op, bltzl_op
      xcp.setEpc (branchEpc epc ir (xcp.regs (rs ir) < 0))
    | 0x01 | 0x03 => -- bgez_op, bgezl_op
      xcp.setEpc (branchEpc epc ir (xcp.regs (rs ir) ≥ 0))
    | 0x10 | 0x12 => -- bltzal_op, bltzall_op
      let xcp := xcp.setReg 31 (epc + 8)
      xcp.setEpc (branchEpc epc ir (xcp.regs (rs ir) < 0))
    | 0x11 | 0x13 => -- bgezal_op, bgezall_op
      let xcp := xcp.setReg 31 (epc + 8)
      xcp.setEpc (branchEpc epc ir (xcp.regs (rs ir) ≥ 0))
    | _ => xcp
  | 0x03 => -- jal_op
    (xcp.setReg 31 (xcp.cp0Epc + 8)).setEpc (jumpEpc epc ir)
  | 0x02 => -- j_op
    xcp.setEpc (jumpEpc epc ir)
  | 0x04 | 0x14 => -- beq_op, beql_op
    xcp.setEpc (branchEpc epc ir (xcp.regs (rs ir) = xcp.regs (rt ir)))
  | 0x05 | 0x15 => -- bne_op, bnel_op
    xcp.setEpc (branchEpc epc ir (xcp.regs (rs ir) ≠ xcp.regs (rt ir)))
  | 0x06 | 0x16 => -- blez_op, blezl_op
    xcp.setEpc (branchEpc epc ir (xcp.regs (rs ir) ≤ 0))
  | 0x07 | 0x17 => -- bgtz_op, bgtzl_op
    xcp.setEpc (branchEpc epc ir (xcp.regs (rs ir) > 0))
  | 0x11 => -- cop1_op
    let bit := (rt ir).toNat >>> 2
    let bit := bit + if bit ≠ 0 then 1 else 0
    let bit := bit + 23
    match (rt ir).toNat with
    | 0 | 2 => -- bc1f, bc1fl
      xcp.setEpc (branchEpc epc ir (~~~fcr31 &&& (1#32 <<< bit) ≠ 0))
    | 1 | 3 => -- bc1t, bc1tl
      xcp.setEpc (branchEpc epc ir (fcr31 &&& (1#32 <<< bit) ≠ 0))
    | _ => xcp
  | _ => xcp

/-- `__compute_return_epc (regs)`: the returned value and the registers. `getUser` reads a word of
user memory, and `fcr31` is the floating point status the branch tests. -/
def computeReturnEpc (getUser : BitVec 32 → Option (BitVec 32)) (fcr31 : BitVec 32)
    (xcp : PtRegs) : Int × PtRegs :=
  if xcp.cp0Epc &&& 3 ≠ 0 then (-efault, xcp)
  else
    match getUser xcp.cp0Epc with
    | none => (-efault, xcp)
    | some ir => (0, branchSwitch fcr31 ir (xcp.setReg 0 0))

/-! ## The architecture -/

/-- What a branch tests. -/
inductive Test where
  | eq (rs rt : BitVec 5)
  | ne (rs rt : BitVec 5)
  | lez (rs : BitVec 5)
  | gtz (rs : BitVec 5)
  | ltz (rs : BitVec 5)
  | gez (rs : BitVec 5)
  /-- condition code 0 of the floating point unit -/
  | cc0 (value : Bool)
deriving DecidableEq

/-- Jumps and branches. -/
inductive Jump where
  | absolute (link : Bool) (index : BitVec 26)
  | register (link : Option (BitVec 5)) (rs : BitVec 5)
  | relative (test : Test) (link likely : Bool) (offset : BitVec 16)
deriving DecidableEq

/-- The jump or branch a word encodes. -/
def Jump.decode (ir : BitVec 32) : Option Jump :=
  match (opcode ir).toNat with
  | 0x00 =>
    match (func ir).toNat with
    | 0x08 => some (.register none (rs ir))
    | 0x09 => some (.register (some (rd ir)) (rs ir))
    | _ => none
  | 0x01 =>
    match (rt ir).toNat with
    | 0x00 => some (.relative (.ltz (rs ir)) false false (simmediate ir))
    | 0x01 => some (.relative (.gez (rs ir)) false false (simmediate ir))
    | 0x02 => some (.relative (.ltz (rs ir)) false true (simmediate ir))
    | 0x03 => some (.relative (.gez (rs ir)) false true (simmediate ir))
    | 0x10 => some (.relative (.ltz (rs ir)) true false (simmediate ir))
    | 0x11 => some (.relative (.gez (rs ir)) true false (simmediate ir))
    | 0x12 => some (.relative (.ltz (rs ir)) true true (simmediate ir))
    | 0x13 => some (.relative (.gez (rs ir)) true true (simmediate ir))
    | _ => none
  | 0x02 => some (.absolute false (target ir))
  | 0x03 => some (.absolute true (target ir))
  | 0x04 => some (.relative (.eq (rs ir) (rt ir)) false false (simmediate ir))
  | 0x05 => some (.relative (.ne (rs ir) (rt ir)) false false (simmediate ir))
  | 0x06 => some (.relative (.lez (rs ir)) false false (simmediate ir))
  | 0x07 => some (.relative (.gtz (rs ir)) false false (simmediate ir))
  | 0x14 => some (.relative (.eq (rs ir) (rt ir)) false true (simmediate ir))
  | 0x15 => some (.relative (.ne (rs ir) (rt ir)) false true (simmediate ir))
  | 0x16 => some (.relative (.lez (rs ir)) false true (simmediate ir))
  | 0x17 => some (.relative (.gtz (rs ir)) false true (simmediate ir))
  | 0x11 =>
    -- `bc1` with condition code 0
    match (rs ir).toNat, (rt ir).toNat with
    | 0x08, 0 => some (.relative (.cc0 false) false false (simmediate ir))
    | 0x08, 1 => some (.relative (.cc0 true) false false (simmediate ir))
    | 0x08, 2 => some (.relative (.cc0 false) false true (simmediate ir))
    | 0x08, 3 => some (.relative (.cc0 true) false true (simmediate ir))
    | _, _ => none
  | _ => none

/-- The test holds of the registers, read as signed numbers. -/
def Test.holds (regs : BitVec 5 → BitVec 32) (fcr31 : BitVec 32) : Test → Bool
  | .eq rs rt => regs rs = regs rt
  | .ne rs rt => regs rs ≠ regs rt
  | .lez rs => (regs rs).toInt ≤ 0
  | .gtz rs => 0 < (regs rs).toInt
  | .ltz rs => (regs rs).toInt < 0
  | .gez rs => 0 ≤ (regs rs).toInt
  | .cc0 value => fcr31.getLsbD 23 = value

/-- The register that receives the address behind the delay slot. Register 0 cannot be written. -/
def Jump.link : Jump → Option (BitVec 5)
  | .absolute true _ => some 31
  | .register link _ => link.filter (· ≠ 0)
  | .relative _ true _ _ => some 31
  | _ => none

/-- The address executed after the delay slot of the instruction at `epc`. -/
def Jump.destination (regs : BitVec 5 → BitVec 32) (fcr31 epc : BitVec 32) : Jump → BitVec 32
  | .absolute _ index => (epc + 4).extractLsb' 28 4 ++ index ++ 0#2
  | .register _ rs => regs rs
  | .relative test _ _ offset =>
    if test.holds regs fcr31 then epc + 4 + offset.signExtend 32 * 4 else epc + 8

/-- The registers with the link written. -/
def Jump.linked (j : Jump) (epc : BitVec 32) (regs : BitVec 5 → BitVec 32) :
    BitVec 5 → BitVec 32 :=
  match j.link with
  | some r => Function.update regs r (epc + 8)
  | none => regs

/-- The jump executed from `cp0_epc`, with register 0 holding 0. -/
def Jump.execute (fcr31 : BitVec 32) (j : Jump) (xcp : PtRegs) : PtRegs :=
  let regs := Function.update xcp.regs 0 0
  { xcp with
    regs := j.linked xcp.cp0Epc regs
    cp0Epc := j.destination regs fcr31 xcp.cp0Epc }

end PsxLinux.Mips
