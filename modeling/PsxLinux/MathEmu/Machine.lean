import PsxLinux.MathEmu.Cp1emu

/-!
# The program order

What the architecture makes of a user program: one instruction after another from the address
`pc`, where a branch takes effect behind its delay slot. A floating point instruction does to
registers and memory what the emulator does, the conditional move apart, which is given here by
its definition. Every other instruction that is not a jump or a branch is a parameter.
-/

namespace PsxLinux.MathEmu

open Lib Mips

/-- A processor that runs a user program. `npc` is executed after `pc`. -/
structure Machine where
  data : Data
  lo : BitVec 32
  hi : BitVec 32
  status : BitVec 32
  pc : BitVec 32
  npc : BitVec 32

namespace Machine

def next (m : Machine) : Machine := { m with pc := m.npc, npc := m.npc + 4 }

/-- A branch: taken, it takes effect behind the delay slot; a likely branch that is not taken
skips the delay slot. -/
def branch (m : Machine) (taken likely : Bool) (target : BitVec 32) : Machine :=
  if taken then { m with pc := m.npc, npc := target }
  else if likely then { m with pc := m.npc + 4, npc := m.npc + 8 }
  else m.next

/-- A jump or branch of the integer unit. -/
def jump (m : Machine) (j : Jump) : Machine :=
  let target := j.destination m.data.regs m.data.ctx.sr m.pc
  let m' := { m with data := { m.data with regs := j.linked m.pc m.data.regs } }
  match j with
  | .relative test _ likely _ => m'.branch (test.holds m.data.regs m.data.ctx.sr) likely target
  | _ => m'.branch true false target

end Machine

/-- The condition code `cc` of a status register. -/
def conditionCode (sr : BitVec 32) (cc : BitVec 3) : Bool :=
  sr.getLsbD (if cc = 0 then 23 else 24 + cc.toNat)

/-- The test of a `bc1` or a `movc`, whose field names a condition code and its value. -/
def testsTrue (sr : BitVec 32) (field : BitVec 5) : Bool :=
  conditionCode sr (field.extractLsb' 2 3) == field.getLsbD 0

/-- `movf`, `movt` -/
def isMovc (ir : BitVec 32) : Bool := opcode ir = 0 && func ir = 1

/-- What a floating point instruction does, if it raises no exception. -/
def executeFp (fault : BitVec 32 → Bool) (status ir : BitVec 32) (d : Data) : Option Data :=
  if isMovc ir then
    some (if testsTrue d.ctx.sr (rt ir) ∧ rd ir ≠ 0 then d.setGpr (rd ir) (d.regs (rs ir)) else d)
  else
    match emulInstr fault status ir d with
    | (.done, d') => some d'
    | (.ret _, _) => none

/-- One instruction of the program. -/
def Machine.step (fault : BitVec 32 → Bool) (native : BitVec 32 → Machine → Machine)
    (m : Machine) : Option Machine :=
  match mipsGetWord fault m.status m.data.mem m.pc with
  | none => none
  | some ir =>
    if ir = 0 then some m.next
    else if isBc ir then
      some (m.branch (testsTrue m.data.ctx.sr (rt ir)) ((rt ir).getLsbD 1)
        (m.pc + 4#32 + (simm ir <<< 2)))
    else
      match Jump.decode ir with
      | some j => some (m.jump j)
      | none =>
        if isOurs ir then
          (executeFp fault m.status ir m.data).map fun d => { m.next with data := d }
        else some { native ir m with pc := m.npc, npc := m.npc + 4 }

/-- The processor at a thread's saved address, not in a delay slot. -/
def Thread.machine (s : Thread) : Machine where
  data := s.data
  lo := s.xcp.lo
  hi := s.xcp.hi
  status := s.xcp.cp0Status
  pc := s.xcp.cp0Epc
  npc := s.xcp.cp0Epc + 4

/-- A pending trampoline of the thread: the two words on the stack are the instruction of the
delay slot and the trap, and the machine `m` is the processor behind that instruction, where the
recorded address is. The processor in front of it differs from the thread in the two words and in
the address. -/
structure Thread.Pending (native : BitVec 32 → Machine → Machine) (s : Thread) (t : Trampoline)
    (m : Machine) : Prop where
  dsemul : s.dsemul = some t
  aerpc : t.aerpc = s.xcp.cp0Epc + 4
  trap : s.mem.word t.aerpc = adeload ∨ s.mem.word t.aerpc = adeload - 1
  behind : ∃ m₀ : Machine,
    m₀.data.regs = s.xcp.regs ∧ m₀.data.ctx = s.ctx ∧ m₀.data.csr = s.csr ∧
    m₀.lo = s.xcp.lo ∧ m₀.hi = s.xcp.hi ∧ m₀.status = s.xcp.cp0Status ∧
    (∀ a, 8 ≤ (a - s.xcp.cp0Epc).toNat → m₀.data.mem a = s.mem a) ∧
    m = { native (s.mem.word s.xcp.cp0Epc) m₀ with pc := t.epc, npc := t.epc + 4 }

/-- A thread `s'` that started as `s` stands for the processor `m`: directly, or by a trampoline
that has been set up since. -/
def Thread.Lands (native : BitVec 32 → Machine → Machine) (s s' : Thread) (m : Machine) : Prop :=
  (s'.dsemul = s.dsemul ∧ m = s'.machine) ∨ ∃ t, s'.Pending native t m

end PsxLinux.MathEmu
