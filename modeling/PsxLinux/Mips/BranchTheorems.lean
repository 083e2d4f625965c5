import PsxLinux.Mips.Branch
import Mathlib.Tactic.Common

/-!
# When branch emulation follows the architecture

The saved registers are unsigned, so the comparisons with zero of `__compute_return_epc` never see
a negative number: `bltz` is never taken and `bgez` always, `blez` only for zero and `bgtz` for
everything else. `jalr` links register 0 like any other. The result is the architecture's apart
from these two.
-/

namespace PsxLinux.Mips

open BitVec

/-! ## Addresses -/

section Addresses
variable {epc ir : BitVec 32}

lemma simm_shift_eq_four_iff (x : BitVec 16) : x.signExtend 32 * 4 = 4#32 ↔ x = 1 := by
  constructor
  · intro h
    have hval := congrArg BitVec.toNat h
    rw [toNat_mul, toNat_signExtend] at hval
    apply eq_of_toNat_eq
    split at hval <;> simp at hval ⊢ <;> omega
  · rintro rfl
    decide

lemma simm_shift (ir : BitVec 32) : simm ir <<< 2 = (simmediate ir).signExtend 32 * 4 := by
  rw [shiftLeft_eq_mul_twoPow]
  rfl

/-- The two outcomes of a branch coincide exactly for the offset that leads behind the delay
slot. -/
lemma taken_eq_iff : epc + 4#32 + (simm ir <<< 2) = epc + 8 ↔ simmediate ir = 1 := by
  rw [← simm_shift_eq_four_iff, ← simm_shift, show epc + 8 = epc + 4 + 4 by bv_omega]
  exact BitVec.add_right_inj _

lemma branchEpc_eq_iff (a b : Bool) :
    branchEpc epc ir a = branchEpc epc ir b ↔ a = b ∨ simmediate ir = 1 := by
  cases a <;> cases b
  · exact ⟨fun _ => .inl rfl, fun _ => rfl⟩
  · rw [eq_comm]
    exact taken_eq_iff.trans (by simp)
  · exact taken_eq_iff.trans (by simp)
  · exact ⟨fun _ => .inl rfl, fun _ => rfl⟩

/-- The bits of an architectural jump address: two zeros, the index, the region. -/
lemma getLsbD_region (index : BitVec 26) {i : ℕ} (hi : i < 32) :
    ((epc + 4).extractLsb' 28 4 ++ index ++ 0#2).getLsbD i =
      if i < 2 then false else if i < 28 then index.getLsbD (i - 2)
        else (epc + 4).getLsbD i := by
  rw [getLsbD_append, getLsbD_append]
  by_cases h₂ : i < 2
  · simp [h₂]
  · by_cases h₂₈ : i < 28
    · simp [h₂₈, show i - 2 < 26 by omega]
    · have hrest : 28 + (i - 2 - 26) = i := by omega
      simp [h₂₈, hrest, show ¬ i - 2 < 26 by omega, show i - 2 - 26 < 4 by omega]

/-- The arithmetic shift of the code keeps the region: its sign bits are shifted out again. -/
lemma jumpEpc_eq : jumpEpc epc ir = (epc + 4).extractLsb' 28 4 ++ target ir ++ 0#2 := by
  apply eq_of_getLsbD_eq
  intro i hi
  apply Eq.trans _ (getLsbD_region (target ir) hi).symm
  rw [jumpEpc, getLsbD_or, getLsbD_shiftLeft, getLsbD_shiftLeft,
    getLsbD_sshiftRight, getLsbD_setWidth]
  by_cases h₂ : i < 2
  · simp [h₂, show i < 28 by omega]
  · by_cases h₂₈ : i < 28
    · simp [h₂₈, hi, show i - 2 < 32 by omega]
    · have hrest : 28 + (i - 28) = i := by omega
      have hindex : (target ir).getLsbD (i - 2) = false :=
        getLsbD_of_ge (target ir) (i - 2) (by omega)
      simp [h₂, hi, hrest, hindex, show ¬ 32 ≤ i - 28 by omega]

end Addresses

/-! ## Tests -/

/-- What the code's comparisons of unsigned registers amount to. -/
def Test.emulated (regs : BitVec 5 → BitVec 32) (fcr31 : BitVec 32) : Test → Bool
  | .eq rs rt => regs rs = regs rt
  | .ne rs rt => regs rs ≠ regs rt
  | .lez rs => regs rs = 0
  | .gtz rs => regs rs ≠ 0
  | .ltz _ => false
  | .gez _ => true
  | .cc0 value => fcr31.getLsbD 23 = value

/-- The register a test compares with zero. -/
def Test.zeroOperand : Test → Option (BitVec 5)
  | .lez rs => some rs
  | .gtz rs => some rs
  | .ltz rs => some rs
  | .gez rs => some rs
  | _ => none

section Tests
variable {regs : BitVec 5 → BitVec 32} {fcr31 : BitVec 32}

lemma toInt_nonpos_iff {x : BitVec 32} (h : 0 ≤ x.toInt) : x.toInt ≤ 0 ↔ x = 0 := by
  constructor
  · intro hle
    apply eq_of_toInt_eq
    simp only [ofNat_eq_ofNat, toInt_zero]
    omega
  · intro hx
    simp [hx]

/-- The unsigned comparison is the signed one exactly where the operand is not negative. -/
lemma emulated_eq_holds_iff (test : Test) :
    test.emulated regs fcr31 = test.holds regs fcr31 ↔
      ∀ rs ∈ test.zeroOperand, 0 ≤ (regs rs).toInt := by
  cases test with
  | eq rs rt => simp [Test.emulated, Test.holds, Test.zeroOperand]
  | ne rs rt => simp [Test.emulated, Test.holds, Test.zeroOperand]
  | cc0 value => simp [Test.emulated, Test.holds, Test.zeroOperand]
  | ltz rs => simp [Test.emulated, Test.holds, Test.zeroOperand]
  | gez rs => simp [Test.emulated, Test.holds, Test.zeroOperand]
  | lez rs =>
    simp only [Test.emulated, Test.holds, Test.zeroOperand, Option.mem_some_iff, forall_eq',
      decide_eq_decide]
    constructor
    · intro h
      by_contra hneg
      have hzero := h.2 (by omega)
      simp [hzero] at hneg
    · intro h
      exact (toInt_nonpos_iff h).symm
  | gtz rs =>
    simp only [Test.emulated, Test.holds, Test.zeroOperand, Option.mem_some_iff, forall_eq',
      decide_eq_decide]
    constructor
    · intro h
      by_contra hneg
      have hzero : ¬ regs rs ≠ 0 := fun hne => by
        have := h.1 hne
        omega
      simp [not_not.1 hzero] at hneg
    · intro h
      rw [ne_eq, ← toInt_nonpos_iff h]
      omega

end Tests

/-! ## The switch -/

/-- The address the code computes. -/
def Jump.emulatedDestination (regs : BitVec 5 → BitVec 32) (fcr31 epc ir : BitVec 32) :
    Jump → BitVec 32
  | .relative test _ _ _ => branchEpc epc ir (test.emulated regs fcr31)
  | j => j.destination regs fcr31 epc

/-- The registers the code leaves: `jalr` links every register. -/
def Jump.emulatedRegs (epc : BitVec 32) (regs : BitVec 5 → BitVec 32) :
    Jump → BitVec 5 → BitVec 32
  | .register (some rd) _ => Function.update regs rd (epc + 8)
  | j => j.linked epc regs

/-- `jalr` with equal registers, which the architecture leaves undefined. -/
def Jump.Distinct : Jump → Prop
  | .register (some rd) rs => rs ≠ rd
  | _ => True

section Switch
variable {fcr31 ir : BitVec 32} {xcp : PtRegs} {j : Jump}

lemma unsigned_nonneg (x : BitVec 32) : 0#32 ≤ x := Nat.zero_le _

lemma unsigned_pos_iff (x : BitVec 32) : 0#32 < x ↔ ¬ x = 0#32 := by
  rw [lt_def, toNat_zero, Nat.pos_iff_ne_zero, ne_eq, ← toNat_inj, toNat_zero]

lemma and_cc0_eq_zero_iff (x : BitVec 32) : x &&& 8388608#32 = 0#32 ↔ x[23] = false := by
  have hmask : 8388608#32 = BitVec.twoPow 32 23 := by decide
  have hbit : x.getLsbD 23 = x[23] := getLsbD_eq_getElem (by decide)
  rw [hmask, and_twoPow, hbit]
  cases x[23]
  · simp
  · decide

/-- What the `switch` does with each jump and branch. -/
lemma branchSwitch_eq (hj : Jump.decode ir = some j) (hd : j.Distinct) :
    branchSwitch fcr31 ir xcp = { xcp with
      regs := j.emulatedRegs xcp.cp0Epc xcp.regs
      cp0Epc := j.emulatedDestination xcp.regs fcr31 xcp.cp0Epc ir } := by
  unfold Jump.decode at hj
  -- one goal for each encoding
  split at hj <;> (try split at hj) <;> simp only [Option.some.injEq, reduceCtorEq] at hj <;>
    subst hj
  -- `jalr` reads its target behind the write of the link, which is another register
  all_goals
    simp only [Jump.Distinct] at hd
    simp [branchSwitch, *, PtRegs.setReg, PtRegs.setEpc, Jump.linked, Jump.link,
      Jump.emulatedRegs, Jump.emulatedDestination, Test.emulated, Jump.destination, jumpEpc_eq,
      unsigned_nonneg, unsigned_pos_iff, and_cc0_eq_zero_iff]

lemma decode_offset {test : Test} {link likely : Bool} {offset : BitVec 16}
    (hj : Jump.decode ir = some (.relative test link likely offset)) :
    offset = simmediate ir := by
  unfold Jump.decode at hj
  split at hj <;> (try split at hj) <;> simp only [Option.some.injEq, reduceCtorEq] at hj <;>
    simp_all

end Switch

/-! ## The result -/

/-- A branch that compares a register with zero finds it not negative, or leads behind its own
delay slot; a `jalr` does not link register 0, unless with the 0 that it holds. -/
def Jump.Regular (regs : BitVec 5 → BitVec 32) (epc : BitVec 32) : Jump → Prop
  | .relative test _ _ offset => (∀ rs ∈ test.zeroOperand, 0 ≤ (regs rs).toInt) ∨ offset = 1
  | .register link _ => link = some 0 → epc + 8 = 0
  | .absolute _ _ => True

section Result
variable {fcr31 ir : BitVec 32} {regs : BitVec 5 → BitVec 32} {j : Jump}

lemma relative_destination_eq_iff {test : Test} {link likely : Bool} {offset : BitVec 16}
    (hj : Jump.decode ir = some (.relative test link likely offset)) (epc : BitVec 32) :
    branchEpc epc ir (test.emulated regs fcr31) =
        (Jump.relative test link likely offset).destination regs fcr31 epc ↔
      (∀ rs ∈ test.zeroOperand, 0 ≤ (regs rs).toInt) ∨ offset = 1 := by
  have hoffset := decode_offset hj
  have hdest : (Jump.relative test link likely offset).destination regs fcr31 epc =
      branchEpc epc ir (test.holds regs fcr31) := by
    rw [branchEpc, simm_shift, hoffset]
    rfl
  rw [hdest, branchEpc_eq_iff, emulated_eq_holds_iff, ← hoffset]

lemma jalr_regs_eq_iff {rd rs : BitVec 5} (hzero : regs 0 = 0) (epc : BitVec 32) :
    (Jump.register (some rd) rs).emulatedRegs epc regs =
        (Jump.register (some rd) rs).linked epc regs ↔ (some rd = some 0 → epc + 8 = 0) := by
  by_cases hrd : rd = 0
  · subst hrd
    have hself : Function.update regs 0 (epc + 8) = regs ↔ epc + 8 = regs 0 :=
      Function.update_eq_self_iff
    rw [hzero] at hself
    exact hself.trans ⟨fun h _ => h, fun h => h rfl⟩
  · have hlinked : (Jump.register (some rd) rs).linked epc regs =
        Function.update regs rd (epc + 8) := by
      have hlink : (Jump.register (some rd) rs).link = some rd := if_pos (decide_eq_true hrd)
      rw [Jump.linked, hlink]
    rw [hlinked]
    exact iff_of_true rfl fun h => absurd (Option.some.inj h) hrd

/-- The code's registers and destination are the architecture's exactly for a regular jump. -/
lemma emulated_eq_iff (hj : Jump.decode ir = some j) (hzero : regs 0 = 0) (epc : BitVec 32) :
    (j.emulatedRegs epc regs = j.linked epc regs ∧
      j.emulatedDestination regs fcr31 epc ir = j.destination regs fcr31 epc) ↔
      j.Regular regs epc := by
  cases j with
  | absolute link index => exact iff_of_true ⟨rfl, rfl⟩ trivial
  | relative test link likely offset =>
    exact (and_iff_right rfl).trans (relative_destination_eq_iff hj epc)
  | register link rs =>
    cases link with
    | none => exact iff_of_true ⟨rfl, rfl⟩ nofun
    | some rd => exact (and_iff_left rfl).trans (jalr_regs_eq_iff hzero epc)

/-- `__compute_return_epc` of a jump or branch at a readable aligned address returns 0 with the
architecture's registers and address exactly when no negative register is compared with zero, the
branch behind its own delay slot apart, and no `jalr` links register 0. -/
theorem compute_return_epc_correct_iff (getUser : BitVec 32 → Option (BitVec 32)) (xcp : PtRegs)
    (haligned : xcp.cp0Epc &&& 3 = 0) (hword : getUser xcp.cp0Epc = some ir)
    (hj : Jump.decode ir = some j) (hd : j.Distinct) :
    computeReturnEpc getUser fcr31 xcp = (0, j.execute fcr31 xcp) ↔
      j.Regular (Function.update xcp.regs 0 0) xcp.cp0Epc := by
  have hcall : computeReturnEpc getUser fcr31 xcp =
      (0, branchSwitch fcr31 ir (xcp.setReg 0 0)) := by
    simp only [computeReturnEpc, haligned, hword, ne_eq, not_true_eq_false, if_false]
  have hiff : _ ∧ j.emulatedDestination _ fcr31 _ ir = _ ↔ _ :=
    emulated_eq_iff hj (Function.update_self 0 0 xcp.regs) xcp.cp0Epc
  rw [hcall, branchSwitch_eq hj hd, ← hiff, Jump.execute, Prod.mk.injEq, PtRegs.mk.injEq]
  simp [PtRegs.setReg]

/-- The registers of a process at `0x1000` whose `$1` holds `v`. -/
def registersAt (v : BitVec 32) : PtRegs where
  regs := fun r => if r = 1 then v else 0
  lo := 0
  hi := 0
  cp0Epc := 0x1000
  cp0Badvaddr := 0
  cp0Status := 0
  cp0Cause := 0

/-- `bgezal $1` with `$1` zero. -/
theorem compute_return_epc_correct_bgezal :
    computeReturnEpc (fun _ => some 0x04310004) 0 (registersAt 0) =
      (0, (Jump.relative (.gez 1) true false 4).execute 0 (registersAt 0)) :=
  (compute_return_epc_correct_iff (j := .relative (.gez 1) true false 4)
    (fun _ => some 0x04310004) (registersAt 0) (by decide) rfl (by decide) trivial).2
    (.inl (by decide))

/-- `bltz $1` with `$1` minus one is not taken: the process goes on behind the delay slot, not at
the target. -/
theorem bltz_negative_not_taken : Jump.decode 0x04200004 = some (.relative (.ltz 1) false false 4) ∧
    (computeReturnEpc (fun _ => some 0x04200004) 0 (registersAt (-1))).2.cp0Epc = 0x1008 ∧
    ((Jump.relative (.ltz 1) false false 4).execute 0 (registersAt (-1))).cp0Epc = 0x1014 := by
  decide

end Result

end PsxLinux.Mips
