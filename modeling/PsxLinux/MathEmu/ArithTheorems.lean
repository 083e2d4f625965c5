import PsxLinux.MathEmu.MulDivTheorems

/-!
# The soft-float operations are correctly rounded

For operands that are not NaNs, addition, subtraction, multiplication and division return what the
tables of IEEE 754 prescribe for the exact rational result in the current rounding mode, in both
precisions (`arith_correctly_rounded`).
-/

namespace PsxLinux.MathEmu

open Lib

variable {f : Format} {csr : Csr} {x y : Fp f}
variable {rm : RoundingMode} {sn : Bool}

/-- A register that tells of an exact result. -/
def Csr.Exact (csr : Csr) : Prop := raised csr.cx inexact = false ∧ raised csr.cx overflow = false

/-- With the causes cleared, nothing was inexact. -/
lemma exact_clear : csr.clearCx.Exact := by
  show raised 0 inexact = false ∧ raised 0 overflow = false
  decide

lemma exact_setCx {flag : BitVec 5} (hflag : flag = invalidOperation ∨ flag = zeroDivide) :
    (csr.clearCx.setCx flag).Exact := by
  show raised (0 ||| flag) inexact = false ∧ raised (0 ||| flag) overflow = false
  obtain rfl | rfl := hflag <;> decide

lemma datum_indef : (Fp.indef : Fp f).datum = .nan := by
  have hmax := f.emax_pos
  have hbias := f.ebias_eq
  have hmbits := f.mbits_pos
  have hexp : ((BitVec.ofInt f.ebits (f.emax + 1 + f.ebias)).toNat : ℤ) = f.emax + 1 + f.ebias :=
    toNat_ofInt_ebits (by omega) le_rfl
  have hmant : (BitVec.ofNat f.mbits (2 ^ (f.mbits - 2))).toNat = 2 ^ (f.mbits - 2) :=
    toNat_ofNat_mbits (Nat.pow_lt_pow_right one_lt_two (by omega))
  rw [Fp.datum, Fp.indef, build, if_pos hexp, if_neg]
  rw [hmant]
  exact (Nat.two_pow_pos _).ne'

/-- An invalid operation gives the NaN it should. -/
lemma computes_nan :
    Computes rm ((Fp.indef, csr.clearCx.setCx invalidOperation) : Fp f × Csr) .nan :=
  ⟨datum_indef, exact_setCx (.inl rfl)⟩

lemma computes_inf : Computes rm ((Fp.inf sn, csr.clearCx) : Fp f × Csr) (.inf sn) :=
  ⟨datum_inf sn, exact_clear⟩

lemma computes_zero : Computes rm ((Fp.zero sn, csr.clearCx) : Fp f × Csr) (.zero sn) :=
  ⟨datum_zero sn, exact_clear⟩

/-- The significand and the exponent that a finite number is stored as. -/
structure Significand (x : Fp f) (k : ℕ) (e : ℤ) : Prop where
  lt : k < 2 ^ (f.mbits + 1)
  emin_le : f.emin ≤ e
  le_emax : e ≤ f.emax
  leading : Leading f.mbits f.emin e k
  bexp : (x.bexp.toNat : ℤ) = if k < 2 ^ f.mbits then 0 else e + f.ebias
  mant : x.mant.toNat = k % 2 ^ f.mbits
  zero : k = 0 → explode x = (.zero, 0, 0)
  nonzero : k ≠ 0 → explode x = (if k < 2 ^ f.mbits then .dnorm else .norm, e, k)

/-- A finite number is its significand at its exponent. -/
lemma significand_of_datum {s : Bool} {a : ℚ} (hx : x.datum = .finite s a) :
    x.sign = s ∧ ∃ k e, Significand x k e ∧ a = k * ulp f.mbits e := by
  have hmin := f.emin_eq
  have hbias := f.ebias_eq
  have hmax := f.emax_pos
  have hmant := x.mant.isLt
  have hexp : (x.bexp.toNat : ℤ) < 2 * f.emax + 2 := by
    rw [← f.ebits_eq]
    exact_mod_cast x.bexp.isLt
  have hzero : (x.bexp.toNat : ℤ) = f.emin - 1 + f.ebias ↔ x.bexp.toNat = 0 := by omega
  rw [Fp.datum] at hx
  split_ifs at hx with h₁ h₂ h₃
  · obtain ⟨hs, ha⟩ := Datum.finite.inj hx
    refine ⟨hs, _, _, ⟨by rw [pow_succ]; omega, le_rfl, by omega, .inr rfl, ?_, ?_, ?_, ?_⟩, ha.symm⟩
    · rw [if_pos hmant, h₃, Nat.cast_zero]
    · exact (Nat.mod_eq_of_lt hmant).symm
    · intro h0
      rw [explode, if_neg h₁, if_pos (hzero.2 h₃), if_neg (not_not.2 h0), h₃, h0, Nat.cast_zero]
    · intro h0
      rw [explode, if_neg h₁, if_pos (hzero.2 h₃), if_pos h0, if_pos hmant]
  · obtain ⟨hs, ha⟩ := Datum.finite.inj hx
    refine ⟨hs, _, _, ⟨by rw [pow_succ]; omega, by omega, by omega, .inl (by omega), ?_, ?_, ?_, ?_⟩,
      ha.symm⟩
    · rw [if_neg (by omega), sub_add_cancel]
    · rw [Nat.add_mod_left, Nat.mod_eq_of_lt hmant]
    · intro h0
      omega
    · intro h0
      rw [if_neg (by omega), explode, if_neg h₁, if_neg (mt hzero.1 h₃), or_hiddenBit hmant]

/-- What a format holds it can represent. -/
lemma representable_of_datum {q : ℚ} (hx : x.datum = .finite sn q) :
    Representable f.mbits f.emin q ∧ q ≤ largest f.mbits f.emax := by
  have hmin := f.emin_eq
  have hmax := f.emax_pos
  obtain ⟨-, k, e, hk, rfl⟩ := significand_of_datum hx
  exact ⟨⟨k, e, hk.lt, hk.emin_le, rfl⟩, (le_largest_iff hk.lt hk.leading (by omega)).2 hk.le_emax⟩

/-- A representable number is its own rounding. -/
lemma computes_self {q : ℚ} (rm : RoundingMode) (hx : x.datum = .finite sn q)
    (hq : 0 < q) (hcsr : csr.Exact) : Computes rm (x, csr) (.rounded (signed sn q)) := by
  obtain ⟨hrep, hle⟩ := representable_of_datum hx
  simp only [Computes, Expected.Computed, signed_neg_iff hq, abs_signed hq.le, hcsr.1, hcsr.2]
  exact ⟨by simp [hrep], q, roundsTo_self _ hrep, by rw [bounded, hx, if_pos hle], by simp [hle]⟩

/-- Flipping the sign bit negates. -/
lemma datum_neg (x : Fp f) : ({ x with sign := !x.sign } : Fp f).datum = x.datum.neg := by
  simp only [Fp.datum]
  split_ifs <;> rfl

lemma number_pos {m : ℕ} {e : ℤ} {a : ℚ} (hm : Normal f m) (ha : a = m * ulp f.mbits e) :
    0 < a := by
  rw [ha]
  exact mul_pos (Nat.cast_pos.2 ((Nat.two_pow_pos _).trans_le hm.1)) (ulp_pos _ _)

lemma datum_eq_nan_iff : x.datum = .nan ↔ (explode x).1 = .snan ∨ (explode x).1 = .qnan := by
  cases operand_cases x with
  | nan hc h => simp [hc, h]
  | inf hc h => simp [hc, h]
  | zero hc h => simp [hc, h]
  | number m e a hc _ _ _ h => rcases hc with hc | hc <;> simp [hc, h]

lemma datum_of_class_inf (hx : (explode x).1 = .inf) : x.datum = .inf x.sign := by
  cases operand_cases x with
  | nan hc _ => simp [hx] at hc
  | inf _ h => exact h
  | zero hc _ => simp [hx] at hc
  | number m e a hc => simp [hx] at hc

/-! ## The operations -/

section Operations

variable (hx : x.datum ≠ .nan) (hy : y.datum ≠ .nan)
include hx hy

/-- **Addition** follows its table. -/
lemma add_computes (hnod : csr.nod = false) :
    Computes csr.rm (add csr x y) (addTable csr.rm x.datum y.datum) := by
  cases operand_cases x with
  | nan _ h => exact absurd h hx
  | inf hxc hxd =>
    cases operand_cases y with
    | nan _ h => exact absurd h hy
    | inf hyc hyd =>
      simp only [add, nanResult, hxc, hyc, hxd, hyd, addTable]
      split_ifs with hs
      · exact ⟨hxd, exact_clear⟩
      · exact computes_nan
    | zero hyc hyd =>
      simp only [add, nanResult, hxc, hyc, hxd, hyd]
      exact ⟨hxd, exact_clear⟩
    | number m e b hyc hyo hm hb hyd =>
      rcases hyc with hyc | hyc <;> simp only [add, nanResult, hxc, hyc, hxd, hyd] <;>
        exact ⟨hxd, exact_clear⟩
  | zero hxc hxd =>
    cases operand_cases y with
    | nan _ h => exact absurd h hy
    | inf hyc hyd =>
      simp only [add, nanResult, hxc, hyc, hxd, hyd]
      exact ⟨hyd, exact_clear⟩
    | zero hyc hyd =>
      simp only [add, nanResult, hxc, hyc, hxd, hyd]
      split_ifs with hs
      · rw [hs, addTable_zeros]
        exact ⟨hs ▸ hxd, exact_clear⟩
      · rw [addTable_cancel hs]
        exact computes_zero
    | number m e b hyc hyo hm hb hyd =>
      have hpos := number_pos hm hb
      rw [hxd, hyd, addTable_zero hpos]
      rcases hyc with hyc | hyc <;> simp only [add, nanResult, hxc, hyc] <;>
        exact computes_self _ hyd hpos exact_clear
  | number m e a hxc hxo hm ha hxd =>
    have hpos := number_pos hm ha
    cases operand_cases y with
    | nan _ h => exact absurd h hy
    | inf hyc hyd =>
      rcases hxc with hxc | hxc <;> simp only [add, nanResult, hxc, hyc, hxd, hyd] <;>
        exact ⟨hyd, exact_clear⟩
    | zero hyc hyd =>
      rw [hxd, hyd, addTable_comm, addTable_zero hpos]
      rcases hxc with hxc | hxc <;> simp only [add, nanResult, hxc, hyc] <;>
        exact computes_self _ hxd hpos exact_clear
    | number m' e' b hyc hyo hm' hb hyd =>
      rw [hxd, hyd]
      have hcall : add csr x y = addNumbers csr.clearCx x.sign y.sign (operand x) (operand y) := by
        rcases hxc with hxc | hxc <;> rcases hyc with hyc | hyc <;>
          simp only [add, nanResult, hxc, hyc]
      rw [hcall, hxo, hyo]
      change Computes csr.clearCx.rm _ (addTable csr.clearCx.rm _ _)
      exact addNumbers_computes ⟨hnod, rfl⟩ hm hm' ha hb

/-- `x - y` is `x + (-y)`, except that an infinite `-y` is built anew. -/
lemma sub_eq :
    (sub csr x y).1.datum = (add csr x { y with sign := !y.sign }).1.datum ∧
      (sub csr x y).2 = (add csr x { y with sign := !y.sign }).2 := by
  have hclass : (explode ({ y with sign := !y.sign } : Fp f)).1 = (explode y).1 := rfl
  have hinf (hyc : (explode y).1 = .inf) :
      (Fp.inf (!y.sign) : Fp f).datum = ({ y with sign := !y.sign } : Fp f).datum := by
    rw [datum_inf, datum_neg, datum_of_class_inf hyc, Datum.neg]
  rw [ne_eq, datum_eq_nan_iff, not_or] at hx hy
  cases hxc : (explode x).1 <;> cases hyc : (explode y).1 <;> constructor <;>
    simp only [sub, add, nanResult, hclass, hxc, hyc, Bool.eq_not] <;>
    first
    | rfl
    | exact hinf hyc
    | exact absurd hxc hx.1
    | exact absurd hxc hx.2
    | exact absurd hyc hy.1
    | exact absurd hyc hy.2

/-- **Subtraction** follows its table. -/
lemma sub_computes (hnod : csr.nod = false) :
    Computes csr.rm (sub csr x y) (subTable csr.rm x.datum y.datum) := by
  have hneg := datum_neg y
  have hne : ({ y with sign := !y.sign } : Fp f).datum ≠ .nan := by
    cases hyd : y.datum <;> simp_all [Datum.neg]
  unfold Computes
  rw [subTable, ← hneg, (sub_eq hx hy).1, (sub_eq hx hy).2]
  exact add_computes hx hne hnod

/-- **Multiplication** follows its table. -/
lemma mul_computes (hnod : csr.nod = false) :
    Computes csr.rm (mul csr x y) (mulTable x.datum y.datum) := by
  cases operand_cases x with
  | nan _ h => exact absurd h hx
  | inf hxc hxd =>
    cases operand_cases y with
    | nan _ h => exact absurd h hy
    | inf hyc hyd =>
      simp only [mul, nanResult, hxc, hyc, hxd, hyd]
      exact computes_inf
    | zero hyc hyd =>
      simp only [mul, nanResult, hxc, hyc, hxd, hyd]
      exact computes_nan
    | number m e b hyc hyo hm hb hyd =>
      have hpos := number_pos hm hb
      rcases hyc with hyc | hyc <;>
        simp only [mul, nanResult, hxc, hyc, hxd, hyd, mulTable, if_neg hpos.ne'] <;>
        exact computes_inf
  | zero hxc hxd =>
    cases operand_cases y with
    | nan _ h => exact absurd h hy
    | inf hyc hyd =>
      simp only [mul, nanResult, hxc, hyc, hxd, hyd]
      exact computes_nan
    | zero hyc hyd =>
      simp only [mul, nanResult, hxc, hyc, hxd, hyd, mulTable, zero_mul]
      exact computes_zero
    | number m e b hyc hyo hm hb hyd =>
      rcases hyc with hyc | hyc <;>
        simp only [mul, nanResult, hxc, hyc, hxd, hyd, mulTable, zero_mul] <;>
        exact computes_zero
  | number m e a hxc hxo hm ha hxd =>
    have hpos := number_pos hm ha
    cases operand_cases y with
    | nan _ h => exact absurd h hy
    | inf hyc hyd =>
      rcases hxc with hxc | hxc <;>
        simp only [mul, nanResult, hxc, hyc, hxd, hyd, mulTable, if_neg hpos.ne'] <;>
        exact computes_inf
    | zero hyc hyd =>
      rcases hxc with hxc | hxc <;>
        simp only [mul, nanResult, hxc, hyc, hxd, hyd, mulTable, mul_zero] <;>
        exact computes_zero
    | number m' e' b hyc hyo hm' hb hyd =>
      have hpos' := number_pos hm' hb
      rw [hxd, hyd, mulTable, if_neg (mul_pos hpos hpos').ne']
      have hcall : mul csr x y = mulNumbers csr.clearCx (x.sign ^^ y.sign) (operand x) (operand y) := by
        rcases hxc with hxc | hxc <;> rcases hyc with hyc | hyc <;>
          simp only [mul, nanResult, hxc, hyc]
      rw [hcall, hxo, hyo]
      change Computes csr.clearCx.rm _ _
      exact mulNumbers_computes ⟨hnod, rfl⟩ hm hm' ha hb

/-- **Division** follows its table. -/
lemma div_computes (hnod : csr.nod = false) :
    Computes csr.rm (div csr x y) (divTable x.datum y.datum) := by
  have hxor : (if x.sign = y.sign then false else true) = (x.sign ^^ y.sign) := by
    cases x.sign <;> cases y.sign <;> rfl
  cases operand_cases x with
  | nan _ h => exact absurd h hx
  | inf hxc hxd =>
    cases operand_cases y with
    | nan _ h => exact absurd h hy
    | inf hyc hyd =>
      simp only [div, nanResult, hxc, hyc, hxd, hyd]
      exact computes_nan
    | zero hyc hyd =>
      simp only [div, nanResult, hxc, hyc, hxd, hyd]
      exact computes_inf
    | number m e b hyc hyo hm hb hyd =>
      rcases hyc with hyc | hyc <;>
        simp only [div, nanResult, hxc, hyc, hxd, hyd] <;> exact computes_inf
  | zero hxc hxd =>
    cases operand_cases y with
    | nan _ h => exact absurd h hy
    | inf hyc hyd =>
      simp only [div, nanResult, hxc, hyc, hxd, hyd]
      exact computes_zero
    | zero hyc hyd =>
      simp only [div, nanResult, hxc, hyc, hxd, hyd]
      exact computes_nan
    | number m e b hyc hyo hm hb hyd =>
      have hpos := number_pos hm hb
      rcases hyc with hyc | hyc <;>
        simp only [div, nanResult, hxc, hyc, hxd, hyd, divTable, if_neg hpos.ne', hxor] <;>
        exact computes_zero
  | number m e a hxc hxo hm ha hxd =>
    have hpos := number_pos hm ha
    cases operand_cases y with
    | nan _ h => exact absurd h hy
    | inf hyc hyd =>
      rcases hxc with hxc | hxc <;>
        simp only [div, nanResult, hxc, hyc, hxd, hyd] <;> exact computes_zero
    | zero hyc hyd =>
      rcases hxc with hxc | hxc <;>
        simp only [div, nanResult, hxc, hyc, hxd, hyd, divTable, if_neg hpos.ne'] <;>
        exact ⟨datum_inf _, exact_setCx (.inr rfl)⟩
    | number m' e' b hyc hyo hm' hb hyd =>
      have hpos' := number_pos hm' hb
      rw [hxd, hyd, divTable, if_neg hpos'.ne', if_neg hpos.ne']
      have hcall : div csr x y =
          divNumbers csr.clearCx (x.sign ^^ y.sign) (operand x) (operand y) := by
        rcases hxc with hxc | hxc <;> rcases hyc with hyc | hyc <;>
          simp only [div, nanResult, hxc, hyc, hxor]
      rw [hcall, hxo, hyo]
      change Computes csr.clearCx.rm _ _
      exact divNumbers_computes ⟨hnod, rfl⟩ hm hm' ha hb

end Operations

/-- **Soft-float arithmetic is correctly rounded**, in both precisions and all rounding modes. -/
theorem arith_correctly_rounded (csr : Csr) (hnod : csr.nod = false) :
    (∀ x y : Fp dp, x.datum ≠ .nan → y.datum ≠ .nan →
      (ieee754dpAdd csr x y).1.Meets csr.rm (addTable csr.rm x.datum y.datum) ∧
      (ieee754dpSub csr x y).1.Meets csr.rm (subTable csr.rm x.datum y.datum) ∧
      (ieee754dpMul csr x y).1.Meets csr.rm (mulTable x.datum y.datum) ∧
      (ieee754dpDiv csr x y).1.Meets csr.rm (divTable x.datum y.datum)) ∧
    (∀ x y : Fp sp, x.datum ≠ .nan → y.datum ≠ .nan →
      (ieee754spAdd csr x y).1.Meets csr.rm (addTable csr.rm x.datum y.datum) ∧
      (ieee754spSub csr x y).1.Meets csr.rm (subTable csr.rm x.datum y.datum) ∧
      (ieee754spMul csr x y).1.Meets csr.rm (mulTable x.datum y.datum) ∧
      (ieee754spDiv csr x y).1.Meets csr.rm (divTable x.datum y.datum)) :=
  ⟨fun _ _ hx hy => ⟨(add_computes hx hy hnod).meets, (sub_computes hx hy hnod).meets,
      (mul_computes hx hy hnod).meets, (div_computes hx hy hnod).meets⟩,
    fun _ _ hx hy => ⟨(add_computes hx hy hnod).meets, (sub_computes hx hy hnod).meets,
      (mul_computes hx hy hnod).meets, (div_computes hx hy hnod).meets⟩⟩

/-- One plus half of its last place, to even. -/
theorem arith_correctly_rounded_tie :
    (build false 1023 0 : Fp dp).datum ≠ .nan ∧ (build false 970 0 : Fp dp).datum ≠ .nan ∧
      (ieee754dpAdd .boot (build false 1023 0) (build false 970 0)).1 = build false 1023 0 ∧
      (ieee754dpAdd .boot (build false 1023 0) (build false 970 0)).1.Meets .rn
        (addTable .rn (build false 1023 0 : Fp dp).datum (build false 970 0 : Fp dp).datum) := by
  have hone : (build false 1023 0 : Fp dp).datum ≠ .nan := mt datum_eq_nan_iff.1 (by decide +kernel)
  have hhalf : (build false 970 0 : Fp dp).datum ≠ .nan := mt datum_eq_nan_iff.1 (by decide +kernel)
  exact ⟨hone, hhalf, by decide +kernel, ((arith_correctly_rounded .boot rfl).1 _ _ hone hhalf).1⟩

end PsxLinux.MathEmu
