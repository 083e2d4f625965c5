import PsxLinux.Lib.Rounding

/-!
# The results that IEEE 754 prescribes

What an operation on two floating-point data should give, from the exact rational result: the
tables for infinities, zeros and invalid operations, and rounding with overflow for the rest.
-/

namespace PsxLinux.Lib

inductive RoundingMode where
  | rn
  | rz
  | ru
  | rd
deriving DecidableEq, Repr

/-- The direction in which the magnitude of a number of this sign is rounded. -/
def RoundingMode.direction : RoundingMode → Bool → Direction
  | .rn, _ => .nearest
  | .rz, _ => .down
  | .ru, sign => if sign then .down else .up
  | .rd, sign => if sign then .up else .down

/-- What a bit pattern denotes; `true` is the minus sign. -/
inductive Datum where
  | nan
  | inf (sign : Bool)
  | finite (sign : Bool) (mag : ℚ)

/-- What an operation should give. -/
inductive Expected where
  | nan
  | inf (sign : Bool)
  | zero (sign : Bool)
  /-- the exact result, not zero, rounded -/
  | rounded (value : ℚ)

def signed (sign : Bool) (mag : ℚ) : ℚ := if sign then -mag else mag

lemma signed_neg_iff {s : Bool} {a : ℚ} (ha : 0 < a) : decide (signed s a < 0) = s := by
  cases s <;> simp [signed, ha, ha.le]

lemma abs_signed {s : Bool} {a : ℚ} (ha : 0 ≤ a) : |signed s a| = a := by
  cases s <;> simp [signed, abs_of_nonneg ha]

def largest (M : ℕ) (emax : ℤ) : ℚ := ((2 ^ (M + 1) - 1 : ℕ) : ℚ) * ulp M emax

/-- A number overflows exactly if its exponent does. -/
lemma le_largest_iff {M k : ℕ} {emin emax e : ℤ} (hk : k < 2 ^ (M + 1))
    (hlead : Leading M emin e k) (hmax : emin ≤ emax) : k * ulp M e ≤ largest M emax ↔ e ≤ emax := by
  have hpos := ulp_pos M emax
  rcases le_or_gt e emax with hle | hgt
  · refine iff_of_true ?_ hle
    obtain ⟨n, rfl⟩ := Int.le.dest hle
    have hulp : ulp M e ≤ ulp M (e + n) := by
      rw [ulp_add]
      exact le_mul_of_one_le_left (ulp_pos M e).le (one_le_pow₀ one_le_two)
    have hcast : (k : ℚ) ≤ ((2 ^ (M + 1) - 1 : ℕ) : ℚ) := Nat.cast_le.2 (by omega)
    exact mul_le_mul hcast hulp (ulp_pos M e).le (Nat.cast_nonneg _)
  · refine iff_of_false (not_le.2 ?_) (not_le.2 hgt)
    have hk' : 2 ^ M ≤ k := hlead.resolve_right (by omega)
    obtain ⟨n, rfl⟩ := Int.le.dest (Int.add_one_le_iff.2 hgt)
    have hstep : ulp M (emax + 1 + n) = 2 ^ (n + 1) * ulp M emax := by
      rw [ulp_add, show emax + 1 = emax + (1 : ℕ) from rfl, ulp_add]
      ring
    rw [hstep, ← mul_assoc]
    refine mul_lt_mul_of_pos_right ?_ hpos
    have hnat : 2 ^ (M + 1) - 1 < k * 2 ^ (n + 1) := by
      have hle : 2 ^ M * 2 ≤ k * 2 ^ (n + 1) :=
        Nat.mul_le_mul hk' (Nat.le_self_pow n.succ_ne_zero 2)
      omega
    exact_mod_cast hnat

/-- The datum is the expected one, in a format with exponents from `emin` to `emax`. A result that
exceeds the largest finite number after rounding overflows. -/
def Expected.Meets (M : ℕ) (emin emax : ℤ) (rm : RoundingMode) : Expected → Datum → Prop
  | .nan, d => d = .nan
  | .inf sign, d => d = .inf sign
  | .zero sign, d => d = .finite sign 0
  | .rounded value, d =>
    let sign := decide (value < 0)
    let dir := rm.direction sign
    ∃ q, RoundsTo M emin dir |value| q ∧
      d = if q ≤ largest M emax then .finite sign q
        else if dir = .down then .finite sign (largest M emax) else .inf sign

/-- A rounded magnitude with its sign, or what overflow makes of it. -/
def bounded (M : ℕ) (emax : ℤ) (dir : Direction) (sign : Bool) (q : ℚ) : Datum :=
  if q ≤ largest M emax then .finite sign q
  else if dir = .down then .finite sign (largest M emax) else .inf sign

/-- The same with two flags: one for a result that is not exact, one for overflow. -/
def Expected.Computed (M : ℕ) (emin emax : ℤ) (rm : RoundingMode) (d : Datum)
    (inexact overflow : Bool) : Expected → Prop
  | .rounded value =>
    let sign := decide (value < 0)
    let dir := rm.direction sign
    (inexact ↔ ¬ Representable M emin |value|) ∧
      ∃ q, RoundsTo M emin dir |value| q ∧ d = bounded M emax dir sign q ∧
        (overflow ↔ largest M emax < q)
  | expected => expected.Meets M emin emax rm d ∧ inexact = false ∧ overflow = false

/-- The order of the data; NaNs are not ordered. -/
def Datum.Le : Datum → Datum → Prop
  | .nan, _ => False
  | _, .nan => False
  | .inf s, .inf t => s ∨ t = false
  | .inf s, .finite _ _ => s
  | .finite _ _, .inf t => t = false
  | .finite s a, .finite t b => signed s a ≤ signed t b

section Bounded

variable {M : ℕ} {emin emax : ℤ} {dir dir' : Direction} {rm : RoundingMode} {s : Bool} {d : Datum}
variable {a p q : ℚ}

/-- A number is rounded as a magnitude, its sign apart. -/
lemma meets_rounded (ha : 0 < a) :
    (Expected.rounded (signed s a)).Meets M emin emax rm d ↔
      ∃ q, RoundsTo M emin (rm.direction s) a q ∧ d = bounded M emax (rm.direction s) s q := by
  simp only [Expected.Meets, signed_neg_iff ha, abs_signed ha.le, bounded]

lemma largest_pos (M : ℕ) (emax : ℤ) : 0 < largest M emax :=
  mul_pos (Nat.cast_pos.2 (Nat.sub_pos_of_lt (Nat.one_lt_two_pow (Nat.succ_ne_zero _))))
    (ulp_pos _ _)

lemma bounded_eq_zero_iff : bounded M emax dir s q = .finite s 0 ↔ q = 0 := by
  have hpos := largest_pos M emax
  rw [bounded]
  split_ifs with h₁ h₂
  · simp
  · simp only [Datum.finite.injEq]
    constructor <;> intro h <;> linarith
  · simp only [false_iff]
    intro h
    linarith

/-- What is negative is not above what is positive. -/
lemma bounded_neg_le (hp : 0 ≤ p) (hq : 0 ≤ q) :
    (bounded M emax dir true p).Le (bounded M emax dir' false q) := by
  have hpos := largest_pos M emax
  unfold bounded
  split_ifs <;> simp [Datum.Le, signed] <;> linarith

/-- Rounding into the range is monotone. -/
lemma bounded_le (h : p ≤ q) :
    (bounded M emax dir false p).Le (bounded M emax dir false q) ∧
      (bounded M emax dir true q).Le (bounded M emax dir true p) := by
  unfold bounded
  split_ifs <;> constructor <;> first | linarith | simp [Datum.Le, signed] <;> linarith

end Bounded

/-! ## The tables -/

def Datum.neg : Datum → Datum
  | .nan => .nan
  | .inf sign => .inf (!sign)
  | .finite sign mag => .finite (!sign) mag

/-- `x + y`. An exact zero keeps the sign that both operands have, and is otherwise negative only
when rounding down. -/
def addTable (rm : RoundingMode) : Datum → Datum → Expected
  | .nan, _ => .nan
  | _, .nan => .nan
  | .inf s, .inf t => if s = t then .inf s else .nan
  | .inf s, .finite _ _ => .inf s
  | .finite _ _, .inf t => .inf t
  | .finite s a, .finite t b =>
    if signed s a + signed t b ≠ 0 then .rounded (signed s a + signed t b)
    else if s = t then .zero s else .zero (rm = .rd)

section Sums

variable {rm : RoundingMode} {s t : Bool} {a b : ℚ}

lemma signed_ne_zero (s : Bool) (ha : 0 < a) : signed s a ≠ 0 := by
  cases s <;> simp [signed, ha.ne']

lemma addTable_comm : addTable rm (.finite s a) (.finite t b) =
    addTable rm (.finite t b) (.finite s a) := by
  simp only [addTable, add_comm (signed s a)]
  by_cases h : s = t
  · rw [h]
  · rw [if_neg h, if_neg (Ne.symm h)]

lemma addTable_zeros : addTable rm (.finite s 0) (.finite s 0) = .zero s := by
  cases s <;> simp [addTable, signed]

lemma addTable_zero (hb : 0 < b) :
    addTable rm (.finite s 0) (.finite t b) = .rounded (signed t b) := by
  have hzero : signed s 0 = 0 := by cases s <;> simp [signed]
  rw [addTable, hzero, zero_add, if_pos (signed_ne_zero t hb)]

/-- Numbers of one sign: the magnitudes add up. -/
lemma addTable_same (ha : 0 < a) (hb : 0 < b) :
    addTable rm (.finite s a) (.finite s b) = .rounded (signed s (a + b)) := by
  have hsum : signed s a + signed s b = signed s (a + b) := by
    cases s
    · rfl
    · exact (neg_add a b).symm
  rw [addTable, hsum, if_pos (signed_ne_zero s (add_pos ha hb))]

/-- Numbers of different signs: the greater one decides. -/
lemma addTable_diff (hst : s ≠ t) (hlt : b < a) :
    addTable rm (.finite s a) (.finite t b) = .rounded (signed s (a - b)) := by
  have hsum : signed s a + signed t b = signed s (a - b) := by
    cases s <;> cases t <;> first | exact absurd rfl hst | (simp only [signed]; simp; ring)
  rw [addTable, hsum, if_pos (signed_ne_zero s (sub_pos.2 hlt))]

/-- An exact zero is positive, except when rounding down. -/
lemma addTable_cancel (hst : s ≠ t) :
    addTable rm (.finite s a) (.finite t a) = .zero (rm = .rd) := by
  have hsum : signed s a + signed t a = 0 := by
    cases s <;> cases t <;> first | exact absurd rfl hst | simp [signed]
  rw [addTable, hsum, if_neg (not_not.2 rfl), if_neg hst]

end Sums

def subTable (rm : RoundingMode) (x y : Datum) : Expected := addTable rm x y.neg

/-- `x * y` -/
def mulTable : Datum → Datum → Expected
  | .nan, _ => .nan
  | _, .nan => .nan
  | .inf s, .inf t => .inf (s ^^ t)
  | .inf s, .finite t b => if b = 0 then .nan else .inf (s ^^ t)
  | .finite s a, .inf t => if a = 0 then .nan else .inf (s ^^ t)
  | .finite s a, .finite t b => if a * b = 0 then .zero (s ^^ t) else .rounded (signed (s ^^ t) (a * b))

/-- `x / y` -/
def divTable : Datum → Datum → Expected
  | .nan, _ => .nan
  | _, .nan => .nan
  | .inf _, .inf _ => .nan
  | .inf s, .finite t _ => .inf (s ^^ t)
  | .finite s _, .inf t => .zero (s ^^ t)
  | .finite s a, .finite t b =>
    if b = 0 then (if a = 0 then .nan else .inf (s ^^ t))
    else if a = 0 then .zero (s ^^ t) else .rounded (signed (s ^^ t) (a / b))

/-- A datum in another format. -/
def convertTable : Datum → Expected
  | .nan => .nan
  | .inf sign => .inf sign
  | .finite sign mag => if mag = 0 then .zero sign else .rounded (signed sign mag)

end PsxLinux.Lib
