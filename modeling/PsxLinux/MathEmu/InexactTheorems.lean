import PsxLinux.MathEmu.ArithTheorems

/-!
# The inexact flag

The library leaves `IEEE754_INEXACT` set exactly if the returned value is not the exact result,
unless the exact result has few enough bits and only its exponent is too large: then the guard bits
are zero, and the range check replaces the result without a flag of its own.
-/

namespace PsxLinux.MathEmu

open Lib

variable {f : Format} {csr : Csr} {rm : RoundingMode} {r : Fp f × Csr} {x y : Fp f} {v : ℚ}

def Fp.Denotes (x : Fp f) (v : ℚ) : Prop := ∃ s a, x.datum = .finite s a ∧ signed s a = v

/-- The flags that a result for the exact value `v` should leave: inexact if it is not `v`, and
also overflow if the rounded value is beyond the largest number. -/
def Flagged (rm : RoundingMode) (r : Fp f × Csr) (v : ℚ) : Prop :=
  (raised r.2.cx inexact ↔ ¬ r.1.Denotes v) ∧
    (v ≠ 0 → ∃ q, RoundsTo f.mbits f.emin (rm.direction (v < 0)) |v| q ∧
      r.1.datum = bounded f.mbits f.emax (rm.direction (v < 0)) (v < 0) q ∧
      (largest f.mbits f.emax < q → raised r.2.cx overflow ∧ raised r.2.cx inexact))

/-- A number with at most `mbits + 1` significant bits is not beyond the largest one. -/
def InRange (f : Format) (v : ℚ) : Prop :=
  Representable f.mbits f.emin |v| → |v| ≤ largest f.mbits f.emax

lemma signed_abs (v : ℚ) : signed (v < 0) |v| = v := by
  rcases lt_or_ge v 0 with h | h
  · simp [signed, h, abs_of_neg h]
  · simp [signed, not_lt.2 h, abs_of_nonneg h]

lemma flagged_rounded_iff (h : Computes rm r (.rounded v)) : Flagged rm r v ↔ InRange f v := by
  obtain ⟨hi, q, hq, hd, ho⟩ := h
  have heq : Representable f.mbits f.emin |v| → q = |v| := hq.eq_of_representable
  have hdenotes : r.1.Denotes v ↔
      Representable f.mbits f.emin |v| ∧ |v| ≤ largest f.mbits f.emax := by
    constructor
    · rintro ⟨s, a, ha, rfl⟩
      obtain ⟨hrep, hle⟩ := representable_of_datum ha
      rw [abs_signed hrep.nonneg]
      exact ⟨hrep, hle⟩
    · rintro ⟨hrep, hle⟩
      refine ⟨_, |v|, ?_, signed_abs v⟩
      rw [hd, heq hrep, bounded, if_pos hle]
  rw [Flagged, hi, hdenotes]
  constructor
  · rintro ⟨hflag, -⟩ hrep
    by_contra hbig
    exact hflag.2 (fun hboth => hbig hboth.2) hrep
  · intro hrange
    refine ⟨⟨fun hne hboth => hne hboth.1, fun hne hrep => hne ⟨hrep, hrange hrep⟩⟩,
      fun _ => ⟨q, hq, hd, fun hbig => ⟨ho.2 hbig, fun hrep => ?_⟩⟩⟩
    exact absurd (hrange hrep) (not_le.2 (heq hrep ▸ hbig))

/-- The tables ask for the rounded value, or for a zero. -/
lemma flagged_iff {expected : Expected} (h : Computes rm r expected)
    (hv : expected = .rounded v ∨ v = 0 ∧ ∃ s, expected = .zero s) :
    Flagged rm r v ↔ InRange f v := by
  obtain rfl | ⟨rfl, s, rfl⟩ := hv
  · exact flagged_rounded_iff h
  · obtain ⟨hd, hi, -⟩ := h
    refine iff_of_true ⟨?_, absurd rfl⟩ fun _ => ?_
    · rw [hi]
      exact iff_of_false Bool.false_ne_true (not_not.2 ⟨s, 0, hd, by cases s <;> simp [signed]⟩)
    · exact mul_nonneg (Nat.cast_nonneg _) (ulp_pos _ _).le

/-- **The inexact flag** of an operation on finite operands, in either precision, tells whether the
result is exact, except where a result that needs no rounding has too large an exponent. -/
theorem inexact_correct_iff (csr : Csr) (hnod : csr.nod = false) {x y : Fp f} {s t : Bool}
    {a b : ℚ} (hx : x.datum = .finite s a) (hy : y.datum = .finite t b) :
    (Flagged csr.rm (add csr x y) (signed s a + signed t b) ↔ InRange f (signed s a + signed t b)) ∧
    (Flagged csr.rm (sub csr x y) (signed s a - signed t b) ↔ InRange f (signed s a - signed t b)) ∧
    (Flagged csr.rm (mul csr x y) (signed s a * signed t b) ↔ InRange f (signed s a * signed t b)) ∧
    (b ≠ 0 → (Flagged csr.rm (div csr x y) (signed s a / signed t b) ↔
      InRange f (signed s a / signed t b))) := by
  have hxn : x.datum ≠ .nan := by simp [hx]
  have hyn : y.datum ≠ .nan := by simp [hy]
  have hsub : signed s a - signed t b = signed s a + signed (!t) b := by
    cases t <;> simp [signed, sub_eq_add_neg]
  have hmul : signed s a * signed t b = signed (s ^^ t) (a * b) := by
    cases s <;> cases t <;> simp [signed]
  have hdiv : signed s a / signed t b = signed (s ^^ t) (a / b) := by
    cases s <;> cases t <;> simp [signed, neg_div, div_neg]
  have hzero : ∀ s, signed s 0 = 0 := by simp [signed]
  refine ⟨flagged_iff (add_computes hxn hyn hnod) ?_, flagged_iff (sub_computes hxn hyn hnod) ?_,
    flagged_iff (mul_computes hxn hyn hnod) ?_, fun hb => flagged_iff (div_computes hxn hyn hnod) ?_⟩
  · rw [hx, hy, addTable]
    split_ifs <;> simp_all
  · rw [hx, hy, subTable, Datum.neg, addTable]
    split_ifs <;> simp_all
  · rw [hx, hy, hmul, mulTable]
    split_ifs with h
    · exact .inr ⟨by rw [h, hzero], _, rfl⟩
    · exact .inl rfl
  · rw [hx, hy, hdiv, divTable, if_neg hb]
    split_ifs with h
    · exact .inr ⟨by rw [h, zero_div, hzero], _, rfl⟩
    · exact .inl rfl

lemma datum_two_pow {n : ℕ} (hn : n ≤ 1023) :
    (build false (1023 + n) 0 : Fp dp).datum = .finite false (2 ^ n) := by
  have hnormal : (build false (n + dp.ebias) 0 : Fp dp).datum =
      .finite false ((2 ^ 52 + 0 : ℕ) * ulp 52 n) :=
    datum_normal (by decide) (show (-1022 : ℤ) ≤ n by omega) (show (n : ℤ) ≤ 1023 by omega)
  rw [show (n : ℤ) = 0 + n by omega, ulp_add] at hnormal
  rw [add_comm, show n + 1023 = 0 + n + dp.ebias by rw [zero_add]; rfl, hnormal]
  norm_num [ulp]
  ring

/-- One plus one is exact, and says so. -/
theorem inexact_correct_iff_one :
    (build false 1023 0 : Fp dp).datum = .finite false 1 ∧
      Flagged .rn (ieee754dpAdd .boot (build false 1023 0) (build false 1023 0)) 2 := by
  have hone : (build false 1023 0 : Fp dp).datum = .finite false 1 := datum_two_pow (n := 0) (by decide)
  have hiff := (inexact_correct_iff .boot rfl hone hone).1
  rw [show signed false 1 + signed false 1 = 2 by norm_num [signed]] at hiff
  refine ⟨hone, hiff.2 fun _ => ?_⟩
  exact (representable_of_datum (datum_two_pow (n := 1) (by decide))).2

/-- `2 ^ 1023 * 2` overflows, and is not said to be inexact. -/
theorem product_overflows_unflagged :
    (build false 2046 0 : Fp dp).datum = .finite false (2 ^ 1023) ∧
      (build false 1024 0 : Fp dp).datum = .finite false 2 ∧
      ¬ Flagged .rn (ieee754dpMul .boot (build false 2046 0) (build false 1024 0)) (2 ^ 1023 * 2) := by
  have hresult : (ieee754dpMul .boot (build false 2046 0) (build false 1024 0)).1 = Fp.inf false ∧
      raised (ieee754dpMul .boot (build false 2046 0) (build false 1024 0)).2.cx inexact = false := by
    decide +kernel
  refine ⟨datum_two_pow le_rfl, datum_two_pow (n := 1) (by decide), fun h => ?_⟩
  rw [Flagged, hresult.1] at h
  refine absurd (h.1.2 ?_) Bool.false_ne_true
  rintro ⟨s, a, hd, -⟩
  cases hd

end PsxLinux.MathEmu
