import PsxLinux.MathEmu.FormatTheorems

/-!
# Addition and subtraction are correctly rounded

The operands are aligned with a sticky shift, so sum and difference are right at every even number
(`Sticky 2`). A difference loses more than one leading bit only if the shift was by at most one
place, and then nothing was lost in it.
-/

namespace PsxLinux.MathEmu

open Lib

variable {f : Format} {csr : Csr} {xs ys sn : Bool} {e xe ye : ℤ} {m xm ym : ℕ} {u v a b : ℚ}

/-! ## Operands -/

def Normal (f : Format) (m : ℕ) : Prop := 2 ^ f.mbits ≤ m ∧ m < 2 ^ (f.mbits + 1)

/-- What `EXPLODEDP` and `DPDNORMX` make of a bit pattern. -/
inductive Operand (x : Fp f) : Prop
  | nan (hclass : (explode x).1 = .snan ∨ (explode x).1 = .qnan) (hdatum : x.datum = .nan)
  | inf (hclass : (explode x).1 = .inf) (hdatum : x.datum = .inf x.sign)
  | zero (hclass : (explode x).1 = .zero) (hdatum : x.datum = .finite x.sign 0)
  | number (m : ℕ) (e : ℤ) (mag : ℚ) (hclass : (explode x).1 = .norm ∨ (explode x).1 = .dnorm)
      (hoperand : operand x = (m, e)) (hnormal : Normal f m) (hmag : mag = m * ulp f.mbits e)
      (hdatum : x.datum = .finite x.sign mag)

lemma or_hiddenBit (hm : m < 2 ^ f.mbits) : m ||| hiddenBit f = 2 ^ f.mbits + m := by
  have hadd := Nat.two_pow_add_eq_or_of_lt hm 1
  rw [mul_one] at hadd
  rw [hiddenBit, mbit, Nat.or_comm, ← hadd]

/-- Normalising a mantissa keeps the number that it stands for. -/
lemma normalize_normal (hpos : 0 < m) (hm : m < 2 ^ (f.mbits + 1)) (e : ℤ) :
    ∃ j ≤ f.mbits, normalize f f.mbits m e = (2 ^ j * m, e - j) ∧ Normal f (2 ^ j * m) ∧
      ((2 ^ j * m : ℕ) : ℚ) * ulp f.mbits (e - j) = m * ulp f.mbits e := by
  have hword := f.word_large
  obtain ⟨j, heq, hlow, hhigh⟩ := normalize_eq (f := f) (by omega) hpos hm
  refine ⟨j, ?_, heq, ⟨hlow, hhigh⟩, ?_⟩
  · have hlt : 2 ^ j < 2 ^ (f.mbits + 1) := (Nat.le_mul_of_pos_right _ hpos).trans_lt hhigh
    exact Nat.lt_succ_iff.1 ((Nat.pow_lt_pow_iff_right one_lt_two).1 hlt)
  · rw [← ulp_sub f.mbits j e]
    push_cast
    ring

lemma operand_cases (x : Fp f) : Operand x := by
  have hmin := f.emin_eq
  have hbias := f.ebias_eq
  have hmant := x.mant.isLt
  have hzero : (x.bexp.toNat : ℤ) = f.emin - 1 + f.ebias ↔ x.bexp.toNat = 0 := by omega
  by_cases hexp : x.bexp.toNat = f.emax + 1 + f.ebias
  · have hclass : (explode x).1 = if x.mant.toNat = 0 then .inf
        else if x.mant.getLsbD (f.mbits - 1) then .qnan else .snan := by
      simp only [explode, if_pos hexp]
    by_cases hm : x.mant.toNat = 0
    · exact .inf (by rw [hclass, if_pos hm]) (by rw [Fp.datum, if_pos hexp, if_pos hm])
    · refine .nan ?_ (by rw [Fp.datum, if_pos hexp, if_neg hm])
      rw [hclass]
      split_ifs
      · exact .inr rfl
      · exact .inl rfl
  · by_cases hden : x.bexp.toNat = 0
    · by_cases hm : x.mant.toNat = 0
      · refine .zero ?_ ?_
        · simp only [explode, if_neg hexp, if_pos (hzero.2 hden), hm, ne_eq, not_true_eq_false,
            if_false]
        · rw [Fp.datum, if_neg hexp, if_pos hden, hm, Nat.cast_zero, zero_mul]
      · have hexplode : explode x = (.dnorm, f.emin, x.mant.toNat) := by
          simp only [explode, if_neg hexp, if_pos (hzero.2 hden), ne_eq, hm, not_false_eq_true,
            if_true]
        obtain ⟨j, -, heq, hnormal, hvalue⟩ := normalize_normal (Nat.pos_of_ne_zero hm)
          (hmant.trans (Nat.pow_lt_pow_right one_lt_two f.mbits.lt_succ_self)) f.emin
        refine .number (2 ^ j * x.mant.toNat) (f.emin - j) _ (.inr (by rw [hexplode])) ?_
          hnormal rfl ?_
        · simp only [operand, hexplode, heq]
        · rw [Fp.datum, if_neg hexp, if_pos hden, hvalue]
    · have hexplode : explode x =
          (.norm, x.bexp.toNat - f.ebias, x.mant.toNat ||| hiddenBit f) := by
        simp only [explode, if_neg hexp, if_neg (mt hzero.1 hden)]
      refine .number (2 ^ f.mbits + x.mant.toNat) (x.bexp.toNat - f.ebias) _
        (.inl (by rw [hexplode])) ?_ ⟨by omega, by rw [pow_succ]; omega⟩ rfl ?_
      · simp only [operand, hexplode, or_hiddenBit hmant]
      · rw [Fp.datum, if_neg hexp, if_neg hden]

/-! ## Aligned mantissas -/

lemma xsrs1_eq_jam (v : ℕ) : xsrs1 v = jam v 1 := by
  rw [xsrs1, jam]
  rcases Nat.mod_two_eq_zero_or_one v with h | h <;> simp [h]

/-- Equal signs: on a carry the lowest bit goes into the sticky bit. -/
lemma addAligned_same {A B : ℕ} {c : ℚ} (hcsr : csr.Clear)
    (hlow : 2 ^ (f.mbits + 3) ≤ A + B) (hhigh : A + B < 2 ^ (f.mbits + 5))
    (hsticky : Sticky 2 (A + B) v) (hc : c = v * ulp (f.mbits + 3) e) (hcpos : 0 < c) :
    Computes csr.rm (addAligned csr xs xs e A B : Fp f × Csr) (.rounded (signed xs c)) := by
  have hne := (ulp_pos (f.mbits + 3) e).ne'
  have hpow' : 2 ^ (f.mbits + 5) = 2 ^ (f.mbits + 4) * 2 ^ 1 := by ring
  have hcarry : (A + B) >>> (f.mbits + 1 + 3) ≠ 0 ↔ 2 ^ (f.mbits + 4) ≤ A + B := by
    rw [Nat.shiftRight_eq_div_pow, Nat.div_ne_zero_iff, show f.mbits + 1 + 3 = f.mbits + 4 by ring]
    omega
  simp only [addAligned, if_true]
  split_ifs with h
  · have hsum := hcarry.1 h
    rw [xsrs1_eq_jam]
    have heven : ∀ n, 2 ∣ 2 ^ (n + 1) := fun n => dvd_pow_self 2 n.succ_ne_zero
    refine format_computes hcsr ?_ ?_ hcpos (Sticky.mono ?_ (by decide : 2 ∣ 4))
    · rw [← not_lt, jam_lt_iff (heven _), not_lt]
      exact hsum
    · rw [jam_lt_iff (heven _)]
      exact hhigh
    · have hval : c / ulp (f.mbits + 3) (e + 1) = v / 2 ^ 1 := by
        rw [hc, show e + 1 = e + (1 : ℕ) from rfl, ulp_add]
        field_simp
      rw [hval]
      exact hsticky.jam (by decide)
  · refine format_computes hcsr hlow (not_le.1 (mt hcarry.2 h)) hcpos ?_
    rw [hc, mul_div_cancel_right₀ _ hne]
    exact hsticky.mono (by decide)

lemma addAligned_diff {A B : ℕ} {c : ℚ} (hcsr : csr.Clear) (hsigns : xs ≠ ys) (hlt : B < A)
    (hhigh : A < 2 ^ (f.mbits + 4))
    (hv : ((A - B : ℕ) : ℚ) = v ∨ (Sticky 2 (A - B) v ∧ 2 ^ (f.mbits + 2) ≤ A - B))
    (hc : c = v * ulp (f.mbits + 3) e) (hcpos : 0 < c) :
    Computes csr.rm (addAligned csr xs ys e A B : Fp f × Csr) (.rounded (signed xs c)) := by
  simp only [addAligned, if_neg hsigns, if_pos hlt.le, if_neg (Nat.sub_ne_zero_of_lt hlt)]
  exact format_normalize_computes hcsr (mbits_lt_wordBits f) (Nat.sub_pos_of_lt hlt) (by omega) hv hc hcpos

/-- Equal magnitudes of unlike sign: the sign of zero is the rounding mode's. -/
lemma addAligned_cancel {A : ℕ} (hcsr : csr.Clear) (hsigns : xs ≠ ys) :
    Computes csr.rm (addAligned csr xs ys e A A : Fp f × Csr) (.zero (csr.rm = .rd)) := by
  simp only [addAligned, if_neg hsigns, Nat.sub_self, le_refl, if_true]
  exact ⟨datum_zero _, by simp only [hcsr.cx]; decide⟩

lemma addAligned_comm (A B : ℕ) :
    (addAligned csr xs ys e A B : Fp f × Csr) = addAligned csr ys xs e B A := by
  by_cases hsigns : xs = ys
  · subst hsigns
    simp only [addAligned, if_true, Nat.add_comm A B]
  · simp only [addAligned, if_neg hsigns, if_neg (Ne.symm hsigns)]
    rcases Nat.lt_trichotomy A B with h | rfl | h
    · rw [if_neg (Nat.not_le.2 h), if_pos h.le]
    · simp
    · rw [if_pos h.le, if_neg (Nat.not_le.2 h)]

/-! ## Two numbers -/

lemma shl_three (hm : Normal f m) : shl f m 3 = 8 * m := by
  have hword := f.word_large
  refine shl_of_lt (by omega) (hm.2.trans_le (Nat.pow_le_pow_right two_pos ?_))
  omega

lemma addNumbers_comm (x y : ℕ × ℤ) :
    (addNumbers csr xs ys x y : Fp f × Csr) = addNumbers csr ys xs y x := by
  obtain ⟨xm, xe⟩ := x
  obtain ⟨ym, ye⟩ := y
  simp only [addNumbers]
  rcases lt_trichotomy xe ye with h | rfl | h
  · rw [if_neg (not_lt.2 h.le), if_pos h, if_pos h, addAligned_comm]
  · rw [if_neg (lt_irrefl xe), if_neg (lt_irrefl xe), if_neg (lt_irrefl xe), if_neg (lt_irrefl xe),
      addAligned_comm]
  · rw [if_pos h, if_neg (not_lt.2 h.le), if_pos h, addAligned_comm]

/-- A mantissa in units of its own last extra bit. -/
lemma mul_ulp_eq (f : Format) (m : ℕ) (e : ℤ) :
    (m : ℚ) * ulp f.mbits e = (8 * m : ℕ) * ulp (f.mbits + 3) e := by
  rw [ulp_extra f.mbits 3 e]
  push_cast
  ring

/-- What is left of a mantissa that is shifted to a larger exponent. -/
lemma shifted_spec (hm : Normal f m) (s : ℕ) (e : ℤ) :
    ∃ w : ℚ, 0 < w ∧ (m : ℚ) * ulp f.mbits e = w * ulp (f.mbits + 3) (e + (s + 1 : ℕ)) ∧
      Sticky 2 (jam (8 * m) (s + 1)) w ∧ jam (8 * m) (s + 1) < 2 ^ (f.mbits + 3) ∧
      (((jam (8 * m) (s + 1) : ℕ) : ℚ) = w ∨ jam (8 * m) (s + 1) < 2 ^ (f.mbits + 2)) := by
  obtain ⟨hlow, hhigh⟩ := hm
  have heven : ∀ n, 2 ∣ 2 ^ (n + 1) := fun n => dvd_pow_self 2 n.succ_ne_zero
  have hlt : 8 * m < 2 ^ (f.mbits + 3) * 2 ^ 1 := by
    calc 8 * m < 8 * 2 ^ (f.mbits + 1) := by omega
      _ = 2 ^ (f.mbits + 3) * 2 ^ 1 := by ring
  refine ⟨(8 * m : ℕ) / 2 ^ (s + 1), div_pos (Nat.cast_pos.2 (by omega)) (by positivity), ?_,
    (sticky_self 1 (8 * m)).jam (one_dvd _), ?_, ?_⟩
  · rw [mul_ulp_eq, ulp_add]
    field_simp
  · rw [jam_lt_iff (heven _)]
    exact hlt.trans_le (Nat.mul_le_mul_left _ (Nat.pow_le_pow_right two_pos (by omega)))
  · rcases Nat.eq_zero_or_pos s with rfl | hs
    · -- nothing is lost in a shift by one place
      left
      rw [jam_of_dvd (by omega), show 8 * m / 2 ^ (0 + 1) = 4 * m by omega]
      push_cast
      ring
    · right
      rw [jam_lt_iff (heven _)]
      calc 8 * m < 2 ^ (f.mbits + 3) * 2 ^ 1 := hlt
        _ = 2 ^ (f.mbits + 2) * 2 ^ 2 := by ring
        _ ≤ 2 ^ (f.mbits + 2) * 2 ^ (s + 1) :=
          Nat.mul_le_mul_left _ (Nat.pow_le_pow_right two_pos (by omega))

section

variable (hcsr : csr.Clear) (hx : Normal f xm) (hy : Normal f ym) (ha : a = xm * ulp f.mbits xe)
include hcsr hx hy ha

lemma addNumbers_computes_of_lt (hlt : ye < xe) (hb : b = ym * ulp f.mbits ye) :
    Computes csr.rm (addNumbers csr xs ys (xm, xe) (ym, ye) : Fp f × Csr)
      (addTable csr.rm (.finite xs a) (.finite ys b)) := by
  obtain ⟨s, hs⟩ := Int.le.dest (Int.add_one_le_iff.2 hlt)
  have hshift : (xe - ye).toNat = s + 1 := by omega
  have hupos := ulp_pos (f.mbits + 3) xe
  have hpow₂ : 2 ^ (f.mbits + 2) = 4 * 2 ^ f.mbits := by ring
  have hpow₃ : 2 ^ (f.mbits + 3) = 8 * 2 ^ f.mbits := by ring
  have hpow₄ : 2 ^ (f.mbits + 4) = 16 * 2 ^ f.mbits := by ring
  have hpow₅ : 2 ^ (f.mbits + 5) = 32 * 2 ^ f.mbits := by ring
  obtain ⟨w, hwpos, hw, hsticky, hsmall, hexact⟩ := shifted_spec hy s ye
  rw [mul_ulp_eq] at ha
  rw [hw, show ye + (s + 1 : ℕ) = xe by omega] at hb
  have hypos : 0 < 8 * ym := by
    have := hy.1
    omega
  have hyhigh : 8 * ym < 2 ^ (f.mbits + 4) := by
    have := hy.2
    omega
  simp only [addNumbers, if_pos hlt, shl_three hx, shl_three hy, hshift, xsrs_eq_jam hypos hyhigh]
  obtain ⟨hx₁, hx₂⟩ := hx
  have hwlt : w < (8 * xm : ℕ) := (hsticky (8 * xm) (by omega)).1.1 (by omega)
  have hbpos : 0 < b := hb ▸ mul_pos hwpos hupos
  have hba : b < a := by
    rw [ha, hb]
    exact mul_lt_mul_of_pos_right hwlt hupos
  by_cases hsigns : xs = ys
  · subst hsigns
    rw [addTable_same (hbpos.trans hba) hbpos]
    refine addAligned_same hcsr (by omega) (by omega) (hsticky.add hwpos.le (by omega)) ?_
      (add_pos (hbpos.trans hba) hbpos)
    rw [ha, hb]
    ring
  · rw [addTable_diff hsigns hba]
    refine addAligned_diff hcsr hsigns (by omega) (by omega) (v := (8 * xm : ℕ) - w) ?_ ?_
      (sub_pos.2 hba)
    · refine hexact.imp (fun h => ?_) fun h => ⟨hsticky.sub hwpos.le (by omega) (by omega), ?_⟩
      · rw [Nat.cast_sub (by omega), h]
      · omega
    · rw [ha, hb]
      ring

lemma addNumbers_computes_of_eq (hle : ym ≤ xm) (hb : b = ym * ulp f.mbits xe) :
    Computes csr.rm (addNumbers csr xs ys (xm, xe) (ym, xe) : Fp f × Csr)
      (addTable csr.rm (.finite xs a) (.finite ys b)) := by
  have hupos := ulp_pos (f.mbits + 3) xe
  have hpow₃ : 2 ^ (f.mbits + 3) = 8 * 2 ^ f.mbits := by ring
  have hpow₄ : 2 ^ (f.mbits + 4) = 16 * 2 ^ f.mbits := by ring
  have hpow₅ : 2 ^ (f.mbits + 5) = 32 * 2 ^ f.mbits := by ring
  rw [mul_ulp_eq] at ha hb
  simp only [addNumbers, lt_irrefl, shl_three hx, shl_three hy]
  obtain ⟨hx₁, hx₂⟩ := hx
  obtain ⟨hy₁, hy₂⟩ := hy
  have hapos : 0 < a := ha ▸ mul_pos (Nat.cast_pos.2 (by omega)) hupos
  have hbpos : 0 < b := hb ▸ mul_pos (Nat.cast_pos.2 (by omega)) hupos
  by_cases hsigns : xs = ys
  · subst hsigns
    rw [addTable_same hapos hbpos]
    refine addAligned_same hcsr (by omega) (by omega) (sticky_self 2 _) ?_ (add_pos hapos hbpos)
    rw [ha, hb]
    push_cast
    ring
  · rcases hle.lt_or_eq with hlt | rfl
    · have hba : b < a := by
        rw [ha, hb]
        exact mul_lt_mul_of_pos_right (Nat.cast_lt.2 (by omega)) hupos
      rw [addTable_diff hsigns hba]
      refine addAligned_diff hcsr hsigns (by omega) (by omega) (.inl rfl) ?_ (sub_pos.2 hba)
      rw [ha, hb, Nat.cast_sub (by omega)]
      ring
    · rw [ha, hb, addTable_cancel hsigns]
      exact addAligned_cancel hcsr hsigns

/-- **The sum of two numbers.** -/
theorem addNumbers_computes (hb : b = ym * ulp f.mbits ye) :
    Computes csr.rm (addNumbers csr xs ys (xm, xe) (ym, ye) : Fp f × Csr)
      (addTable csr.rm (.finite xs a) (.finite ys b)) := by
  rcases lt_trichotomy xe ye with h | rfl | h
  · rw [addNumbers_comm, addTable_comm]
    exact addNumbers_computes_of_lt hcsr hy hx hb h ha
  · rcases Nat.le_total ym xm with hle | hle
    · exact addNumbers_computes_of_eq hcsr hx hy ha hle hb
    · rw [addNumbers_comm, addTable_comm]
      exact addNumbers_computes_of_eq hcsr hy hx hb hle ha
  · exact addNumbers_computes_of_lt hcsr hx hy ha h hb

end

end PsxLinux.MathEmu
