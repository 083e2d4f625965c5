import PsxLinux.MathEmu.ArithTheorems
import PsxLinux.MathEmu.Functions

/-!
# Conversions between the formats and from integers

Widening is exact and narrowing a widened number gives it back; an integer is shifted until it
fits, with a sticky bit, and correctly rounded (`conversions_correct`). Narrowing is monotone, and
correctly rounded but for denormal doubles, which leave `ieee754sp_fdp` as zeros in every mode
(`narrowing_correct_iff`).
-/

namespace PsxLinux.MathEmu

open Lib

variable {f g : Format} {csr : Csr} {sn s t : Bool} {m : ℕ} {e : ℤ} {a b : ℚ}

/-! ## Integers -/

lemma shuntLoop_sticky {k fuel : ℕ} {v : ℚ} (hk : k ≠ 0) (hm : m < 2 ^ (k + 1 + fuel))
    (hlow : 2 ^ k ≤ m) (hsticky : Sticky 2 m v) :
    ∃ j : ℕ, (shuntLoop (k + 1) fuel m e).2 = e + j ∧
      Sticky 2 (shuntLoop (k + 1) fuel m e).1 (v / 2 ^ j) ∧
      2 ^ k ≤ (shuntLoop (k + 1) fuel m e).1 ∧ (shuntLoop (k + 1) fuel m e).1 < 2 ^ (k + 1) := by
  induction fuel generalizing m e v with
  | zero => exact ⟨0, by simp [shuntLoop], by simpa [shuntLoop] using hsticky, hlow, hm⟩
  | succ fuel ih =>
    have hlarge : m >>> (k + 1) ≠ 0 ↔ 2 ^ k * 2 ^ 1 ≤ m := by
      rw [Nat.shiftRight_eq_div_pow, Nat.div_ne_zero_iff]
      exact and_iff_right (Nat.two_pow_pos _).ne'
    rw [shuntLoop]
    split_ifs with h
    · have hge : 2 ^ k ≤ jam m 1 := by
        rw [← not_lt, jam_lt_iff (dvd_pow_self 2 hk), not_lt]
        exact hlarge.1 h
      have hlt : jam m 1 < 2 ^ (k + 1 + fuel) := by
        rw [jam_lt_iff (dvd_pow_self 2 (by omega))]
        exact hm
      obtain ⟨j, hj, hjam, hbounds⟩ := ih hlt hge (hsticky.jam (by decide))
      rw [xsrs1_eq_jam]
      refine ⟨j + 1, ?_, ?_, hbounds⟩
      · rw [hj]
        push_cast
        ring
      · rwa [div_div, ← pow_add, Nat.add_comm 1 j] at hjam
    · refine ⟨0, by simp, by simpa using hsticky, hlow, ?_⟩
      exact not_le.1 (mt hlarge.2 h)

/-- An integer is shifted until it fits, and rounded. -/
lemma format_fit_computes {fuel : ℕ} (hcsr : csr.Clear) (hword : f.mbits + 3 + 1 ≤ g.wordBits)
    (hpos : 0 < m) (hm : m < 2 ^ (f.mbits + 3 + 1 + fuel)) :
    Computes csr.rm (match if m >>> (f.mbits + 1 + 3) ≠ 0
        then shuntLoop (f.mbits + 1 + 3) fuel m (f.mbits + 3)
        else normalize g (f.mbits + 3) m (f.mbits + 3) with
      | (xm, xe) => format csr sn xe xm : Fp f × Csr) (.rounded (signed sn m)) := by
  have hone : ulp (f.mbits + 3) (f.mbits + 3) = 1 := by simp [ulp]
  have hcast : (0 : ℚ) < m := Nat.cast_pos.2 hpos
  split_ifs with h
  · rw [Nat.shiftRight_eq_div_pow, Nat.div_ne_zero_iff] at h
    obtain ⟨j, hj, hsticky, hlow, hhigh⟩ := shuntLoop_sticky
      (Nat.succ_ne_zero _) hm ((Nat.pow_le_pow_right two_pos (Nat.le_succ _)).trans h.2)
      ((sticky_self 1 m).mono (by decide))
    refine format_computes hcsr hlow hhigh hcast ?_
    rw [hj, ulp_add, hone, mul_one]
    exact hsticky.mono (by decide)
  · rw [not_not, Nat.shiftRight_eq_div_pow, Nat.div_eq_zero_iff_lt (Nat.two_pow_pos _)] at h
    exact format_normalize_computes hcsr hword hpos h (.inl rfl) (by rw [hone, mul_one]) hcast

/-- What an integer denotes. -/
def intDatum (n : ℤ) : Datum := .finite (n < 0) |n|

lemma datum_one (sn : Bool) : (Fp.one sn : Fp f).datum = .finite sn 1 := by
  have hmin := f.emin_eq
  have hmax := f.emax_pos
  have h : (build sn (0 + f.ebias) 0 : Fp f).datum = _ :=
    datum_normal (Nat.two_pow_pos _) (by omega) hmax.le
  rw [zero_add] at h
  rw [Fp.one, h, ulp, zero_sub, zpow_neg, zpow_natCast]
  push_cast
  rw [add_zero, mul_inv_cancel₀ (by positivity)]

lemma datum_ten (hmbits : 2 ≤ f.mbits) (hemax : 3 ≤ f.emax) (sn : Bool) :
    (Fp.ten sn : Fp f).datum = .finite sn 10 := by
  have hmin := f.emin_eq
  obtain ⟨n, hn⟩ := Nat.exists_eq_add_of_le hmbits
  rw [Fp.ten, datum_normal (Nat.pow_lt_pow_right one_lt_two (by omega)) (by omega) hemax, hn, ulp,
    Nat.add_sub_cancel_left, show (3 : ℤ) - (2 + n : ℕ) = 1 - n by push_cast; ring,
    zpow_sub₀ two_ne_zero, zpow_natCast, pow_add]
  push_cast
  congr 1
  field_simp
  norm_num

lemma computes_convert (rm : RoundingMode) {x : Fp f} (hx : x.datum = .finite s a) (ha : 0 ≤ a) :
    Computes rm (x, csr.clearCx) (convertTable (.finite s a)) := by
  rw [convertTable]
  split_ifs with h
  · subst h
    exact ⟨hx, exact_clear⟩
  · exact computes_self rm hx (ha.lt_of_ne' h) exact_clear

section Integers

variable {w : ℕ} {x : BitVec w}

lemma magnitude_eq (hw : w = 32 ∨ w = 64) (x : BitVec w) : magnitude x = x.toInt.natAbs := by
  rw [magnitude]
  split_ifs with hneg hmin
  · rcases hw with rfl | rfl <;> rw [hmin] <;> rfl
  · rw [BitVec.toInt_eq_msb_cond, if_pos hneg]
    rw [BitVec.msb_eq_decide, decide_eq_true_eq] at hneg
    rcases hw with rfl | rfl <;> bv_omega
  · rw [BitVec.toInt_eq_toNat_of_msb (by simpa using hneg)]
    rfl

/-- The integers with a table entry, and the others. -/
lemma fintConst_cases (hw : w = 32 ∨ w = 64) (hmbits : 2 ≤ f.mbits) (hemax : 3 ≤ f.emax) :
    (∃ r : Fp f, fintConst x = some r ∧ r.datum = intDatum x.toInt) ∨
      (fintConst x : Option (Fp f)) = none ∧ 0 < x.toInt.natAbs := by
  rw [fintConst]
  split_ifs with h₀ h₁ h₁₀
  · refine .inl ⟨_, rfl, ?_⟩
    rw [h₀, datum_zero]
    simp [intDatum]
  · refine .inl ⟨_, rfl, ?_⟩
    rw [datum_one, intDatum, ← BitVec.msb_eq_toInt]
    rcases hw with rfl | rfl <;> rcases h₁ with rfl | rfl <;> simp
  · refine .inl ⟨_, rfl, ?_⟩
    rw [datum_ten hmbits hemax, intDatum, ← BitVec.msb_eq_toInt]
    rcases hw with rfl | rfl <;> rcases h₁₀ with rfl | rfl <;> simp
  · refine .inr ⟨rfl, Int.natAbs_pos.2 ?_⟩
    exact fun h => h₀ (BitVec.toInt_inj.1 (by simpa using h))

/-- What the conversions have in common: the table, and a fit to the mantissa in a word of `g`. -/
lemma int_computes {r : Fp f × Csr} (hnod : csr.nod = false) (hw : w = 32 ∨ w = 64)
    (hg : w = g.wordBits) (hmbits : 2 ≤ f.mbits) (hemax : 3 ≤ f.emax)
    (hword : f.mbits + 3 + 1 ≤ g.wordBits)
    (hsome : ∀ c, fintConst x = some c → r = (c, csr.clearCx))
    (hnone : fintConst (f := f) x = none → r =
      match if magnitude x >>> (f.mbits + 1 + 3) ≠ 0
        then shuntLoop (f.mbits + 1 + 3) g.wordBits (magnitude x) (f.mbits + 3)
        else normalize g (f.mbits + 3) (magnitude x) (f.mbits + 3) with
      | (xm, xe) => format csr.clearCx x.msb xe xm) :
    Computes csr.rm r (convertTable (intDatum x.toInt)) := by
  rcases fintConst_cases hw hmbits hemax with ⟨c, hc, hdatum⟩ | ⟨hc, hpos⟩
  · rw [hsome c hc]
    exact computes_convert csr.rm hdatum (by simp)
  · have hlt : x.toInt.natAbs < 2 ^ (f.mbits + 3 + 1 + g.wordBits) := by
      have h₁ := x.two_mul_toInt_lt
      have h₂ := x.le_two_mul_toInt
      have habs : (x.toInt.natAbs : ℤ) < 2 ^ w := by omega
      exact lt_of_lt_of_le (by exact_mod_cast habs) (Nat.pow_le_pow_right two_pos (by omega))
    have htable : convertTable (intDatum x.toInt) = .rounded (signed x.msb x.toInt.natAbs) := by
      rw [x.msb_eq_toInt, intDatum, convertTable, if_neg (by simpa using hpos), Nat.cast_natAbs,
        Int.cast_abs]
    rw [hnone hc, htable, magnitude_eq hw]
    exact format_fit_computes ⟨hnod, rfl⟩ hword hpos hlt

lemma spFint_computes (hnod : csr.nod = false) (x : BitVec 32) :
    Computes csr.rm (spFint csr x) (convertTable (intDatum x.toInt)) :=
  int_computes (g := sp) hnod (.inl rfl) rfl (by decide) (by decide) (by decide)
    (fun c hc => by rw [spFint, hc]) fun hc => by rw [spFint, hc]

lemma flong_computes (hnod : csr.nod = false) (x : BitVec 64) (hmbits : 2 ≤ f.mbits)
    (hemax : 3 ≤ f.emax) (hword : f.mbits + 3 + 1 ≤ dp.wordBits) :
    Computes csr.rm (flong csr x : Fp f × Csr) (convertTable (intDatum x.toInt)) :=
  int_computes hnod (.inr rfl) rfl hmbits hemax hword
    (fun c hc => by rw [flong, hc]) fun hc => by rw [flong, hc]

end Integers

/-! ## Widening -/

lemma datum_eq_inf {x : Fp f} (hx : x.datum = .inf s) :
    x.sign = s ∧ (x.bexp.toNat : ℤ) = f.emax + 1 + f.ebias ∧ x.mant.toNat = 0 ∧
      explode x = (.inf, f.emax + 1 + f.ebias, 0) := by
  rw [Fp.datum] at hx
  split_ifs at hx with h₁ h₂
  exact ⟨Datum.inf.inj hx, h₁, h₂, by rw [explode, if_pos h₁, if_pos h₂, h₁, h₂]⟩

/-- Two patterns for one number are the same. -/
lemma datum_injective {x y : Fp f} (hx : x.datum ≠ .nan) (h : y.datum = x.datum) : y = x := by
  have hfields : y.sign = x.sign ∧ (y.bexp.toNat : ℤ) = x.bexp.toNat ∧
      y.mant.toNat = x.mant.toNat := by
    cases hd : x.datum with
    | nan => exact absurd hd hx
    | inf s =>
      obtain ⟨hs, hb, hm, -⟩ := datum_eq_inf hd
      obtain ⟨hs', hb', hm', -⟩ := datum_eq_inf (h.trans hd)
      exact ⟨hs'.trans hs.symm, hb'.trans hb.symm, hm'.trans hm.symm⟩
    | finite s a =>
      obtain ⟨hs, k, e, hk, ha⟩ := significand_of_datum hd
      obtain ⟨hs', k', e', hk', ha'⟩ := significand_of_datum (h.trans hd)
      obtain ⟨rfl, rfl⟩ := leading_unique hk.lt hk'.lt hk.emin_le hk'.emin_le hk.leading hk'.leading
        (ha.symm.trans ha')
      exact ⟨hs'.trans hs.symm, hk'.bexp.trans hk.bexp.symm, hk'.mant.trans hk.mant.symm⟩
  obtain ⟨sx, bx, mx⟩ := x
  obtain ⟨sy, by', my⟩ := y
  obtain ⟨hs, hb, hm⟩ := hfields
  exact congr (congrArg₂ Fp.mk hs (BitVec.eq_of_toNat_eq (by exact_mod_cast hb)))
    (BitVec.eq_of_toNat_eq hm)

lemma datum_build (hm : Normal f m) (he : f.emin ≤ e) (he' : e ≤ f.emax) :
    (build sn (e + f.ebias) (m - hiddenBit f) : Fp f).datum = .finite sn (m * ulp f.mbits e) := by
  have hlow : hiddenBit f ≤ m := hm.1
  have hhigh := hm.2
  rw [datum_normal (by rw [hiddenBit, mbit]; omega) he he', ← mbit, ← hiddenBit,
    Nat.add_sub_of_le hlow]

lemma datum_dpFint (x : BitVec 32) : (dpFint csr x).1.datum = intDatum x.toInt := by
  rw [dpFint]
  rcases fintConst_cases (f := dp) (.inl rfl) (by decide) (by decide) with
    ⟨r, hr, hdatum⟩ | ⟨hnone, hpos⟩
  · rw [show fintConst x = some r from hr]
    exact hdatum
  · have h₁ := x.two_mul_toInt_lt
    have h₂ := x.le_two_mul_toInt
    obtain ⟨j, hj, heq, hnormal, hvalue⟩ := normalize_normal (f := dp) hpos
      (by simp only [dp]; omega) dp.mbits
    rw [show fintConst x = none from hnone, show magnitude x = _ from magnitude_eq (.inl rfl) x, heq]
    simp only [dp] at hj
    refine (datum_build hnormal (by simp only [dp]; omega) (by simp only [dp]; omega)).trans ?_
    rw [hvalue, intDatum, ← BitVec.msb_eq_toInt]
    simp [ulp]

lemma datum_widen (hm : Normal sp m) (he : -149 ≤ e) (he' : e ≤ 127) :
    (build sn (e + dp.ebias) ((m - hiddenBit sp) <<< (dp.mbits - sp.mbits)) : Fp dp).datum =
      .finite sn (m * ulp sp.mbits e) := by
  have hshift : (m - hiddenBit sp) <<< (dp.mbits - sp.mbits) = 2 ^ 29 * m - hiddenBit dp := by
    rw [Nat.shiftLeft_eq, Nat.sub_mul, mul_comm]
    rfl
  have hulp : ulp sp.mbits e = 2 ^ 29 * ulp dp.mbits e := ulp_extra sp.mbits 29 e
  have hm' : Normal dp (2 ^ 29 * m) := by
    obtain ⟨h₁, h₂⟩ := hm
    exact ⟨Nat.mul_le_mul_left (2 ^ 29) h₁, Nat.mul_lt_mul_of_pos_left h₂ (by decide)⟩
  rw [hshift, datum_build hm' (by simp only [dp]; omega) (by simp only [dp]; omega), hulp]
  exact congrArg (Datum.finite sn) (by push_cast; ring)

lemma datum_dpFsp (x : Fp sp) (hx : x.datum ≠ .nan) : (dpFsp csr x).1.datum = x.datum := by
  cases hd : x.datum with
  | nan => exact absurd hd hx
  | inf s =>
    obtain ⟨rfl, -, -, hexplode⟩ := datum_eq_inf hd
    rw [dpFsp, hexplode]
    exact datum_inf x.sign
  | finite s a =>
    obtain ⟨rfl, k, e, hk, rfl⟩ := significand_of_datum hd
    have hmin : -126 ≤ e := hk.emin_le
    have hmax : e ≤ 127 := hk.le_emax
    by_cases h0 : k = 0
    · rw [dpFsp, hk.zero h0, h0, Nat.cast_zero, zero_mul]
      exact datum_zero x.sign
    · rw [dpFsp, hk.nonzero h0]
      split_ifs with hden
      · obtain ⟨j, hj, heq, hnormal, hvalue⟩ := normalize_normal (Nat.pos_of_ne_zero h0) hk.lt e
        have hj' : j ≤ 23 := hj
        simp only [heq]
        rw [datum_widen hnormal (by omega) (by omega), hvalue]
      · exact datum_widen ⟨not_lt.1 hden, hk.lt⟩ (by omega) hmax

/-! ## Narrowing -/

lemma spFdp_normal_computes {x : Fp dp} (hnod : csr.nod = false)
    (hx : explode x = (.norm, e, m)) (hm : Normal dp m) :
    Computes csr.rm (spFdp csr x) (.rounded (signed x.sign (m * ulp dp.mbits e))) := by
  obtain ⟨hlow, hhigh⟩ := hm
  have hulp : ulp (sp.mbits + 3) e = 2 ^ 26 * ulp dp.mbits e := ulp_extra (sp.mbits + 3) 26 e
  have hpos : 0 < (m : ℚ) * ulp dp.mbits e := number_pos ⟨hlow, hhigh⟩ rfl
  have hjam : m >>> (dp.mbits - (sp.mbits + 3)) |||
      ofBool (shl dp m (64 - (dp.mbits - (sp.mbits + 3))) != 0) = jam m 26 :=
    or_shl_eq_jam (by decide)
  have heq : spFdp csr x = format csr.clearCx x.sign e (jam m 26) := by
    simp only [spFdp, hx, hjam]
  rw [heq]
  refine format_computes ⟨hnod, rfl⟩ ?_ ?_ hpos ?_
  · rw [← not_lt, jam_lt_iff (dvd_pow_self 2 (by decide)), not_lt]
    exact hlow
  · rw [jam_lt_iff (dvd_pow_self 2 (by decide))]
    exact hhigh
  · rw [hulp, mul_div_mul_right _ _ (ulp_pos _ _).ne']
    exact ((sticky_self 1 m).jam (by decide)).mono (by decide)

def leastNormal : ℚ := 2 ^ dp.mbits * ulp dp.mbits dp.emin

lemma leastNormal_pos : 0 < leastNormal := mul_pos (by positivity) (ulp_pos _ _)

lemma leastNormal_lt : 2 * leastNormal < ulp sp.mbits sp.emin := by
  have hleast : 2 * leastNormal = 2 ^ (-1021 : ℤ) := by
    rw [leastNormal, ulp, ← zpow_natCast, ← zpow_add₀ two_ne_zero, ← zpow_one_add₀ two_ne_zero]
    rfl
  rw [hleast]
  exact zpow_lt_zpow_right₀ one_lt_two (by decide)

section Narrowing

variable {x y : Fp dp} (hnod : csr.nod = false) (hx : x.datum = .finite s a)
include hnod hx

/-- What `ieee754sp_fdp` makes of a finite number. -/
lemma spFdp_cases :
    ∃ q, 0 ≤ q ∧ (spFdp csr x).1.datum = bounded sp.mbits sp.emax (csr.rm.direction s) s q ∧
      (a < leastNormal ∧ (explode x).1 = (if a = 0 then .zero else .dnorm) ∧ q = 0 ∨
        leastNormal ≤ a ∧ (explode x).1 = .norm ∧
          RoundsTo sp.mbits sp.emin (csr.rm.direction s) a q) := by
  obtain ⟨rfl, k, e, hk, rfl⟩ := significand_of_datum hx
  have hpos := ulp_pos dp.mbits e
  by_cases hlt : k < 2 ^ dp.mbits
  · have he : e = dp.emin := hk.leading.resolve_left (not_le.2 hlt)
    refine ⟨0, le_rfl, ?_, .inl ⟨?_, ?_, rfl⟩⟩
    · rw [bounded_eq_zero_iff.2 rfl, spFdp]
      by_cases h0 : k = 0
      · rw [hk.zero h0]
        exact datum_zero x.sign
      · rw [hk.nonzero h0, if_pos hlt]
        exact datum_zero x.sign
    · rw [he]
      exact mul_lt_mul_of_pos_right (by exact_mod_cast hlt) (ulp_pos _ _)
    · by_cases h0 : k = 0
      · rw [hk.zero h0, if_pos (by simp [h0])]
      · rw [hk.nonzero h0, if_pos hlt, if_neg (by positivity)]
  · have hnormal : Normal dp k := ⟨not_lt.1 hlt, hk.lt⟩
    have hexplode := hk.nonzero (by rintro rfl; exact hlt (Nat.two_pow_pos _))
    rw [if_neg hlt] at hexplode
    have hmeets := (spFdp_normal_computes hnod hexplode hnormal).meets
    rw [Fp.Meets, meets_rounded (number_pos hnormal rfl)] at hmeets
    obtain ⟨q, hq, hdatum⟩ := hmeets
    refine ⟨q, hq.nonneg, hdatum, .inr ⟨?_, by rw [hexplode], hq⟩⟩
    have hulp : ulp dp.mbits dp.emin ≤ ulp dp.mbits e :=
      zpow_le_zpow_right₀ one_le_two (Int.sub_le_sub_right hk.emin_le _)
    exact mul_le_mul (by exact_mod_cast hnormal.1) hulp (ulp_pos _ _).le (Nat.cast_nonneg k)

lemma spFdp_meets_iff :
    (spFdp csr x).1.Meets csr.rm (convertTable x.datum) ↔
      ¬ ((explode x).1 = .dnorm ∧ csr.rm.direction s = .up) := by
  obtain ⟨q, -, hdatum, h⟩ := spFdp_cases hnod hx
  have ha : 0 ≤ a := (representable_of_datum hx).1.nonneg
  have hleast := leastNormal_lt
  rw [hx, convertTable, Fp.Meets, hdatum]
  rcases h with ⟨hlt, hclass, rfl⟩ | ⟨hle, hclass, hq⟩
  · rw [hclass]
    split_ifs with h0
    · simp [Expected.Meets, bounded_eq_zero_iff]
    · have hpos : 0 < a := ha.lt_of_ne' h0
      rw [meets_rounded hpos]
      simp only [(bounded_eq_zero_iff).2 rfl, eq_comm (a := Datum.finite s 0),
        bounded_eq_zero_iff, exists_eq_right]
      simpa using roundsTo_zero_iff hpos (by linarith)
  · have hpos : 0 < a := leastNormal_pos.trans_le hle
    rw [if_neg hpos.ne', meets_rounded hpos, hclass]
    simpa using ⟨q, hq, rfl⟩

/-- A number of the narrower format is kept. -/
lemma datum_spFdp_of_representable (hrep : Representable sp.mbits sp.emin a)
    (hle : a ≤ largest sp.mbits sp.emax) : (spFdp csr x).1.datum = .finite s a := by
  obtain ⟨q, -, hdatum, ⟨hlt, -, rfl⟩ | ⟨-, -, hround⟩⟩ := spFdp_cases hnod hx
  · have hleast := leastNormal_lt
    have hpos := leastNormal_pos
    obtain h0 | h0 := hrep.le_or_le (.inr rfl) le_rfl
    · rw [Nat.cast_zero, zero_mul] at h0
      rw [hdatum, bounded_eq_zero_iff.2 rfl, h0.antisymm hrep.nonneg]
    · rw [Nat.cast_zero] at h0
      linarith
  · rw [hdatum, hround.eq_of_representable hrep, bounded, if_pos hle]

/-- Between numbers of one sign the magnitude of the result grows. -/
lemma spFdp_magnitudes (hy : y.datum = .finite s b) (h : a ≤ b) :
    ∃ p q, p ≤ q ∧ (spFdp csr x).1.datum = bounded sp.mbits sp.emax (csr.rm.direction s) s p ∧
      (spFdp csr y).1.datum = bounded sp.mbits sp.emax (csr.rm.direction s) s q := by
  obtain ⟨p, -, hp, hxcase⟩ := spFdp_cases hnod hx
  obtain ⟨q, hq₀, hq, hycase⟩ := spFdp_cases hnod hy
  rcases h.eq_or_lt with rfl | hlt
  · obtain rfl : y = x := datum_injective (by simp [hx]) (hy.trans hx.symm)
    exact ⟨p, p, le_rfl, hp, hp⟩
  · refine ⟨p, q, ?_, hp, hq⟩
    rcases hxcase with ⟨-, -, rfl⟩ | ⟨hle, -, hround⟩
    · exact hq₀
    · rcases hycase with ⟨hlt', -, -⟩ | ⟨-, -, hround'⟩
      · linarith
      · exact hround.mono hround' hlt

lemma spFdp_le (hy : y.datum = .finite t b) (h : signed s a ≤ signed t b) :
    (spFdp csr x).1.datum.Le (spFdp csr y).1.datum := by
  have ha : 0 ≤ a := (representable_of_datum hx).1.nonneg
  have hb : 0 ≤ b := (representable_of_datum hy).1.nonneg
  cases s <;> cases t
  · obtain ⟨p, q, hle, hp, hq⟩ := spFdp_magnitudes hnod hx hy h
    rw [hp, hq]
    exact (bounded_le hle).1
  · -- both are zeros
    have hsum : a ≤ -b := h
    obtain rfl : a = 0 := by linarith
    obtain rfl : b = 0 := by linarith
    have hle := (largest_pos sp.mbits sp.emax).le
    rw [datum_spFdp_of_representable hnod hx (representable_zero _ _) hle,
      datum_spFdp_of_representable hnod hy (representable_zero _ _) hle]
    simp [Datum.Le, signed]
  · obtain ⟨p, hp₀, hp, -⟩ := spFdp_cases hnod hx
    obtain ⟨q, hq₀, hq, -⟩ := spFdp_cases hnod hy
    rw [hp, hq]
    exact bounded_neg_le hp₀ hq₀
  · obtain ⟨q, p, hle, hq, hp⟩ := spFdp_magnitudes hnod hy hx (neg_le_neg_iff.1 h)
    rw [hp, hq]
    exact (bounded_le hle).2

end Narrowing

lemma spFdp_dpFsp {csr' : Csr} (hnod : csr'.nod = false) {x : Fp sp} (hx : x.datum ≠ .nan) :
    (spFdp csr' (dpFsp csr x).1).1 = x := by
  have hwide : (dpFsp csr x).1.datum = x.datum := datum_dpFsp x hx
  refine datum_injective hx ?_
  cases hd : x.datum with
  | nan => exact absurd hd hx
  | inf s =>
    obtain ⟨hs, -, -, hexplode⟩ := datum_eq_inf (hwide.trans hd)
    rw [spFdp, hexplode, ← hs]
    exact datum_inf _
  | finite s a =>
    obtain ⟨hrep, hle⟩ := representable_of_datum hd
    exact datum_spFdp_of_representable hnod (hwide.trans hd) hrep hle

/-! ## The conversions -/

/-- **Widening is exact, and integers are correctly rounded.** -/
theorem conversions_correct (csr : Csr) (hnod : csr.nod = false) :
    (∀ x : Fp sp, x.datum ≠ .nan → (dpFsp csr x).1.datum = x.datum ∧
      ∀ csr' : Csr, csr'.nod = false → (spFdp csr' (dpFsp csr x).1).1 = x) ∧
    (∀ n : BitVec 32, (dpFint csr n).1.datum = intDatum n.toInt ∧
      (spFint csr n).1.Meets csr.rm (convertTable (intDatum n.toInt))) ∧
    ∀ n : BitVec 64, (flong csr n : Fp dp × Csr).1.Meets csr.rm (convertTable (intDatum n.toInt)) ∧
      (flong csr n : Fp sp × Csr).1.Meets csr.rm (convertTable (intDatum n.toInt)) := by
  refine ⟨fun x hx => ⟨datum_dpFsp x hx, fun csr' hnod' => spFdp_dpFsp hnod' hx⟩,
    fun n => ⟨datum_dpFint n, (spFint_computes hnod n).meets⟩, fun n => ⟨?_, ?_⟩⟩
  all_goals exact (flong_computes hnod n (by decide) (by decide) (by decide)).meets

theorem conversions_correct_intMin :
    (dpFint Csr.boot (BitVec.intMin 32)).1.datum = intDatum (-2 ^ 31) ∧
      (spFdp Csr.boot (dpFsp Csr.boot (Fp.ten true)).1).1 = Fp.ten true :=
  have h := conversions_correct Csr.boot rfl
  ⟨(h.2.1 _).1, (h.1 _ (by simp [datum_ten (f := sp) (by decide) (by decide)])).2 _ rfl⟩

/-- **Narrowing is monotone, and correct except that a denormal double is never rounded away from
zero.** -/
theorem narrowing_correct_iff (csr : Csr) (hnod : csr.nod = false) :
    (∀ (x : Fp dp) (s : Bool) (a : ℚ), x.datum = .finite s a →
      ((spFdp csr x).1.Meets csr.rm (convertTable x.datum) ↔
        ¬ ((explode x).1 = .dnorm ∧ csr.rm.direction s = .up))) ∧
    ∀ (x y : Fp dp) (s t : Bool) (a b : ℚ), x.datum = .finite s a → y.datum = .finite t b →
      signed s a ≤ signed t b → (spFdp csr x).1.datum.Le (spFdp csr y).1.datum :=
  ⟨fun _ _ _ hx => spFdp_meets_iff hnod hx, fun _ _ _ _ _ _ hx hy h => spFdp_le hnod hx hy h⟩

theorem narrowing_correct_iff_one :
    (spFdp Csr.boot (Fp.one false)).1.Meets .rn (convertTable (Fp.one false : Fp dp).datum) ∧
      (spFdp Csr.boot (Fp.one true)).1.datum.Le (spFdp Csr.boot (Fp.one false)).1.datum :=
  have h := narrowing_correct_iff Csr.boot rfl
  ⟨(h.1 _ _ _ (datum_one false)).2 (by decide),
    h.2 _ _ _ _ _ _ (datum_one true) (datum_one false) (by norm_num [signed])⟩

/-- The least positive double, rounded up, becomes zero. -/
theorem denormal_not_rounded_up :
    ¬ (spFdp { Csr.boot with rm := .ru } (build false 0 1)).1.Meets .ru
      (convertTable (build false 0 1 : Fp dp).datum) := by
  have hx : (build false 0 1 : Fp dp).datum = .finite false (1 * ulp dp.mbits dp.emin) :=
    datum_denormal (by decide)
  exact (spFdp_meets_iff rfl hx).not.2 (not_not.2 ⟨by decide, rfl⟩)

end PsxLinux.MathEmu
