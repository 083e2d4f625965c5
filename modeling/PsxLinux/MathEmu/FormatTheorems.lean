import PsxLinux.MathEmu.Ieee754
import Mathlib.Data.Nat.Bitwise

/-!
# Rounding and packing

`ieee754dp_format` rounds correctly: given a mantissa with three extra bits that compares with the
multiples of 4 as an exact positive value does, it returns what IEEE 754 prescribes for that value
(`format_meets`), denormals and overflow included.
-/

namespace PsxLinux.MathEmu

open Lib

variable {f : Format} {csr : Csr} {sn : Bool} {xe : ℤ} {m n : ℕ} {a : ℚ}

/-! ## What a bit pattern denotes -/

def Fp.datum (x : Fp f) : Datum :=
  if (x.bexp.toNat : ℤ) = f.emax + 1 + f.ebias then
    if x.mant.toNat = 0 then .inf x.sign else .nan
  else if x.bexp.toNat = 0 then .finite x.sign (x.mant.toNat * ulp f.mbits f.emin)
  else .finite x.sign ((2 ^ f.mbits + x.mant.toNat : ℕ) * ulp f.mbits (x.bexp.toNat - f.ebias))

/-- The result is the one that the table gives. -/
def Fp.Meets (rm : RoundingMode) (x : Fp f) (expected : Expected) : Prop :=
  expected.Meets f.mbits f.emin f.emax rm x.datum

lemma toNat_ofInt_ebits {bx : ℤ} (h₀ : 0 ≤ bx) (h : bx ≤ f.emax + 1 + f.ebias) :
    ((BitVec.ofInt f.ebits bx).toNat : ℤ) = bx := by
  have hbits := f.ebits_eq
  have hbias := f.ebias_eq
  rw [BitVec.toNat_ofInt, Int.toNat_of_nonneg (Int.emod_nonneg _ (by positivity))]
  refine Int.emod_eq_of_lt h₀ ?_
  push_cast
  omega

lemma toNat_ofNat_mbits (h : m < 2 ^ f.mbits) : (BitVec.ofNat f.mbits m).toNat = m := by
  rw [BitVec.toNat_ofNat, Nat.mod_eq_of_lt h]

lemma datum_inf (sn : Bool) : (Fp.inf sn : Fp f).datum = .inf sn := by
  have hmax := f.emax_pos
  have hbias := f.ebias_eq
  have hexp : ((BitVec.ofInt f.ebits (f.emax + 1 + f.ebias)).toNat : ℤ) = f.emax + 1 + f.ebias :=
    toNat_ofInt_ebits (by omega) le_rfl
  rw [Fp.datum, Fp.inf, build, if_pos hexp, if_pos]
  exact toNat_ofNat_mbits (Nat.two_pow_pos _)

/-- A pattern with an exponent field in the range of numbers with a hidden bit. -/
lemma datum_normal (hm : m < 2 ^ f.mbits) (he : f.emin ≤ xe) (he' : xe ≤ f.emax) :
    (build sn (xe + f.ebias) m : Fp f).datum =
      .finite sn ((2 ^ f.mbits + m : ℕ) * ulp f.mbits xe) := by
  have hmin := f.emin_eq
  have hbias := f.ebias_eq
  have hexp : ((BitVec.ofInt f.ebits (xe + f.ebias)).toNat : ℤ) = xe + f.ebias :=
    toNat_ofInt_ebits (by omega) (by omega)
  rw [Fp.datum, build, if_neg, if_neg]
  · simp only [toNat_ofNat_mbits hm, hexp, add_sub_cancel_right]
  · simp only
    omega
  · simp only [hexp]
    omega

/-- A denormal number has the exponent of the smallest normal ones. -/
lemma datum_denormal (hm : m < 2 ^ f.mbits) :
    (build sn (f.emin - 1 + f.ebias) m : Fp f).datum = .finite sn (m * ulp f.mbits f.emin) := by
  have hmax := f.emax_pos
  have hmin := f.emin_eq
  have hbias := f.ebias_eq
  have hexp : ((BitVec.ofInt f.ebits (f.emin - 1 + f.ebias)).toNat : ℤ) = f.emin - 1 + f.ebias :=
    toNat_ofInt_ebits (by omega) (by omega)
  rw [Fp.datum, build, if_neg, if_pos]
  · simp only [toNat_ofNat_mbits hm]
  · simp only
    omega
  · simp only [hexp]
    omega

lemma datum_zero (sn : Bool) : (Fp.zero sn : Fp f).datum = .finite sn 0 := by
  rw [Fp.zero, datum_denormal (Nat.two_pow_pos _), Nat.cast_zero, zero_mul]

lemma datum_max (sn : Bool) : (Fp.max sn : Fp f).datum = .finite sn (largest f.mbits f.emax) := by
  have hmax := f.emax_pos
  have hmin := f.emin_eq
  have hpos : 0 < 2 ^ f.mbits := Nat.two_pow_pos _
  rw [Fp.max, datum_normal (by omega) (by omega) le_rfl]
  congr 3
  omega

/-- On overflow the mode decides between the largest number and infinity. -/
lemma datum_overflowValue (rm : RoundingMode) (sn : Bool) :
    (overflowValue rm sn : Fp f).datum =
      if rm.direction sn = .down then .finite sn (largest f.mbits f.emax) else .inf sn := by
  cases rm <;> cases sn <;>
    simp only [overflowValue, RoundingMode.direction, if_true, if_false, datum_inf, datum_max,
      Bool.false_eq_true, Bool.true_eq_false, reduceCtorEq]

/-! ## Exceptions -/

def raised (cx flag : BitVec 5) : Bool := cx &&& flag != 0

/-- What an operation should give, with its exceptions. -/
def Computes (rm : RoundingMode) (r : Fp f × Csr) (expected : Expected) : Prop :=
  expected.Computed f.mbits f.emin f.emax rm r.1.datum (raised r.2.cx inexact)
    (raised r.2.cx overflow)

lemma Computes.meets {rm : RoundingMode} {r : Fp f × Csr} {expected : Expected}
    (h : Computes rm r expected) : r.1.Meets rm expected := by
  cases expected with
  | rounded value =>
    obtain ⟨-, q, hq, hd, -⟩ := h
    exact ⟨q, hq, hd⟩
  | nan => exact h.1
  | inf sign => exact h.1
  | zero sign => exact h.1

/-- A rounded magnitude as it is returned, with its exceptions. -/
structure Gives (rm : RoundingMode) (sn : Bool) (q : ℚ) (lossy : Bool) (r : Fp f × Csr) : Prop where
  datum : r.1.datum = bounded f.mbits f.emax (rm.direction sn) sn q
  inexact : raised r.2.cx inexact = lossy
  overflow : raised r.2.cx overflow = decide (largest f.mbits f.emax < q)

/-! ## Packing -/

lemma and_hiddenBit_eq_zero (hn : n < 2 ^ (f.mbits + 1)) :
    n &&& hiddenBit f = 0 ↔ n < 2 ^ f.mbits := by
  have hpos : 0 < 2 ^ f.mbits := Nat.two_pow_pos _
  have hdiv : n / 2 ^ f.mbits < 2 := Nat.div_lt_of_lt_mul (by rwa [pow_succ] at hn)
  have hlt : n < 2 ^ f.mbits ↔ n / 2 ^ f.mbits = 0 := (Nat.div_eq_zero_iff_lt hpos).symm
  rw [hiddenBit, mbit, Nat.and_two_pow, Nat.testBit_eq_decide_div_mod_eq, hlt]
  rcases Nat.lt_succ_iff_lt_or_eq.1 hdiv with h | h
  · simp [Nat.lt_one_iff.1 h]
  · simp [h]

/-- `pack` returns the number with the given significand, or overflows. -/
lemma pack_gives {lossy : Bool} (hcx : csr.cx = if lossy then inexact else 0) (hn : m >>> 3 = n)
    (hlt : n < 2 ^ (f.mbits + 1)) (hlead : Leading f.mbits f.emin xe n) (he : f.emin ≤ xe) :
    Gives csr.rm sn (n * ulp f.mbits xe) lossy (pack csr sn xe m : Fp f × Csr) := by
  have hmax := f.emax_pos
  have hmin := f.emin_eq
  have hle := le_largest_iff hlt hlead (by omega : f.emin ≤ f.emax)
  have hflags : ∀ l : Bool, ∀ x, x = overflow ∨ x = underflow ∨ x = 0 →
      raised ((if l then inexact else 0) ||| x) inexact = l ∧
        raised ((if l then inexact else 0) ||| x) overflow = (x == overflow) := by decide
  simp only [pack, hn]
  split_ifs with hover hbit
  · have hbig := mt hle.1 (not_le.2 hover)
    obtain ⟨h₁, h₂⟩ := hflags lossy overflow (.inl rfl)
    rw [← hcx] at h₁ h₂
    exact ⟨by rw [bounded, if_neg hbig, datum_overflowValue], h₁,
      h₂.trans (decide_eq_true (not_le.1 hbig)).symm⟩
  · have hsmall := (and_hiddenBit_eq_zero hlt).1 hbit
    have hfits := hle.2 (not_lt.1 hover)
    obtain rfl : xe = f.emin := hlead.resolve_left (by omega)
    obtain ⟨h₁, h₂⟩ := hflags lossy underflow (.inr (.inl rfl))
    rw [← hcx] at h₁ h₂
    exact ⟨by rw [bounded, if_pos hfits, datum_denormal hsmall], h₁,
      h₂.trans (decide_eq_false (not_lt.2 hfits)).symm⟩
  · have hlarge : 2 ^ f.mbits ≤ n := not_lt.1 (mt (and_hiddenBit_eq_zero hlt).2 hbit)
    have hfits := hle.2 (not_lt.1 hover)
    have hrest : n - hiddenBit f < 2 ^ f.mbits := by
      simp only [hiddenBit, mbit]
      omega
    obtain ⟨h₁, h₂⟩ := hflags lossy 0 (.inr (.inr rfl))
    rw [← hcx, show csr.cx ||| 0 = csr.cx from BitVec.or_zero] at h₁ h₂
    refine ⟨?_, h₁, h₂.trans (decide_eq_false (not_lt.2 hfits)).symm⟩
    rw [bounded, if_pos hfits, datum_normal hrest he (not_lt.1 hover)]
    congr 3
    simp only [hiddenBit, mbit]
    omega

/-! ## Rounding -/

/-- Adding to the three low bits and cutting them off rounds. -/
lemma roundMant_div (rm : RoundingMode) (sn : Bool) (hm : m % 8 ≠ 0) :
    roundMant rm sn m / 8 = roundSignificand (rm.direction sn) m := by
  have hbit : (m >>> 3) &&& 1 = m / 8 % 2 := by
    rw [Nat.and_one_is_mod, Nat.shiftRight_eq_div_pow]
  cases rm <;> cases sn <;>
    simp only [roundMant, RoundingMode.direction, roundSignificand, hbit, Bool.not_true,
      Bool.not_false, if_true, if_false, Bool.false_eq_true] <;> omega

lemma roundMant_le (rm : RoundingMode) (sn : Bool) (m : ℕ) : roundMant rm sn m ≤ m + 8 := by
  have hbit : (m >>> 3) &&& 1 ≤ 1 := Nat.and_le_right
  cases rm <;> simp only [roundMant] <;> try split_ifs
  all_goals omega

lemma roundSignificand_of_dvd {dir : Direction} (hm : m % 8 = 0) :
    roundSignificand dir m = m / 8 := by
  cases dir <;> simp only [roundSignificand] <;> omega

/-- What the second half of `ieee754dp_format` returns, in terms of the rounded significand. -/
lemma roundPack_gives (hcx : csr.cx = 0) (hm : m < 2 ^ (f.mbits + 4)) (he : f.emin ≤ xe)
    (hlead : 2 ^ (f.mbits + 3) ≤ m ∨ xe = f.emin) :
    Gives csr.rm sn (roundSignificand (csr.rm.direction sn) m * ulp f.mbits xe) (m % 8 ≠ 0)
      (roundPack csr sn xe m : Fp f × Csr) := by
  have hlow : m &&& (mbit 3 - 1) = m % 8 := Nat.and_two_pow_sub_one_eq_mod m 3
  have hpow : 2 ^ (f.mbits + 4) = 8 * 2 ^ (f.mbits + 1) := by ring
  have hpow' : 2 ^ (f.mbits + 3) = 8 * 2 ^ f.mbits := by ring
  simp only [roundPack, hlow]
  by_cases hexact : m % 8 = 0
  · rw [if_neg (by simpa using hexact), roundSignificand_of_dvd hexact]
    refine pack_gives ?_ (by rw [Nat.shiftRight_eq_div_pow]) (by omega)
      (hlead.imp (fun h => by omega) id) he
    rw [hcx, hexact]
    rfl
  · rw [if_pos hexact]
    have hrm : (csr.setCx inexact).rm = csr.rm := rfl
    have hcx' : (csr.setCx inexact).cx = if decide (m % 8 ≠ 0) then inexact else 0 := by
      rw [Csr.setCx, hcx, decide_eq_true hexact]
      rfl
    have hdiv := roundMant_div csr.rm sn hexact
    have hle := roundMant_le csr.rm sn m
    set r := roundMant csr.rm sn m with hr
    have hge : m / 8 ≤ roundSignificand (csr.rm.direction sn) m := by
      cases csr.rm.direction sn <;> simp only [roundSignificand] <;> omega
    rw [hrm]
    by_cases hcarry : r >>> (f.mbits + 3 + 1) ≠ 0
    · -- the significand is `2 ^ (mbits + 1)`, and the exponent goes up
      rw [if_pos hcarry]
      rw [Nat.shiftRight_eq_div_pow, Nat.div_ne_zero_iff] at hcarry
      have hfull : roundSignificand (csr.rm.direction sn) m = 2 ^ (f.mbits + 1) := by
        omega
      have hshift : r >>> 1 >>> 3 = 2 ^ f.mbits := by
        omega
      have hq : ((2 ^ f.mbits : ℕ) : ℚ) * ulp f.mbits (xe + 1) =
          roundSignificand (csr.rm.direction sn) m * ulp f.mbits xe := by
        rw [hfull, show xe + 1 = xe + (1 : ℕ) from rfl, ulp_add]
        push_cast
        ring
      rw [← hq]
      exact pack_gives hcx' hshift (by omega) (.inl le_rfl) (by omega)
    · rw [if_neg hcarry]
      rw [not_not, Nat.shiftRight_eq_div_pow, Nat.div_eq_zero_iff_lt (Nat.two_pow_pos _)] at hcarry
      have hshift : r >>> 3 = roundSignificand (csr.rm.direction sn) m := by
        rw [← hdiv, Nat.shiftRight_eq_div_pow]
      refine pack_gives hcx' hshift ?_ ?_ he
      · omega
      · exact hlead.imp (fun h => by omega) id

/-! ## Sticky shifts -/

variable {v k : ℕ}

lemma shl_eq (hk : k ≤ f.wordBits) : shl f v k = v % 2 ^ (f.wordBits - k) * 2 ^ k := by
  obtain ⟨w, hw⟩ := Nat.exists_eq_add_of_le' hk
  rw [shl, hw, Nat.add_sub_cancel, Nat.shiftLeft_eq, pow_add, Nat.mul_mod_mul_right]

lemma shl_of_lt (hk : k ≤ f.wordBits) (hv : v < 2 ^ (f.wordBits - k)) : shl f v k = 2 ^ k * v := by
  rw [shl_eq hk, Nat.mod_eq_of_lt hv, mul_comm]

/-- Bits that a left shift keeps are the ones that a right shift loses. -/
lemma or_shl_eq_jam {s : ℕ} (hs : s ≤ f.wordBits) :
    v >>> s ||| ofBool (shl f v (f.wordBits - s) != 0) = jam v s := by
  rw [shl_eq (Nat.sub_le _ _), Nat.sub_sub_self hs, jam, ofBool]
  by_cases h : v % 2 ^ s = 0
  · simp
  · simp

/-- The sticky shift keeps whether anything was lost. -/
lemma xsrs_eq_jam {s : ℕ} (hv : 0 < v) (hlt : v < 2 ^ (f.mbits + 4)) : xsrs f v s = jam v s := by
  have hword := f.word_large
  rw [xsrs]
  split_ifs with hs
  · have hsmall : v < 2 ^ s := hlt.trans_le (Nat.pow_le_pow_right two_pos hs)
    rw [jam, Nat.mod_eq_of_lt hsmall, if_neg hv.ne', Nat.shiftRight_eq_div_pow,
      Nat.div_eq_of_lt hsmall]
    rfl
  · exact or_shl_eq_jam (by omega)

/-! ## The whole function -/

/-- The register before an operation: denormals are returned, and no exception is left. -/
structure Csr.Clear (csr : Csr) : Prop where
  nod : csr.nod = false
  cx : csr.cx = 0

/-- **Rounding and packing** give the rounding of the exact value. -/
lemma computes_of_roundPack (hcx : csr.cx = 0) (hm : m < 2 ^ (f.mbits + 4)) (he : f.emin ≤ xe)
    (hlead : 2 ^ (f.mbits + 3) ≤ m ∨ xe = f.emin) (ha : 0 < a)
    (hsticky : Sticky 4 m (a / ulp (f.mbits + 3) xe)) :
    Computes csr.rm (roundPack csr sn xe m : Fp f × Csr) (.rounded (signed sn a)) := by
  have hgives : Gives csr.rm sn _ _ (roundPack csr sn xe m : Fp f × Csr) :=
    roundPack_gives hcx hm he hlead
  simp only [Computes, Expected.Computed, signed_neg_iff ha, abs_signed ha.le]
  refine ⟨?_, _, roundsTo_of_sticky he hm hlead hsticky _ f.mbits_pos, hgives.datum, ?_⟩
  · rw [hgives.inexact, representable_iff_of_sticky he hm hlead hsticky, decide_eq_true_eq]
  · rw [hgives.overflow, decide_eq_true_eq]

/-- **`ieee754dp_format` rounds correctly.** -/
theorem format_computes (hcsr : csr.Clear) (hm₁ : 2 ^ (f.mbits + 3) ≤ m)
    (hm₂ : m < 2 ^ (f.mbits + 4)) (ha : 0 < a)
    (hsticky : Sticky 4 m (a / ulp (f.mbits + 3) xe)) :
    Computes csr.rm (format csr sn xe m : Fp f × Csr) (.rounded (signed sn a)) := by
  have hpos : 0 < m := (Nat.two_pow_pos _).trans_le hm₁
  rw [format]
  split_ifs with hden hnod'
  · rw [hcsr.nod] at hnod'
    cases hnod'
  · -- the mantissa is shifted to the least exponent, which keeps it good enough
    obtain ⟨s, hs⟩ := Int.le.dest (Int.add_one_le_iff.2 hden)
    have hshift : (f.emin - xe).toNat = s + 1 := by omega
    have hulp : a / ulp (f.mbits + 3) f.emin = a / ulp (f.mbits + 3) xe / 2 ^ (s + 1) := by
      rw [show f.emin = xe + (s + 1 : ℕ) by omega, ulp_add, div_div, mul_comm]
    have hjam : Sticky 2 (jam m (s + 1)) (a / ulp (f.mbits + 3) f.emin) := by
      rw [hulp]
      refine hsticky.jam ?_
      exact pow_dvd_pow 2 (by omega : 2 ≤ s + 1 + 1)
    rw [hshift, xsrs_eq_jam hpos hm₂]
    refine computes_of_roundPack hcsr.cx ?_ le_rfl (.inr rfl) ha (hjam.mono (by decide))
    rw [jam_lt_iff (dvd_pow_self 2 (Nat.succ_ne_zero _))]
    exact hm₂.trans_le (Nat.le_mul_of_pos_right _ (Nat.two_pow_pos _))
  · exact computes_of_roundPack hcsr.cx hm₂ (not_lt.1 hden) (.inl hm₁) ha hsticky

/-! ## Normalization -/

/-- The loop shifts the leading bit to its place. -/
lemma normLoop_eq {fuel : ℕ} {e : ℤ} (hk : k + 1 ≤ f.wordBits) (hm : m < 2 ^ (k + 1))
    (hfuel : 2 ^ k ≤ 2 ^ fuel * m) :
    ∃ j : ℕ, normLoop f k fuel m e = (2 ^ j * m, e - j) ∧ 2 ^ k ≤ 2 ^ j * m ∧
      2 ^ j * m < 2 ^ (k + 1) := by
  induction fuel generalizing m e with
  | zero => exact ⟨0, by simp [normLoop], hfuel, by simpa using hm⟩
  | succ fuel ih =>
    simp only [normLoop]
    have hzero : m >>> k = 0 ↔ m < 2 ^ k := by
      rw [Nat.shiftRight_eq_div_pow, Nat.div_eq_zero_iff_lt (Nat.two_pow_pos k)]
    by_cases hsmall : m < 2 ^ k
    · have hshift : shl f m 1 = 2 * m := by
        refine shl_of_lt (by omega) (hsmall.trans_le (Nat.pow_le_pow_right two_pos ?_))
        omega
      rw [if_pos (hzero.2 hsmall), hshift]
      obtain ⟨j, heq, hlow, hhigh⟩ := ih (m := 2 * m) (by rw [pow_succ]; omega)
        (by rw [pow_succ] at hfuel; linarith)
      have hmul : 2 ^ (j + 1) * m = 2 ^ j * (2 * m) := by ring
      refine ⟨j + 1, ?_, hmul ▸ hlow, hmul ▸ hhigh⟩
      rw [heq, hmul]
      congr 1
      push_cast
      ring
    · rw [if_neg (mt hzero.1 hsmall)]
      exact ⟨0, by simp, by simpa using hsmall, by simpa using hm⟩

/-- `while ((m >> k) == 0) { m <<= 1; e--; }` ends with the leading bit in place. -/
lemma normalize_eq {e : ℤ} (hk : k + 1 ≤ f.wordBits) (hpos : 0 < m) (hm : m < 2 ^ (k + 1)) :
    ∃ j : ℕ, normalize f k m e = (2 ^ j * m, e - j) ∧ 2 ^ k ≤ 2 ^ j * m ∧
      2 ^ j * m < 2 ^ (k + 1) := by
  refine normLoop_eq hk hm ?_
  calc 2 ^ k ≤ 2 ^ f.wordBits := Nat.pow_le_pow_right two_pos (by omega)
    _ ≤ 2 ^ f.wordBits * m := Nat.le_mul_of_pos_right _ hpos

lemma mbits_lt_wordBits (f : Format) : f.mbits + 3 + 1 ≤ f.wordBits := by
  have := f.word_large
  omega

lemma ulp_sub (M n : ℕ) (e : ℤ) : 2 ^ n * ulp M (e - n) = ulp M e := by
  rw [← ulp_add, sub_add_cancel]

/-- A mantissa that is exact, or that lacks at most one bit, is normalized and rounded. -/
lemma format_normalize_computes {g : Format} {v c : ℚ} {e : ℤ} (hcsr : csr.Clear)
    (hword : f.mbits + 3 + 1 ≤ g.wordBits) (hpos : 0 < m)
    (hm : m < 2 ^ (f.mbits + 4)) (hv : (m : ℚ) = v ∨ (Sticky 2 m v ∧ 2 ^ (f.mbits + 2) ≤ m))
    (hc : c = v * ulp (f.mbits + 3) e) (hcpos : 0 < c) :
    Computes csr.rm (format csr sn (normalize g (f.mbits + 3) m e).2
      (normalize g (f.mbits + 3) m e).1 : Fp f × Csr) (.rounded (signed sn c)) := by
  obtain ⟨j, heq, hlow, hhigh⟩ := normalize_eq hword hpos hm
  rw [heq]
  refine format_computes hcsr hlow hhigh hcpos ?_
  have hval : c / ulp (f.mbits + 3) (e - j) = 2 ^ j * v := by
    rw [hc, ← ulp_sub (f.mbits + 3) j e]
    have hne := (ulp_pos (f.mbits + 3) (e - j)).ne'
    field_simp
  rw [hval]
  rcases hv with rfl | ⟨hsticky, hlarge⟩
  · exact_mod_cast sticky_self 4 (2 ^ j * m)
  · refine (hsticky.shl j).mono ?_
    have hj : j ≤ 1 := by
      by_contra hj
      have h4 : 2 ^ 2 ≤ 2 ^ j := Nat.pow_le_pow_right two_pos (by omega)
      have hover : 2 ^ (f.mbits + 3 + 1) ≤ 2 ^ j * m := by
        calc 2 ^ (f.mbits + 3 + 1) = 2 ^ 2 * 2 ^ (f.mbits + 2) := by ring
          _ ≤ 2 ^ j * m := Nat.mul_le_mul h4 hlarge
      exact absurd hhigh (not_lt.2 hover)
    exact mul_dvd_mul (pow_dvd_pow 2 hj) (dvd_refl 2)

end PsxLinux.MathEmu
