import PsxLinux.MathEmu.Functions

/-!
# How the library uses its status register

A library function only adds exceptions to `cx` and `sx`: which ones, and what it returns, depends
on its operands, on the rounding mode and on the flags nobody changes. Most functions clear `cx`
first. The square roots do not.
-/

namespace PsxLinux.MathEmu

open Lib

variable {f : Format} {α β : Type} {c d : Csr → α × Csr} {k : α → Csr → β × Csr}

def Csr.withX (csr : Csr) (cx sx : BitVec 5) : Csr := { csr with cx := cx, sx := sx }

/-- The function adds to the exceptions and reads none of them. -/
def Raises (c : Csr → α × Csr) : Prop :=
  ∀ csr : Csr, ∃ v e g, ∀ cx sx, c (csr.withX cx sx) = (v, csr.withX (cx ||| e) (sx ||| g))

/-- The same for a function that clears `cx` on its way. -/
def Fresh (c : Csr → α × Csr) : Prop :=
  ∀ csr : Csr, ∃ v e g, ∀ cx sx, c (csr.withX cx sx) = (v, csr.withX e (sx ||| g))

/-- What the two have in common: nobody reads the exceptions. -/
def Adds (c : Csr → α × Csr) : Prop :=
  ∀ csr : Csr, ∃ v, ∃ e : BitVec 5 → BitVec 5, ∃ g, ∀ cx sx,
    c (csr.withX cx sx) = (v, csr.withX (e cx) (sx ||| g))

/-! ## Rules -/

/-- What comes first counts for nothing if the next operation clears the causes. -/
lemma Adds.bind (hc : Adds c) (hk : ∀ v, Fresh (k v)) : Fresh (fun csr => andThen (c csr) k) := by
  intro csr
  obtain ⟨v, e, g, hv⟩ := hc csr
  obtain ⟨w, e', g', hw⟩ := hk v csr
  refine ⟨w, e', g ||| g', fun cx sx => ?_⟩
  show andThen (c (csr.withX cx sx)) k = _
  rw [hv, ← BitVec.or_assoc]
  exact hw (e cx) (sx ||| g)

namespace Raises

lemma pure (v : α) : Raises (fun csr => (v, csr)) := by
  intro csr
  exact ⟨v, 0, 0, fun cx sx => by simp⟩

/-- Raising one exception. -/
lemma raise (v : α) (x : BitVec 5) : Raises (fun csr => (v, csr.setCx x)) := by
  intro csr
  exact ⟨v, x, x, fun cx sx => rfl⟩

/-- A function may look at what nobody but `ctc1` changes. -/
lemma ofControl {c : Bool → Bool → BitVec 5 → RoundingMode → Csr → α × Csr}
    (h : ∀ noq nod mx rm, Raises (c noq nod mx rm)) :
    Raises (fun csr => c csr.noq csr.nod csr.mx csr.rm csr) := by
  intro csr
  exact h csr.noq csr.nod csr.mx csr.rm csr

lemma setCx (h : Raises c) (x : BitVec 5) : Raises (fun csr => c (csr.setCx x)) := by
  intro csr
  obtain ⟨v, e, g, hc⟩ := h csr
  refine ⟨v, x ||| e, x ||| g, fun cx sx => ?_⟩
  rw [← BitVec.or_assoc, ← BitVec.or_assoc]
  exact hc (cx ||| x) (sx ||| x)

lemma ite {p : Prop} [Decidable p] (hc : Raises c) (hd : Raises d) :
    Raises (fun csr => if p then c csr else d csr) := by
  by_cases hp : p
  · simpa only [hp, if_true] using hc
  · simpa only [hp, if_false] using hd

/-- An operation that clears the causes and then only raises some. -/
lemma fresh (h : Raises c) : Fresh (fun csr => c csr.clearCx) := by
  intro csr
  obtain ⟨v, e, g, hc⟩ := h csr
  refine ⟨v, e, g, fun cx sx => ?_⟩
  have hclear := hc 0 sx
  rw [show 0 ||| e = e from BitVec.zero_or] at hclear
  exact hclear

lemma adds (h : Raises c) : Adds c := by
  intro csr
  obtain ⟨v, e, g, hv⟩ := h csr
  exact ⟨v, (· ||| e), g, hv⟩

end Raises

namespace Fresh

lemma pure (v : α) : Fresh (fun csr => (v, csr.clearCx)) := (Raises.pure v).fresh

/-- Clearing the causes and raising one exception. -/
lemma raise (v : α) (x : BitVec 5) : Fresh (fun csr => (v, csr.clearCx.setCx x)) :=
  (Raises.raise v x).fresh

lemma ite {p : Prop} [Decidable p] (hc : Fresh c) (hd : Fresh d) :
    Fresh (fun csr => if p then c csr else d csr) := by
  by_cases hp : p
  · simpa only [hp, if_true] using hc
  · simpa only [hp, if_false] using hd

lemma adds (h : Fresh c) : Adds c := by
  intro csr
  obtain ⟨v, e, g, hv⟩ := h csr
  exact ⟨v, fun _ => e, g, hv⟩

/-- Two operations in a row: the causes are those of the second. -/
lemma bind (hc : Fresh c) (hk : ∀ v, Fresh (k v)) : Fresh (fun csr => andThen (c csr) k) :=
  hc.adds.bind hk

lemma map (h : Fresh c) (g : α → β) : Fresh (fun csr => (g (c csr).1, (c csr).2)) := by
  intro csr
  obtain ⟨v, e, e', hv⟩ := h csr
  refine ⟨g v, e, e', fun cx sx => ?_⟩
  show (g (c (csr.withX cx sx)).1, (c (csr.withX cx sx)).2) = _
  rw [hv]

end Fresh

/-! ## Formatting -/

/-- Packing raises overflow or underflow. -/
lemma raises_pack (sn : Bool) (xe : ℤ) (xm : ℕ) :
    Raises (fun csr => (pack csr sn xe xm : Fp f × Csr)) := by
  apply Raises.ite
  · exact Raises.ofControl (c := fun _ _ _ rm csr => (overflowValue rm sn, csr.setCx overflow))
      fun _ _ _ _ => .raise _ _
  · exact .ite (.raise _ _) (.pure _)

/-- Rounding raises inexact, and overflow or underflow. -/
lemma raises_roundPack (sn : Bool) (xe : ℤ) (xm : ℕ) :
    Raises (fun csr => (roundPack csr sn xe xm : Fp f × Csr)) := by
  apply Raises.ite
  · -- the mode decides what is added, then the sum is packed
    exact (Raises.ofControl (c := fun _ _ _ rm csr =>
      if roundMant rm sn xm >>> (f.mbits + 3 + 1) ≠ 0 then
        pack csr sn (xe + 1) (roundMant rm sn xm >>> 1)
      else pack csr sn xe (roundMant rm sn xm))
      fun _ _ _ _ => .ite (raises_pack _ _ _) (raises_pack _ _ _)).setCx inexact
  · exact raises_pack sn xe xm

lemma raises_format (sn : Bool) (xe : ℤ) (xm : ℕ) :
    Raises (fun csr => (format csr sn xe xm : Fp f × Csr)) := by
  apply Raises.ite
  · exact Raises.ofControl (c := fun _ nod _ _ csr =>
      if nod then (Fp.zero sn, csr.setCx underflow)
      else roundPack csr sn f.emin (xsrs f xm (f.emin - xe).toNat))
      fun _ _ _ _ => .ite (.raise _ _) (raises_roundPack _ _ _)
  · exact raises_roundPack sn xe xm

/-! ## NaN operands -/

/-- A signalling operand raises invalid. -/
lemma raises_nanxcpt (r : Fp f) : Raises (fun csr => nanxcpt csr r) :=
  Raises.ofControl (c := fun noq _ mx _ csr =>
    if !(noq || !r.mant.getLsbD (f.mbits - 1)) then (r, csr)
    else if mx &&& invalidOperation = 0 && !noq then
      ({ r with mant := r.mant ||| BitVec.ofNat f.mbits (mbit (f.mbits - 1)) },
        csr.setCx invalidOperation)
    else (r, csr.setCx invalidOperation))
    fun _ _ _ _ => .ite (.pure _) (.ite (.raise _ _) (.raise _ _))

/-! ## The four operations -/

/-- An exact zero has the sign the mode gives it. -/
lemma raises_zero : Raises (fun csr => ((Fp.zero (csr.rm = .rd), csr) : Fp f × Csr)) :=
  Raises.ofControl (c := fun _ _ _ rm csr => (Fp.zero (rm = .rd), csr)) fun _ _ _ _ => .pure _

/-- The sum of aligned mantissas raises only what its rounding does. -/
lemma raises_addAligned (xs ys : Bool) (xe : ℤ) (xm ym : ℕ) :
    Raises (fun csr => (addAligned csr xs ys xe xm ym : Fp f × Csr)) := by
  apply Raises.ite
  · exact .ite (raises_format _ _ _) (raises_format _ _ _)
  · by_cases hge : xm ≥ ym
    all_goals exact .ite raises_zero (raises_format _ _ _)

lemma raises_addNumbers (xs ys : Bool) (x y : ℕ × ℤ) :
    Raises (fun csr => (addNumbers csr xs ys x y : Fp f × Csr)) :=
  .ite (raises_addAligned _ _ _ _ _)
    (.ite (raises_addAligned _ _ _ _ _) (raises_addAligned _ _ _ _ _))

section Operations
variable (x y : Fp f)

/-- The arithmetic operations clear the causes before they raise their own. -/
lemma fresh_add : Fresh (fun csr => add csr x y) := by
  cases hx : (explode x).1 <;> cases hy : (explode y).1 <;> simp only [add, nanResult, hx, hy] <;>
    first
    | exact (raises_nanxcpt _).fresh
    | exact .pure _
    | exact .ite (.pure _) (.raise _ _)
    | exact .ite (.pure _) raises_zero.fresh
    | exact (raises_addNumbers _ _ _ _).fresh

lemma fresh_sub : Fresh (fun csr => sub csr x y) := by
  cases hx : (explode x).1 <;> cases hy : (explode y).1 <;> simp only [sub, nanResult, hx, hy] <;>
    first
    | exact (raises_nanxcpt _).fresh
    | exact .pure _
    | exact .ite (.pure _) (.raise _ _)
    | exact .ite (.pure _) raises_zero.fresh
    | exact (raises_addNumbers _ _ _ _).fresh

lemma fresh_mul : Fresh (fun csr => mul csr x y) := by
  cases hx : (explode x).1 <;> cases hy : (explode y).1 <;> simp only [mul, nanResult, hx, hy] <;>
    first
    | exact (raises_nanxcpt _).fresh
    | exact .pure _
    | exact .raise _ _
    | exact (Raises.ite (raises_format _ _ _) (raises_format _ _ _)).fresh

lemma fresh_div : Fresh (fun csr => div csr x y) := by
  cases hx : (explode x).1 <;> cases hy : (explode y).1 <;> simp only [div, nanResult, hx, hy] <;>
    first
    | exact (raises_nanxcpt _).fresh
    | exact .pure _
    | exact .raise _ _
    | exact (raises_format _ _ _).fresh

end Operations

/-! ## The other functions -/

section Functions

lemma fresh_neg (x : Fp f) : Fresh (fun csr => neg csr x) :=
  .ite (raises_nanxcpt x).fresh (.pure _)

lemma fresh_abs (x : Fp f) : Fresh (fun csr => abs csr x) :=
  .ite (raises_nanxcpt x).fresh (.pure _)

/-- A comparison raises invalid at most. -/
lemma fresh_cmp (x y : Fp f) (mask : BitVec 4) : Fresh (fun csr => cmp csr x y mask) :=
  .ite (.ite (.pure _) (.ite (.raise _ _) (.pure _))) (.ite (.pure _) (.ite (.pure _) (.pure _)))

/-- The conversion to an integer reads no mode. -/
lemma fresh_tint (x : Fp f) : Fresh (fun csr => tint csr x) := by
  rcases hx : explode x with ⟨c, xe, xm⟩
  cases c <;> simp only [tint, hx]
  case norm => exact .ite (.raise _ _) (.ite (.raise _ _) (.pure _))
  case zero => exact .pure _
  all_goals exact .raise _ _

lemma fresh_dpFint (x : BitVec 32) : Fresh (fun csr => dpFint csr x) := by
  cases hc : fintConst (f := dp) x <;> simp only [dpFint, hc] <;> exact .pure _

lemma fresh_spFint (x : BitVec 32) : Fresh (fun csr => spFint csr x) := by
  cases hc : fintConst (f := sp) x <;> simp only [spFint, hc]
  · exact (raises_format _ _ _).fresh
  · exact .pure _

/-- The conversion to double precision raises invalid at most. -/
lemma fresh_dpFsp (x : Fp sp) : Fresh (fun csr => dpFsp csr x) := by
  rcases hx : explode x with ⟨c, xe, xm⟩
  cases c <;> simp only [dpFsp, hx]
  case snan | qnan => exact (raises_nanxcpt _).fresh
  all_goals exact .pure _

lemma fresh_spFdp (x : Fp dp) : Fresh (fun csr => spFdp csr x) := by
  rcases hx : explode x with ⟨c, xe, xm⟩
  cases c <;> simp only [spFdp, hx]
  case snan | qnan => exact (raises_nanxcpt _).fresh
  case dnorm => exact .raise _ _
  case norm => exact (raises_format _ _ _).fresh
  all_goals exact .pure _

end Functions

/-! ## Square roots -/

/-- The square root in single precision does not clear the causes. -/
lemma raises_spSqrt (x : Fp sp) : Raises (fun csr => spSqrt csr x) := by
  apply Raises.ite (.pure _)
  apply Raises.ite (raises_nanxcpt _)
  exact Raises.ofControl (c := fun _ _ _ rm csr => (spSqrtNumber rm (spBits x).toNat, csr))
    fun _ _ _ _ => .pure _

/-- The approximation of the square root in double precision ends in an addition. -/
lemma fresh_dpSqrtApprox (x : Fp dp) : Fresh (fun csr => dpSqrtApprox csr x) := by
  unfold dpSqrtApprox
  apply Fresh.bind (fresh_div _ _)
  intro t
  apply Fresh.bind (fresh_add _ _)
  intro y
  apply Fresh.bind (fresh_mul _ _)
  intro z
  apply Fresh.bind (fresh_add _ _)
  intro t
  apply Fresh.bind (fresh_sub _ _)
  intro z
  apply Fresh.bind (fresh_mul _ _)
  intro z
  apply Fresh.bind (fresh_add _ _)
  intro t
  apply Fresh.bind (fresh_div _ _)
  intro t
  exact fresh_add _ _

/-- What is put into a field is what is read from it. -/
lemma cleared_or_and {n : Nat} (s g m : BitVec n) : (s &&& ~~~m ||| g) &&& m = g &&& m := by
  ext i hi
  simp only [BitVec.getElem_and, BitVec.getElem_or, BitVec.getElem_not]
  cases s[i] <;> cases g[i] <;> cases m[i] <;> rfl

/-- The last correction does not read the exception bits. -/
lemma dpSqrtChop_eq (rm : RoundingMode) (csr : Csr) (y t : Fp dp) :
    ∃ v, ∀ cx sx, dpSqrtChop rm (csr.withX cx sx) y t = v := by
  have hsum : ∀ y t : Fp dp, ∃ v, ∀ cx sx, (add (csr.withX cx sx) y t).1 = v := by
    intro y t
    obtain ⟨v, e, g, hv⟩ := fresh_add y t csr
    exact ⟨v, fun cx sx => congrArg Prod.fst (hv cx sx)⟩
  cases rm <;> exact hsum _ _

/-- The saved register comes back, perhaps with `IEEE754_INEXACT`; the register of the
approximation does not show. -/
lemma dpSqrtTwiddle_eq (oldcsr csr : Csr) (x y : Fp dp) (scalx : BitVec 32) :
    ∃ v e, ∀ ocx osx cx sx, dpSqrtTwiddle (oldcsr.withX ocx osx) (csr.withX cx sx) x y scalx =
      (v, oldcsr.withX (ocx ||| e) (osx ||| e)) := by
  -- the register of the chopped quotient
  let rz : Csr := { csr with rm := .rz }
  obtain ⟨t, e, g, hdiv⟩ := fresh_div x y rz
  obtain ⟨v, hv⟩ := dpSqrtChop_eq oldcsr.rm rz y (if g &&& inexact = 0 then addBits t (-1) else t)
  have hquot : ∀ ocx osx cx sx, dpSqrtTwiddle (oldcsr.withX ocx osx) (csr.withX cx sx) x y scalx =
      if g &&& inexact ≠ 0 ∨ t ≠ y then
        (addBexp v (scalx - 1), (oldcsr.withX ocx osx).setCx inexact)
      else (addBexp y scalx, oldcsr.withX ocx osx) := by
    intro ocx osx cx sx
    have hcall : div (rz.withX cx (sx &&& ~~~inexact)) x y =
        (t, rz.withX e (sx &&& ~~~inexact ||| g)) := hdiv cx (sx &&& ~~~inexact)
    have hflag : (rz.withX e (sx &&& ~~~inexact ||| g)).sx &&& inexact = g &&& inexact :=
      cleared_or_and sx g inexact
    unfold dpSqrtTwiddle
    change andThen (div (rz.withX cx (sx &&& ~~~inexact)) x y) _ = _
    rw [hcall, andThen, hflag, ← hv e (sx &&& ~~~inexact ||| g)]
    rfl
  by_cases hinexact : g &&& inexact ≠ 0 ∨ t ≠ y
  · exact ⟨addBexp v (scalx - 1), inexact, fun ocx osx cx sx => by
      rw [hquot, if_pos hinexact]
      rfl⟩
  · exact ⟨addBexp y scalx, 0, fun ocx osx cx sx => by
      rw [hquot, if_neg hinexact]
      simp⟩

lemma raises_dpSqrtNumber (xm : ℕ) (xe : ℤ) : Raises (fun csr => dpSqrtNumber csr xm xe) := by
  intro csr
  -- the register of the approximation
  let rn : Csr := { csr with mx := csr.mx &&& ~~~inexact, rm := .rn }
  let scaled : ℤ × BitVec 32 :=
    if xe > 512 then (xe - 512, 256) else if xe < -512 then (xe + 512, -256) else (xe, 0)
  let x : Fp dp := build false (scaled.1 + dp.ebias) (xm - hiddenBit dp)
  obtain ⟨y, e, g, happrox⟩ := fresh_dpSqrtApprox x rn
  obtain ⟨v, e', hv⟩ := dpSqrtTwiddle_eq csr rn x y scaled.2
  refine ⟨v, e', e', fun cx sx => ?_⟩
  have hcall : dpSqrtApprox (rn.withX cx (sx &&& ~~~inexact)) x =
      (y, rn.withX e (sx &&& ~~~inexact ||| g)) := happrox cx (sx &&& ~~~inexact)
  show andThen (dpSqrtApprox (rn.withX cx (sx &&& ~~~inexact)) x)
    (fun y csr' => dpSqrtTwiddle (csr.withX cx sx) csr' x y scaled.2) = _
  rw [hcall]
  exact hv cx sx e _

/-- Nor does the one in double precision. -/
lemma raises_dpSqrt (x : Fp dp) : Raises (fun csr => dpSqrt csr x) := by
  rcases hx : explode x with ⟨c, xe, xm⟩
  cases c <;> simp only [dpSqrt, hx]
  case snan | qnan => exact raises_nanxcpt _
  case zero => exact .pure _
  case inf => exact .ite (raises_nanxcpt _) (.pure _)
  case dnorm | norm => exact .ite (raises_nanxcpt _) (raises_dpSqrtNumber _ _)

end PsxLinux.MathEmu
