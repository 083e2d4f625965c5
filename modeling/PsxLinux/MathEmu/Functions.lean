import PsxLinux.MathEmu.Ieee754

/-!
# The rest of the soft-float library

What the emulator calls beside the four operations: negation, absolute value, comparison, square
root, and the conversions between the formats and to and from integers. Where the two precisions
are written differently each has its own definition.
-/

namespace PsxLinux.MathEmu

open Lib

variable {f : Format}

/-! ## Bit patterns -/

/-- `ieee754dp_one (sn)` -/
def Fp.one (sn : Bool) : Fp f := build sn f.ebias 0
/-- `ieee754dp_ten (sn)` -/
def Fp.ten (sn : Bool) : Fp f := build sn (3 + f.ebias) (2 ^ (f.mbits - 2))

def Fp.bits (x : Fp f) : BitVec (1 + f.ebits + f.mbits) := BitVec.ofBool x.sign ++ x.bexp ++ x.mant

/-- The value whose `bits` are given. -/
def Fp.ofBits (b : BitVec (1 + f.ebits + f.mbits)) : Fp f where
  sign := b.getLsbD (f.ebits + f.mbits)
  bexp := b.extractLsb' f.mbits f.ebits
  mant := b.extractLsb' 0 f.mbits

/-- `x.bits` of a double. -/
def dpBits (x : Fp dp) : BitVec 64 := x.bits
/-- The double with these `bits`. -/
def dpOfBits (b : BitVec 64) : Fp dp := Fp.ofBits b
/-- `x.bits` of a single. -/
def spBits (x : Fp sp) : BitVec 32 := x.bits
def spOfBits (b : BitVec 32) : Fp sp := Fp.ofBits b

/-- `ieee754dp_isnan (x)` -/
def isnan (x : Fp f) : Bool :=
  match (explode x).1 with
  | .snan => true
  | .qnan => true
  | _ => false

/-- A library call and what follows it. -/
def andThen {α β : Type} (r : α × Csr) (k : α → Csr → β × Csr) : β × Csr := k r.1 r.2

/-! ## Sign operations -/

/-- `ieee754dp_neg (x)` -/
def neg (csr : Csr) (x : Fp f) : Fp f × Csr :=
  let csr := csr.clearCx
  if isnan x then nanxcpt csr x else ({ x with sign := !x.sign }, csr)

/-- `ieee754dp_abs (x)` -/
def abs (csr : Csr) (x : Fp f) : Fp f × Csr :=
  let csr := csr.clearCx
  if isnan x then nanxcpt csr x else ({ x with sign := false }, csr)

/-! ## Comparison -/

/-- `IEEE754_CLT` -/
def clt : BitVec 4 := 0x1
/-- `IEEE754_CEQ` -/
def ceq : BitVec 4 := 0x2
/-- `IEEE754_CGT` -/
def cgt : BitVec 4 := 0x4
/-- `IEEE754_CUN` -/
def cun : BitVec 4 := 0x8

/-- `if (vx < 0) vx = -vx ^ DP_SIGN_BIT;` -/
def ordered {w : ℕ} (vx : BitVec w) : BitVec w :=
  if vx.msb then -vx ^^^ BitVec.twoPow w (w - 1) else vx

/-- `ieee754dp_cmp (x, y, cmp)` -/
def cmp (csr : Csr) (x y : Fp f) (cmp : BitVec 4) : Bool × Csr :=
  let csr := csr.clearCx
  if isnan x || isnan y then
    if cmp &&& cun ≠ 0 then (true, csr)
    else if cmp &&& (clt ||| cgt) ≠ 0 then (false, csr.setCx invalidOperation)
    else (false, csr)
  else
    let vx := ordered x.bits
    let vy := ordered y.bits
    if vx.slt vy then (cmp &&& clt != 0, csr)
    else if vx = vy then (cmp &&& ceq != 0, csr)
    else (cmp &&& cgt != 0, csr)

/-! ## Integers -/

/-- `ieee754si_indef ()` -/
def siIndef : BitVec 32 := BitVec.intMin 32

/-- `ieee754dp_tint (x)` -/
def tint (csr : Csr) (x : Fp f) : BitVec 32 × Csr :=
  let csr := csr.clearCx
  match explode x with
  | (.snan, _, _) => (siIndef, csr.setCx invalidOperation)
  | (.qnan, _, _) => (siIndef, csr.setCx invalidOperation)
  | (.inf, _, _) => (siIndef, csr.setCx overflow)
  | (.zero, _, _) => (0, csr)
  | (.dnorm, _, _) => (0, csr.setCx underflow)
  | (.norm, xe, xm) =>
    if xe ≥ 31 then (siIndef, csr.setCx overflow)
    else if xe < 0 then (0, csr.setCx underflow)
    else
      let xm :=
        if xe > f.mbits then shl f xm (xe - f.mbits).toNat
        else if xe < f.mbits then xm >>> (f.mbits - xe).toNat
        else xm
      (if x.sign then -BitVec.ofNat 32 xm else BitVec.ofNat 32 xm, csr)

/-- The magnitude of an integer; the most negative one "can't be safely negated". -/
def magnitude {w : ℕ} (x : BitVec w) : ℕ :=
  if x.msb then if x = BitVec.intMin w then 2 ^ (w - 1) else (-x).toNat else x.toNat

/-- The first lines of `ieee754dp_fint`, `ieee754sp_fint` and the two `flong`. -/
def fintConst {w : ℕ} (x : BitVec w) : Option (Fp f) :=
  if x = 0 then some (Fp.zero false)
  else if x = 1 ∨ x = -1 then some (Fp.one x.msb)
  else if x = 10 ∨ x = -10 then some (Fp.ten x.msb)
  else none

/-- `ieee754dp_fint (x)` -/
def dpFint (csr : Csr) (x : BitVec 32) : Fp dp × Csr :=
  let csr := csr.clearCx
  match fintConst x with
  | some r => (r, csr)
  | none =>
    let (xm, xe) := normalize dp dp.mbits (magnitude x) dp.mbits
    -- the hidden bit is set: `xm & ~DP_HIDDEN_BIT`
    (build x.msb (xe + dp.ebias) (xm - hiddenBit dp), csr)

/-- `while (xm >> n) SPXSRSX1 ();`, for at most as many turns as a word has bits. -/
def shuntLoop (n : ℕ) : ℕ → ℕ → ℤ → ℕ × ℤ
  | 0, xm, xe => (xm, xe)
  | fuel + 1, xm, xe =>
    if xm >>> n ≠ 0 then shuntLoop n fuel (xsrs1 xm) (xe + 1) else (xm, xe)

/-- `ieee754sp_fint (x)` -/
def spFint (csr : Csr) (x : BitVec 32) : Fp sp × Csr :=
  let csr := csr.clearCx
  match fintConst x with
  | some r => (r, csr)
  | none =>
    let xm := magnitude x
    let xe : ℤ := sp.mbits + 3
    let (xm, xe) :=
      if xm >>> (sp.mbits + 1 + 3) ≠ 0 then shuntLoop (sp.mbits + 1 + 3) sp.wordBits xm xe
      else normalize sp (sp.mbits + 3) xm xe
    format csr x.msb xe xm

/-- `ieee754dp_flong (x)`, `ieee754sp_flong (x)`: the mantissa has 64 bits in both. -/
def flong (csr : Csr) (x : BitVec 64) : Fp f × Csr :=
  let csr := csr.clearCx
  match fintConst x with
  | some r => (r, csr)
  | none =>
    let xm := magnitude x
    let xe : ℤ := f.mbits + 3
    let (xm, xe) :=
      if xm >>> (f.mbits + 1 + 3) ≠ 0 then shuntLoop (f.mbits + 1 + 3) dp.wordBits xm xe
      else normalize dp (f.mbits + 3) xm xe
    format csr x.msb xe xm

/-! ## Between the formats -/

/-- `ieee754dp_fsp (x)` -/
def dpFsp (csr : Csr) (x : Fp sp) : Fp dp × Csr :=
  let csr := csr.clearCx
  let shift := dp.mbits - sp.mbits
  match explode x with
  | (.qnan, _, xm) => nanxcpt csr (build x.sign (dp.emax + 1 + dp.ebias) (xm <<< shift))
  | (.snan, _, xm) => nanxcpt csr (build x.sign (dp.emax + 1 + dp.ebias) (xm <<< shift))
  | (.inf, _, _) => (Fp.inf x.sign, csr)
  | (.zero, _, _) => (Fp.zero x.sign, csr)
  | (.dnorm, xe, xm) =>
    let (xm, xe) := normalize sp sp.mbits xm xe
    (build x.sign (xe + dp.ebias) ((xm - hiddenBit sp) <<< shift), csr)
  | (.norm, xe, xm) => (build x.sign (xe + dp.ebias) ((xm - hiddenBit sp) <<< shift), csr)

/-- `ieee754sp_fdp (x)` -/
def spFdp (csr : Csr) (x : Fp dp) : Fp sp × Csr :=
  let csr := csr.clearCx
  match explode x with
  | (.qnan, _, xm) =>
    nanxcpt csr (build x.sign (sp.emax + 1 + sp.ebias) (xm >>> (dp.mbits - sp.mbits)))
  | (.snan, _, xm) =>
    nanxcpt csr (build x.sign (sp.emax + 1 + sp.ebias) (xm >>> (dp.mbits - sp.mbits)))
  | (.inf, _, _) => (Fp.inf x.sign, csr)
  | (.zero, _, _) => (Fp.zero x.sign, csr)
  | (.dnorm, _, _) => (Fp.zero x.sign, csr.setCx underflow)
  | (.norm, xe, xm) =>
    let shift := dp.mbits - (sp.mbits + 3)
    let rm := xm >>> shift ||| ofBool (shl dp xm (64 - shift) != 0)
    format csr x.sign xe rm

/-! ## Square root -/

/-- `nan` of `dp_sqrt.c` and `sp_sqrt.c`, with a mantissa of zero. -/
def knan : Fp f := build false (f.ebias + f.emax + 1) 0

/-- `for (i = 0; (ix & 0x00800000) == 0; i++) ix <<= 1;` on a mantissa that is not zero. -/
def spSqrtNorm : ℕ → ℕ → ℕ → ℕ × ℕ
  | 0, ix, i => (ix, i)
  | fuel + 1, ix, i =>
    if ix &&& 0x00800000 = 0 then spSqrtNorm fuel (ix <<< 1) (i + 1) else (ix, i)

/-- The loop of `ieee754sp_sqrt` with `r` running over `2 ^ (n - 1), ..., 1`: `ix`, `q`. -/
def spSqrtLoop : ℕ → ℕ → ℕ → ℕ → ℕ × ℕ
  | 0, ix, _, q => (ix, q)
  | n + 1, ix, s, q =>
    let r := 2 ^ n
    let t := s + r
    if t ≤ ix then
      let ix := ix - t
      spSqrtLoop n (ix + ix) (t + r) (q + r)
    else spSqrtLoop n (ix + ix) s q

/-- `ieee754sp_sqrt` behind its `switch`: `ix` are the bits of a positive number. -/
def spSqrtNumber (rm : RoundingMode) (ix : ℕ) : Fp sp :=
  let m : ℤ := ix >>> 23
  let (ix, m) :=
    if m = 0 then
      let (ix, i) := spSqrtNorm 32 ix 0
      (ix, m - (i - 1))
    else (ix, m)
  let m := m - 127
  let ix := ix &&& 0x007fffff ||| 0x00800000
  let ix := if m % 2 ≠ 0 then ix + ix else ix
  let m := m / 2
  let (ix, q) := spSqrtLoop 25 (ix + ix) 0 0
  let q :=
    if ix ≠ 0 then
      match rm with
      | .ru => q + 2
      | .rn => q + (q &&& 1)
      | _ => q
    else q
  spOfBits (BitVec.ofInt 32 ((q >>> 1 : ℕ) + 0x3f000000 + m * 2 ^ 23))

/-- `ieee754sp_sqrt (x)`. It explodes its operand with the constants of double precision, so no
single is infinite or a NaN to it, and it leaves `cx` as it finds it. -/
def spSqrt (csr : Csr) (x : Fp sp) : Fp sp × Csr :=
  if x.bexp = 0 ∧ x.mant = 0 then (x, csr)
  else if x.sign then nanxcpt csr knan
  else (spSqrtNumber csr.rm (spBits x).toNat, csr)

/-- `table` of `dp_sqrt.c` -/
def sqrtTable : List (BitVec 32) :=
  [0, 1204, 3062, 5746, 9193, 13348, 18162, 23592,
   29598, 36145, 43202, 50740, 58733, 67158, 75992,
   85215, 83599, 71378, 60428, 50647, 41945, 34246,
   27478, 21581, 16499, 12183, 8588, 5674, 3403,
   1742, 661, 130]

/-- `x.parts.bexp += n` -/
def addBexp (x : Fp dp) (n : BitVec 32) : Fp dp := { x with bexp := x.bexp + n.setWidth dp.ebits }

def addBits (x : Fp dp) (n : BitVec 64) : Fp dp := dpOfBits (dpBits x + n)

/-- The "magic initial approximation" of `ieee754dp_sqrt`. -/
def dpSqrtGuess (x : Fp dp) : Fp dp :=
  let yh := (dpBits x).extractLsb' 32 32
  let yh := (yh >>> 1) + 0x1ff80000
  let yh := yh - sqrtTable.getD ((yh >>> 15) &&& 31).toNat 0
  dpOfBits (yh ++ (dpBits x).extractLsb' 0 32)

/-- The approximation of `ieee754dp_sqrt`, to "within 1 ulp". -/
def dpSqrtApprox (csr : Csr) (x : Fp dp) : Fp dp × Csr :=
  let y := dpSqrtGuess x
  -- Heron's rule once
  andThen (div csr x y) fun t csr =>
  andThen (add csr y t) fun y csr =>
  let y := dpOfBits ((dpBits y - 0x0010000600000000) &&& 0xffffffff00000000)
  -- `t = y * y; z = t; t += z; z = (x - z) * y`
  andThen (mul csr y y) fun z csr =>
  andThen (add csr (addBexp z 1) z) fun t csr =>
  andThen (sub csr x z) fun z csr =>
  andThen (mul csr z y) fun z csr =>
  -- `t = z / (t + x)`
  andThen (add csr t x) fun t csr =>
  andThen (div csr z t) fun t csr =>
  add csr y (addBexp t 1)

/-- "chopped sum": the last bit of `ieee754dp_sqrt` in the mode that was in force. -/
def dpSqrtChop (rm : RoundingMode) (csr : Csr) (y t : Fp dp) : Fp dp :=
  match rm with
  | .ru => (add csr (addBits y 1) (addBits t 1)).1
  | .rn => (add csr y (addBits t 1)).1
  | _ => (add csr y t).1

/-- The end of `ieee754dp_sqrt`, from `twiddle last bit` on; `oldcsr` is the saved register. -/
def dpSqrtTwiddle (oldcsr csr : Csr) (x y : Fp dp) (scalx : BitVec 32) : Fp dp × Csr :=
  let csr := { csr with rm := .rz, sx := csr.sx &&& ~~~inexact }
  andThen (div csr x y) fun t csr =>
  if csr.sx &&& inexact ≠ 0 ∨ t ≠ y then
    let t := if csr.sx &&& inexact = 0 then addBits t (-1) else t
    (addBexp (dpSqrtChop oldcsr.rm csr y t) (scalx - 1), oldcsr.setCx inexact)
  else (addBexp y scalx, oldcsr)

/-- `ieee754dp_sqrt` behind its `switch`: a positive number. -/
def dpSqrtNumber (csr : Csr) (xm : ℕ) (xe : ℤ) : Fp dp × Csr :=
  let oldcsr := csr
  let csr := { csr with mx := csr.mx &&& ~~~inexact, sx := csr.sx &&& ~~~inexact, rm := .rn }
  -- "adjust exponent to prevent overflow"
  let scaled : ℤ × BitVec 32 :=
    if xe > 512 then (xe - 512, 256) else if xe < -512 then (xe + 512, -256) else (xe, 0)
  let x : Fp dp := build false (scaled.1 + dp.ebias) (xm - hiddenBit dp)
  andThen (dpSqrtApprox csr x) fun y csr => dpSqrtTwiddle oldcsr csr x y scaled.2

/-- `ieee754dp_sqrt (x)`, which leaves `cx` as it finds it. -/
def dpSqrt (csr : Csr) (x : Fp dp) : Fp dp × Csr :=
  match explode x with
  | (.qnan, _, _) => nanxcpt csr x
  | (.snan, _, _) => nanxcpt csr x
  | (.zero, _, _) => (x, csr)
  | (.inf, _, _) => if x.sign then nanxcpt csr knan else (x, csr)
  | (.dnorm, xe, xm) =>
    let (xm, xe) := normalize dp dp.mbits xm xe
    if x.sign then nanxcpt csr knan else dpSqrtNumber csr xm xe
  | (.norm, xe, xm) => if x.sign then nanxcpt csr knan else dpSqrtNumber csr xm xe

end PsxLinux.MathEmu
