import PsxLinux.Lib.IeeeTables

/-!
# The soft-float library

`arch/mipsnommu/math-emu`: the bit fields of `ieee754.h`, `EXPLODEDP`/`EXPLODESP` of
`ieee754int.h`, `ieee754dp_format`/`ieee754sp_format`, and addition, subtraction, multiplication
and division. Each single precision function is the double precision one with other constants, so
each is written once over a `Format`. The mantissas are machine words of `wordBits` bits: a left
shift that can lose bits says so. `ieee754_csr` is passed along; `ieee754_xcpt` only prints.
-/

namespace PsxLinux.MathEmu

open Lib

/-! ## Formats and bit patterns -/

/-- The constants of a precision, `DP_MBITS`, `DP_EBIAS`, ... -/
structure Format where
  mbits : ℕ
  ebits : ℕ
  /-- the mantissas are `unsigned` or `unsigned long long` -/
  wordBits : ℕ
  /-- the pieces of a product are multiplied with this many bits -/
  halfBits : ℕ
  ebias : ℤ
  emin : ℤ
  emax : ℤ
  mbits_pos : 0 < mbits
  ebias_eq : ebias = emax
  emin_eq : emin = 1 - emax
  ebits_eq : 2 ^ ebits = 2 * emax + 2
  emax_pos : 0 < emax
  word_eq : wordBits = 2 * halfBits
  word_large : mbits + 5 ≤ wordBits

/-- Double precision. -/
def dp : Format where
  mbits := 52
  ebits := 11
  wordBits := 64
  halfBits := 32
  ebias := 1023
  emin := -1022
  emax := 1023
  mbits_pos := by decide
  ebias_eq := rfl
  emin_eq := rfl
  ebits_eq := rfl
  emax_pos := by decide
  word_eq := rfl
  word_large := by decide

/-- Single precision. -/
def sp : Format where
  mbits := 23
  ebits := 8
  wordBits := 32
  halfBits := 16
  ebias := 127
  emin := -126
  emax := 127
  mbits_pos := by decide
  ebias_eq := rfl
  emin_eq := rfl
  ebits_eq := rfl
  emax_pos := by decide
  word_eq := rfl
  word_large := by decide

/-- `ieee754dp`, `ieee754sp`: the `parts` of the union. -/
structure Fp (f : Format) where
  sign : Bool
  bexp : BitVec f.ebits
  mant : BitVec f.mbits
deriving DecidableEq

variable {f : Format}

/-- `builddp (s, bx, m)` -/
def build (s : Bool) (bx : ℤ) (m : ℕ) : Fp f :=
  { sign := s, bexp := BitVec.ofInt f.ebits bx, mant := BitVec.ofNat f.mbits m }

/-- `ieee754dp_zero (sn)` -/
def Fp.zero (sn : Bool) : Fp f := build sn (f.emin - 1 + f.ebias) 0
/-- `ieee754dp_inf (sn)` -/
def Fp.inf (sn : Bool) : Fp f := build sn (f.emax + 1 + f.ebias) 0
/-- `ieee754dp_indef ()` -/
def Fp.indef : Fp f := build false (f.emax + 1 + f.ebias) (2 ^ (f.mbits - 2))
/-- `ieee754dp_max (sn)` -/
def Fp.max (sn : Bool) : Fp f := build sn (f.emax + f.ebias) (2 ^ f.mbits - 1)

/-- `IEEE754_CLASS_*` -/
inductive Class where
  | norm
  | zero
  | dnorm
  | inf
  | snan
  | qnan
deriving DecidableEq

/-- `DP_MBIT (x)` -/
def mbit (x : ℕ) : ℕ := 2 ^ x

/-- `DP_HIDDEN_BIT` -/
def hiddenBit (f : Format) : ℕ := mbit f.mbits

/-- `EXPLODEDP (v, vc, vs, ve, vm)` without the sign: class, exponent and mantissa. -/
def explode (v : Fp f) : Class × ℤ × ℕ :=
  let ve : ℤ := v.bexp.toNat
  let vm := v.mant.toNat
  if ve = f.emax + 1 + f.ebias then
    (if vm = 0 then .inf else if v.mant.getLsbD (f.mbits - 1) then .qnan else .snan, ve, vm)
  else if ve = f.emin - 1 + f.ebias then
    if vm ≠ 0 then (.dnorm, f.emin, vm) else (.zero, ve, vm)
  else (.norm, ve - f.ebias, vm ||| hiddenBit f)

/-! ## The control and status register -/

/-- `IEEE754_INEXACT` -/
def inexact : BitVec 5 := 0x01
/-- `IEEE754_UNDERFLOW` -/
def underflow : BitVec 5 := 0x02
/-- `IEEE754_OVERFLOW` -/
def overflow : BitVec 5 := 0x04
/-- `IEEE754_ZERO_DIVIDE` -/
def zeroDivide : BitVec 5 := 0x08
/-- `IEEE754_INVALID_OPERATION` -/
def invalidOperation : BitVec 5 := 0x10

/-- `struct ieee754_csr` -/
structure Csr where
  noq : Bool
  nod : Bool
  cx : BitVec 5
  mx : BitVec 5
  sx : BitVec 5
  rm : RoundingMode

/-- `ieee754_csr` at boot: zero, and 0 is `IEEE754_RN`. -/
def Csr.boot : Csr := { noq := false, nod := false, cx := 0, mx := 0, sx := 0, rm := .rn }

def Csr.clearCx (csr : Csr) : Csr := { csr with cx := 0 }

def Csr.setCx (csr : Csr) (x : BitVec 5) : Csr := { csr with cx := csr.cx ||| x, sx := csr.sx ||| x }

/-! ## Machine words -/

def shl (f : Format) (v n : ℕ) : ℕ := (v <<< n) % 2 ^ f.wordBits

def ofBool (b : Bool) : ℕ := if b then 1 else 0

/-- `XDPSRS (v, rs)`: sticky right shift of a mantissa with three extra bits. -/
def xsrs (f : Format) (v rs : ℕ) : ℕ :=
  if rs > f.mbits + 3 then 1
  else v >>> rs ||| ofBool (shl f v (f.wordBits - rs) != 0)

/-- `XDPSRS1 (v)` -/
def xsrs1 (v : ℕ) : ℕ := v >>> 1 ||| (v &&& 1)

/-- `while ((m >> n) == 0) { m <<= 1; e--; }`, for at most as many turns as a word has bits. -/
def normLoop (f : Format) (n : ℕ) : ℕ → ℕ → ℤ → ℕ × ℤ
  | 0, m, e => (m, e)
  | fuel + 1, m, e => if m >>> n = 0 then normLoop f n fuel (shl f m 1) (e - 1) else (m, e)

/-- `while ((m >> n) == 0) { m <<= 1; e--; }` -/
def normalize (f : Format) (n m : ℕ) (e : ℤ) : ℕ × ℤ := normLoop f n f.wordBits m e

/-! ## Rounding -/

/-- The rounding step of `ieee754dp_format` on an inexact mantissa. -/
def roundMant (rm : RoundingMode) (sn : Bool) (xm : ℕ) : ℕ :=
  match rm with
  | .rz => xm
  | .rn => xm + (0x3 + ((xm >>> 3) &&& 1))
  | .ru => if !sn then xm + 0x8 else xm
  | .rd => if sn then xm + 0x8 else xm

/-- What `ieee754dp_format` returns on overflow. -/
def overflowValue (rm : RoundingMode) (sn : Bool) : Fp f :=
  match rm with
  | .rn => Fp.inf sn
  | .rz => Fp.max sn
  | .ru => if sn = false then Fp.inf false else Fp.max true
  | .rd => if sn = false then Fp.max false else Fp.inf true

/-- The end of `ieee754dp_format`, from `strip grs bits` on. -/
def pack (csr : Csr) (sn : Bool) (xe : ℤ) (xm : ℕ) : Fp f × Csr :=
  let xm := xm >>> 3
  if xe > f.emax then (overflowValue csr.rm sn, csr.setCx overflow)
  else if xm &&& hiddenBit f = 0 then
    (build sn (f.emin - 1 + f.ebias) xm, csr.setCx underflow)
  else
    -- the bit is set: `xm & ~DP_HIDDEN_BIT`
    (build sn (xe + f.ebias) (xm - hiddenBit f), csr)

/-- `ieee754dp_format` with an exponent that is not below `DP_EMIN`. -/
def roundPack (csr : Csr) (sn : Bool) (xe : ℤ) (xm : ℕ) : Fp f × Csr :=
  if xm &&& (mbit 3 - 1) ≠ 0 then
    let csr := csr.setCx inexact
    let xm := roundMant csr.rm sn xm
    -- the addition may carry into a new bit
    if xm >>> (f.mbits + 3 + 1) ≠ 0 then pack csr sn (xe + 1) (xm >>> 1) else pack csr sn xe xm
  else pack csr sn xe xm

/-- `ieee754dp_format (sn, xe, xm)` -/
def format (csr : Csr) (sn : Bool) (xe : ℤ) (xm : ℕ) : Fp f × Csr :=
  if xe < f.emin then
    if csr.nod then (Fp.zero sn, csr.setCx underflow)
    else roundPack csr sn f.emin (xsrs f xm (f.emin - xe).toNat)
  else roundPack csr sn xe xm

/-! ## NaN operands -/

/-- `ieee754dp_issnan (x)` -/
def issnan (csr : Csr) (x : Fp f) : Bool := csr.noq || !x.mant.getLsbD (f.mbits - 1)

/-- `ieee754dp_nanxcpt (r, op)` -/
def nanxcpt (csr : Csr) (r : Fp f) : Fp f × Csr :=
  if !issnan csr r then (r, csr)
  else
    let csr' := csr.setCx invalidOperation
    if csr.mx &&& invalidOperation = 0 && !csr.noq then
      ({ r with mant := r.mant ||| BitVec.ofNat f.mbits (mbit (f.mbits - 1)) }, csr')
    else (r, csr')

/-- `ieee754dp_bestnan (x, y)` -/
def bestnan (x y : Fp f) : Fp f := if x.mant > y.mant then x else y

/-- The first cases of the `switch` of every operation: an operand is a NaN. -/
def nanResult (csr : Csr) (x y : Fp f) : Option (Fp f × Csr) :=
  match (explode x).1, (explode y).1 with
  | .snan, .snan => some (nanxcpt csr (bestnan x y))
  | _, .snan => some (nanxcpt csr y)
  | .snan, _ => some (nanxcpt csr x)
  | .qnan, .qnan => some (bestnan x y, csr)
  | _, .qnan => some (y, csr)
  | .qnan, _ => some (x, csr)
  | _, _ => none

/-- Mantissa and exponent of an operand that is not zero, infinite or a NaN, after `DPDNORMX`. -/
def operand (x : Fp f) : ℕ × ℤ :=
  match explode x with
  | (.dnorm, xe, xm) => normalize f f.mbits xm xe
  | (_, xe, xm) => (xm, xe)

/-! ## Addition and subtraction -/

/-- `ieee754dp_add` with aligned mantissas. -/
def addAligned (csr : Csr) (xs ys : Bool) (xe : ℤ) (xm ym : ℕ) : Fp f × Csr :=
  if xs = ys then
    let xm := xm + ym
    if xm >>> (f.mbits + 1 + 3) ≠ 0 then format csr xs (xe + 1) (xsrs1 xm)
    else format csr xs xe xm
  else
    let (xs, xm) := if xm ≥ ym then (xs, xm - ym) else (ys, ym - xm)
    if xm = 0 then (Fp.zero (csr.rm = .rd), csr)
    else
      let (xm, xe) := normalize f (f.mbits + 3) xm xe
      format csr xs xe xm

/-- `ieee754dp_add` behind its `switch`: two numbers that are not zero. -/
def addNumbers (csr : Csr) (xs ys : Bool) (x y : ℕ × ℤ) : Fp f × Csr :=
  let (xm, xe) := x
  let (ym, ye) := y
  let xm := shl f xm 3
  let ym := shl f ym 3
  if xe > ye then addAligned csr xs ys xe xm (xsrs f ym (xe - ye).toNat)
  else if ye > xe then addAligned csr xs ys ye (xsrs f xm (ye - xe).toNat) ym
  else addAligned csr xs ys xe xm ym

/-- `ieee754dp_add (x, y)` -/
def add (csr : Csr) (x y : Fp f) : Fp f × Csr :=
  let csr := csr.clearCx
  match nanResult csr x y with
  | some r => r
  | none =>
    match (explode x).1, (explode y).1 with
    | .inf, .inf =>
      if x.sign = y.sign then (x, csr) else (Fp.indef, csr.setCx invalidOperation)
    | _, .inf => (y, csr)
    | .inf, _ => (x, csr)
    | .zero, .zero => if x.sign = y.sign then (x, csr) else (Fp.zero (csr.rm = .rd), csr)
    | _, .zero => (x, csr)
    | .zero, _ => (y, csr)
    | _, _ => addNumbers csr x.sign y.sign (operand x) (operand y)

/-- `ieee754dp_sub (x, y)` -/
def sub (csr : Csr) (x y : Fp f) : Fp f × Csr :=
  let csr := csr.clearCx
  match nanResult csr x y with
  | some r => r
  | none =>
    match (explode x).1, (explode y).1 with
    | .inf, .inf =>
      if x.sign ≠ y.sign then (x, csr) else (Fp.indef, csr.setCx invalidOperation)
    | _, .inf => (Fp.inf (!y.sign), csr)
    | .inf, _ => (x, csr)
    | .zero, .zero => if x.sign ≠ y.sign then (x, csr) else (Fp.zero (csr.rm = .rd), csr)
    | _, .zero => (x, csr)
    | .zero, _ => ({ y with sign := !y.sign }, csr)
    | _, _ => addNumbers csr x.sign (!y.sign) (operand x) (operand y)

/-! ## Multiplication -/

/-- One of the two middle products added to the 128-bit sum: `hrm`, `lrm`. -/
def addMiddle (f : Format) (hrm lrm t : ℕ) : ℕ × ℕ :=
  let sum := (lrm + shl f t f.halfBits) % 2 ^ f.wordBits
  let hrm := (hrm + ofBool (sum < lrm)) % 2 ^ f.wordBits
  ((hrm + t >>> f.halfBits) % 2 ^ f.wordBits, sum)

/-- The upper word of the product of two words, with stickiness: `rm`. -/
def mulWords (f : Format) (xm ym : ℕ) : ℕ :=
  let lxm := xm % 2 ^ f.halfBits
  let hxm := xm >>> f.halfBits
  let lym := ym % 2 ^ f.halfBits
  let hym := ym >>> f.halfBits
  let (hrm, lrm) := addMiddle f (hxm * hym) (lxm * lym) (lxm * hym)
  let (hrm, lrm) := addMiddle f hrm lrm (hxm * lym)
  hrm ||| ofBool (lrm != 0)

/-- `ieee754dp_mul` behind its `switch`. -/
def mulNumbers (csr : Csr) (rs : Bool) (x y : ℕ × ℤ) : Fp f × Csr :=
  let (xm, xe) := x
  let (ym, ye) := y
  let re := xe + ye
  let rm := mulWords f (shl f xm (f.wordBits - (f.mbits + 1))) (shl f ym (f.wordBits - (f.mbits + 1)))
  -- `(signed long long) rm < 0`
  if 2 ^ (f.wordBits - 1) ≤ rm then
    format csr rs (re + 1)
      (rm >>> (f.wordBits - (f.mbits + 1 + 3)) ||| ofBool (shl f rm (f.mbits + 1 + 3) != 0))
  else
    format csr rs re
      (rm >>> (f.wordBits - (f.mbits + 1 + 3 + 1)) ||| ofBool (shl f rm (f.mbits + 1 + 3 + 1) != 0))

/-- `ieee754dp_mul (x, y)` -/
def mul (csr : Csr) (x y : Fp f) : Fp f × Csr :=
  let csr := csr.clearCx
  match nanResult csr x y with
  | some r => r
  | none =>
    match (explode x).1, (explode y).1 with
    | .inf, .zero => (Fp.indef, csr.setCx invalidOperation)
    | .zero, .inf => (Fp.indef, csr.setCx invalidOperation)
    | _, .inf => (Fp.inf (x.sign ^^ y.sign), csr)
    | .inf, _ => (Fp.inf (x.sign ^^ y.sign), csr)
    | .zero, _ => (Fp.zero (x.sign ^^ y.sign), csr)
    | _, .zero => (Fp.zero (x.sign ^^ y.sign), csr)
    | _, _ => mulNumbers csr (x.sign ^^ y.sign) (operand x) (operand y)

/-! ## Division -/

/-- The loop of `ieee754dp_div` with `bm` running over `2 ^ (n - 1), ..., 1`: `xm`, `rm`. -/
def divLoop (f : Format) (ym : ℕ) : ℕ → ℕ → ℕ → ℕ × ℕ
  | 0, xm, rm => (xm, rm)
  | n + 1, xm, rm =>
    if xm ≥ ym then
      let xm := xm - ym
      let rm := rm ||| 2 ^ n
      if xm = 0 then (xm, rm) else divLoop f ym n (shl f xm 1) rm
    else divLoop f ym n (shl f xm 1) rm

/-- `ieee754dp_div` behind its `switch`. -/
def divNumbers (csr : Csr) (rs : Bool) (x y : ℕ × ℤ) : Fp f × Csr :=
  let (xm, xe) := x
  let (ym, ye) := y
  let (xm, rm) := divLoop f (shl f ym 3) (f.mbits + 3) (shl f xm 3) 0
  let rm := shl f rm 1
  let rm := if xm ≠ 0 then rm ||| 1 else rm
  let (rm, re) := normalize f (f.mbits + 3) rm (xe - ye)
  format csr rs re rm

/-- `ieee754dp_div (x, y)` -/
def div (csr : Csr) (x y : Fp f) : Fp f × Csr :=
  let csr := csr.clearCx
  match nanResult csr x y with
  | some r => r
  | none =>
    match (explode x).1, (explode y).1 with
    | .inf, .inf => (Fp.indef, csr.setCx invalidOperation)
    | _, .inf => (Fp.zero (x.sign ^^ y.sign), csr)
    | .inf, _ => (Fp.inf (x.sign ^^ y.sign), csr)
    | .zero, .zero => (Fp.indef, csr.setCx invalidOperation)
    | _, .zero => (Fp.inf (x.sign ^^ y.sign), csr.setCx zeroDivide)
    | .zero, _ => (Fp.zero (if x.sign = y.sign then false else true), csr)
    | _, _ => divNumbers csr (if x.sign = y.sign then false else true) (operand x) (operand y)

/-! ## The two precisions -/

def ieee754dpAdd : Csr → Fp dp → Fp dp → Fp dp × Csr := add
def ieee754dpSub : Csr → Fp dp → Fp dp → Fp dp × Csr := sub
def ieee754dpMul : Csr → Fp dp → Fp dp → Fp dp × Csr := mul
def ieee754dpDiv : Csr → Fp dp → Fp dp → Fp dp × Csr := div
def ieee754spAdd : Csr → Fp sp → Fp sp → Fp sp × Csr := add
def ieee754spSub : Csr → Fp sp → Fp sp → Fp sp × Csr := sub
def ieee754spMul : Csr → Fp sp → Fp sp → Fp sp × Csr := mul
def ieee754spDiv : Csr → Fp sp → Fp sp → Fp sp × Csr := div

end PsxLinux.MathEmu
