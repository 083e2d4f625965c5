import Mathlib.Algebra.Order.Ring.Int

/-!
# The screen of a virtual terminal

The functions that move the cursor and write to the screen buffer: `gotoxy`, `lf`, `ri`, `scrup`,
`scrdown`, `insert_char`, `delete_char` and the erase functions. Unsigned variables are numbers below
2^32 and signed ones integers, with the conversions between them written out. What the cells contain
is left out: every write is recorded with its address and its length in bytes.

The display driver does not scroll by itself. Its drawing functions are left out.
-/

namespace PsxLinux.Vt

/-- The value of an expression of type `unsigned int` or `unsigned long`. -/
def u32 (n : Int) : Nat := (n % 4294967296).toNat

/-- An unsigned value converted to `int`. -/
def s32 (n : Nat) : Int := if n < 2147483648 then n else n - 4294967296

/-- The size of the screen and the place of its buffer, which the terminal does not change. The
buffer is not at the null address and ends within the address space. -/
structure Geometry where
  columns : Nat
  lines : Nat
  origin : Nat
  columnsPos : 1 ≤ columns
  columnsMax : columns ≤ 160
  linesPos : 1 ≤ lines
  originPos : 2 ≤ origin
  fits : origin + lines * (2 * columns) < 4294967296

namespace Geometry

/-- `video_size_row` -/
def sizeRow (g : Geometry) : Nat := 2 * g.columns

def screenbufSize (g : Geometry) : Nat := g.lines * g.sizeRow

def scrEnd (g : Geometry) : Nat := g.origin + g.screenbufSize

end Geometry

/-- `NPAR` -/
def nparMax : Nat := 16

/-- An access that can go out of bounds. -/
inductive Access
  /-- Bytes written to the screen buffer. -/
  | screen (addr bytes : Nat)
  /-- An index of `tab_stop`. -/
  | tabStop (i : Nat)
  /-- An index of `par` that is not a constant. -/
  | par (i : Nat)
  /-- An index of `palette`. -/
  | palette (i : Nat)
  /-- A loop that has gone on for longer than a row. -/
  | hang
deriving DecidableEq, Repr

/-- The cursor, the scrolling region, the saved cursor, and what has been accessed. -/
structure Screen where
  x : Nat
  y : Nat
  pos : Nat
  top : Nat
  bottom : Nat
  needWrap : Bool
  savedX : Nat
  savedY : Nat
  log : List Access
deriving DecidableEq, Repr

namespace Screen

def write (s : Screen) (addr bytes : Nat) : Screen := { s with log := .screen addr bytes :: s.log }

/-! ## Scrolling -/

/-- The number of lines by which `scrup` and `scrdown` scroll. -/
def scrollLines (t b : Nat) (nr : Int) : Int :=
  if u32 (t + nr) ≥ b then s32 (u32 (b - t - 1)) else nr

def scrup (g : Geometry) (t b : Nat) (nr : Int) (s : Screen) : Screen :=
  let nr := scrollLines t b nr
  if b > g.lines ∨ t ≥ b ∨ nr < 1 then s
  else
    let d := u32 (g.origin + g.sizeRow * t)
    let rows := u32 (b - t - nr)
    (s.write d (u32 (rows * g.sizeRow))).write (u32 (d + 2 * (rows * g.columns)))
      (u32 (g.sizeRow * nr))

def scrdown (g : Geometry) (t b : Nat) (nr : Int) (s : Screen) : Screen :=
  let nr := scrollLines t b nr
  if b > g.lines ∨ t ≥ b ∨ nr < 1 then s
  else
    let start := u32 (g.origin + g.sizeRow * t)
    let step := u32 (g.columns * nr)
    let rows := u32 (b - t - nr)
    (s.write (u32 (start + 2 * step)) (u32 (rows * g.sizeRow))).write start (u32 (2 * step))

/-! ## The cursor -/

def gotoxy (g : Geometry) (decom : Bool) (newX newY : Int) (s : Screen) : Screen :=
  let x := if newX < 0 then 0 else if newX ≥ g.columns then g.columns - 1 else newX.toNat
  let minY : Int := if decom then s32 s.top else 0
  let maxY : Int := if decom then s32 s.bottom else s32 g.lines
  let y := u32 (if newY < minY then minY else if newY ≥ maxY then maxY - 1 else newY)
  { s with
    x := x
    y := y
    pos := u32 (g.origin + y * g.sizeRow + 2 * x)
    needWrap := false }

def gotoxay (g : Geometry) (decom : Bool) (newX newY : Int) (s : Screen) : Screen :=
  s.gotoxy g decom newX (if decom then s32 (u32 (s.top + newY)) else newY)

def lf (g : Geometry) (s : Screen) : Screen :=
  let s :=
    if u32 (s.y + 1) = s.bottom then s.scrup g s.top s.bottom 1
    else if s.y < u32 (g.lines - 1) then
      { s with y := u32 (s.y + 1), pos := u32 (s.pos + g.sizeRow) }
    else s
  { s with needWrap := false }

def ri (g : Geometry) (s : Screen) : Screen :=
  let s :=
    if s.y = s.top then s.scrdown g s.top s.bottom 1
    else if s.y > 0 then { s with y := s.y - 1, pos := u32 (s.pos - g.sizeRow) }
    else s
  { s with needWrap := false }

def cr (s : Screen) : Screen :=
  { s with pos := u32 (s.pos - 2 * s.x), x := 0, needWrap := false }

def bs (s : Screen) : Screen :=
  if s.x ≠ 0 then { s with pos := u32 (s.pos - 2), x := s.x - 1, needWrap := false } else s

/-! ## Erasing -/

def csiJ (g : Geometry) (vpar : Int) (s : Screen) : Screen :=
  if vpar = 0 then
    { s.write s.pos (u32 (2 * (u32 (g.scrEnd - s.pos) / 2))) with needWrap := false }
  else if vpar = 1 then
    { s.write g.origin (u32 (2 * (u32 (s.pos - g.origin) / 2 + 1))) with needWrap := false }
  else if vpar = 2 then
    { s.write g.origin (u32 (2 * (g.columns * g.lines))) with needWrap := false }
  else s

def csiK (g : Geometry) (vpar : Int) (s : Screen) : Screen :=
  if vpar = 0 then
    { s.write s.pos (u32 (2 * u32 (g.columns - s.x))) with needWrap := false }
  else if vpar = 1 then
    { s.write (u32 (s.pos - 2 * s.x)) (u32 (2 * (s.x + 1))) with needWrap := false }
  else if vpar = 2 then
    { s.write (u32 (s.pos - 2 * s.x)) (u32 (2 * g.columns)) with needWrap := false }
  else s

/-- `csi_X`; the comparison is one of unsigned values. -/
def csiX (g : Geometry) (vpar : Int) (s : Screen) : Screen :=
  let vpar := if vpar = 0 then vpar + 1 else vpar
  let count := if u32 vpar > u32 (g.columns - s.x) then u32 (g.columns - s.x) else u32 vpar
  { s.write s.pos (u32 (2 * count)) with needWrap := false }

/-! ## Insertion and deletion -/

/-- The loop of `insert_char`, from the address `p` down to `q`. -/
def insertLoop (q nr : Nat) : Nat → Nat → List Access → List Access
  | 0, _, log => .hang :: log
  | fuel + 1, p, log =>
    let p := u32 (p - 2)
    if p ≥ q then insertLoop q nr fuel p (.screen (u32 (p + 2 * nr)) 2 :: log) else log

def insertChar (g : Geometry) (nr : Nat) (s : Screen) : Screen :=
  let q := s.pos
  let p := u32 (q + 2 * g.columns - 2 * nr - 2 * s.x)
  let log := insertLoop q nr (g.columns + 1) p s.log
  { ({ s with log := log } : Screen).write q (u32 (nr * 2)) with needWrap := false }

/-- The loop of `delete_char`: the address it ends at and the log. -/
def deleteLoop (columns nr : Nat) : Nat → Nat → Nat → List Access → Nat × List Access
  | 0, _, p, log => (p, .hang :: log)
  | fuel + 1, i, p, log =>
    let i := u32 (i + 1)
    if i ≤ u32 (columns - nr) then deleteLoop columns nr fuel i (u32 (p + 2)) (.screen p 2 :: log)
    else (p, log)

def deleteChar (g : Geometry) (nr : Nat) (s : Screen) : Screen :=
  let r := deleteLoop g.columns nr (g.columns + 1) s.x s.pos s.log
  { ({ s with log := r.2 } : Screen).write r.1 (u32 (nr * 2)) with needWrap := false }

/-- The clipping of the parameter in `csi_at`, `csi_L`, `csi_P` and `csi_M`. -/
def clip (size place nr : Nat) : Nat :=
  if nr > u32 (size - place) then u32 (size - place) else if nr = 0 then 1 else nr

def insertLine (g : Geometry) (nr : Nat) (s : Screen) : Screen :=
  { s.scrdown g s.y s.bottom (s32 nr) with needWrap := false }

def deleteLine (g : Geometry) (nr : Nat) (s : Screen) : Screen :=
  { s.scrup g s.y s.bottom (s32 nr) with needWrap := false }

def csiAt (g : Geometry) (nr : Nat) (s : Screen) : Screen := s.insertChar g (clip g.columns s.x nr)

def csiL (g : Geometry) (nr : Nat) (s : Screen) : Screen := s.insertLine g (clip g.lines s.y nr)

def csiP (g : Geometry) (nr : Nat) (s : Screen) : Screen := s.deleteChar g (clip g.columns s.x nr)

def csiM (g : Geometry) (nr : Nat) (s : Screen) : Screen := s.deleteLine g (clip g.lines s.y nr)

end Screen
end PsxLinux.Vt
