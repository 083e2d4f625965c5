import PsxLinux.Lib.Exec

/-!
# The PlayStation text console

The screen that `drivers/video/psxcon.c` keeps for itself in `psxvga_scrbuf`, and the screen that
the console layer keeps in `vc_screenbuf`. The driver's rows lie on a ring: row `y` of the screen
is row `y + psxvga_bottom` of the buffer. What the console layer does to its own buffer around
each driver call (`scrup`, `scrdown`, `csi_J`, `insert_char`, ... in `drivers/char/console.c`) is
the meaning of the call.
-/

namespace PsxLinux.Psxcon

open Lib

/-- With or without `CONFIG_VT_CONSOLE_HIRES`. -/
inductive Build where
  | lores
  | hires
deriving DecidableEq

/-- `PSXVGA_VSCR_H` -/
def vscrH : ℕ := 21

/-- `PSXVGA_VSCR_W` -/
def vscrW : Build → ℕ
  | .lores => 37
  | .hires => 78

/-- One cell for each row and column: a character with its attribute above it. -/
abbrev Cells := ℕ → ℕ → ℕ

/-- The cells with one of them changed. -/
def setCell (cells : Cells) (y x val : ℕ) : Cells :=
  fun y' x' => if y' = y ∧ x' = x then val else cells y' x'

/-- The character of a cell. `print2` takes the low byte; 0 is blank. -/
def shown (val : ℕ) : ℕ := if val % 256 = 0 then 32 else val % 256

/-- The direction of a scroll, `SM_UP` and `SM_DOWN`. -/
inductive Dir where
  | up
  | down
deriving DecidableEq

/-- The calls of the console layer to the driver. -/
inductive Op where
  | clear (sy sx height width : ℕ)
  | putc (c : UInt16) (ypos xpos : ℕ)
  | putcs (s : List UInt16) (ypos xpos : ℕ)
  | scroll (t b : ℕ) (dir : Dir) (count : ℕ)
  | bmove (sy sx dy dx height width : ℕ)

/-! ## The driver -/

/-- `psxvga_scrbuf` and `psxvga_bottom` -/
structure Psxvga where
  scrbuf : Cells
  bottom : ℕ

/-- `psxvga_startup` -/
def Psxvga.startup : Psxvga := { scrbuf := fun _ _ => 0, bottom := 0 }

def psxvgaWritew2 (build : Build) (v : Psxvga) (val y x : ℕ) : Psxvga :=
  if y < vscrH ∧ x < vscrW build then
    let y := y + v.bottom
    let y := if y ≥ vscrH then y - vscrH else y
    { v with scrbuf := setCell v.scrbuf y x val }
  else v

/-- `psxvga_memsetw (sx, sy, c, count)`. The position does not change from one turn to the next. -/
def psxvgaMemsetw (build : Build) (v : Psxvga) (sx sy c : ℕ) : ℕ → Psxvga
  | 0 => v
  | count + 1 => psxvgaMemsetw build (psxvgaWritew2 build v c sy sx) sx sy c count

/-- The loop of `psxvga_clear`. `psxvga_memsetw` has `u16` arguments, and its second one is a row. -/
def clearRows (build : Build) (v : Psxvga) (sy sx width : ℕ) : ℕ → Psxvga
  | 0 => v
  | height + 1 =>
    let v := clearRows build v sy sx width height
    psxvgaMemsetw build v (sx % 2 ^ 16) ((sy + height) * vscrW build % 2 ^ 16) 32 width

def psxvgaClear (build : Build) (v : Psxvga) (sy sx height width : ℕ) : Psxvga :=
  if sy > vscrH then v else clearRows build v sy sx width height

def psxvgaPutcs (build : Build) (v : Psxvga) : List UInt16 → ℕ → ℕ → Psxvga
  | [], _, _ => v
  | c :: s, ypos, xpos => psxvgaPutcs build (psxvgaWritew2 build v c.toNat ypos xpos) s ypos (xpos + 1)

/-- The loop of `psxvga_scroll` that empties `count` rows of the buffer from row `y` on. -/
def scrollRows (build : Build) (buf : Cells) (y : ℕ) : ℕ → Cells
  | 0 => buf
  | count + 1 =>
    let y := if y ≥ vscrH then 0 else y
    scrollRows build (fun y' x => if y' = y ∧ x < vscrW build then 0 else buf y' x) (y + 1) count

/-- `psxvga_scroll (t, b, dir, count)`. The region is not looked at, and `SM_DOWN` is empty. -/
def psxvgaScroll (build : Build) (v : Psxvga) (dir : Dir) (count : ℕ) : Psxvga :=
  match dir with
  | .up =>
    let bottom := v.bottom + count
    { scrbuf := scrollRows build v.scrbuf v.bottom count
      bottom := if bottom ≥ vscrH then bottom - vscrH else bottom }
  | .down => v

/-- The driver's part of a call. The body of `psxvga_memmovew`, which `psxvga_bmove` calls, is
commented out. -/
def Psxvga.call (build : Build) (v : Psxvga) : Op → Psxvga
  | .clear sy sx height width => psxvgaClear build v sy sx height width
  | .putc c ypos xpos => psxvgaWritew2 build v c.toNat ypos xpos
  | .putcs s ypos xpos => psxvgaPutcs build v s ypos xpos
  | .scroll _ _ dir count => psxvgaScroll build v dir count
  | .bmove _ _ _ _ _ _ => v

def Psxvga.cell (v : Psxvga) (y x : ℕ) : ℕ := v.scrbuf ((y + v.bottom) % vscrH) x

/-! ## The console layer -/

/-- `video_erase_char`, a blank with an attribute. -/
def videoEraseChar (attr : ℕ) : ℕ := attr * 256 + 32

/-- The cells with a rectangle blanked. -/
def clearCells (attr : ℕ) (screen : Cells) (sy sx height width : ℕ) : Cells :=
  fun y x =>
    if sy ≤ y ∧ y < sy + height ∧ sx ≤ x ∧ x < sx + width then videoEraseChar attr else screen y x

/-- The cells with a string written into one row. -/
def putCells (screen : Cells) : List UInt16 → ℕ → ℕ → Cells
  | [], _, _ => screen
  | c :: s, ypos, xpos => putCells (setCell screen ypos xpos c.toNat) s ypos (xpos + 1)

/-- `scrup` behind its call of the driver: the rows of the region move up by `nr`. -/
def scrup (attr : ℕ) (screen : Cells) (t b nr : ℕ) : Cells :=
  fun y x =>
    if t ≤ y ∧ y < b - nr then screen (y + nr) x
    else if t ≤ y ∧ y < b then videoEraseChar attr
    else screen y x

/-- `scrdown` behind its call of the driver: the rows of the region move down by `nr`. -/
def scrdown (attr : ℕ) (screen : Cells) (t b nr : ℕ) : Cells :=
  fun y x =>
    if t + nr ≤ y ∧ y < b then screen (y - nr) x
    else if t ≤ y ∧ y < t + nr then videoEraseChar attr
    else screen y x

/-- The rectangle at `(sy, sx)` copied to `(dy, dx)`. -/
def moveCells (screen : Cells) (sy sx dy dx height width : ℕ) : Cells :=
  fun y x =>
    if dy ≤ y ∧ y < dy + height ∧ dx ≤ x ∧ x < dx + width then screen (sy + (y - dy)) (sx + (x - dx))
    else screen y x

/-- What a call means for the screen. -/
def screenCall (attr : ℕ) (screen : Cells) : Op → Cells
  | .clear sy sx height width => clearCells attr screen sy sx height width
  | .putc c ypos xpos => setCell screen ypos xpos c.toNat
  | .putcs s ypos xpos => putCells screen s ypos xpos
  | .scroll t b .up count => scrup attr screen t b count
  | .scroll t b .down count => scrdown attr screen t b count
  | .bmove sy sx dy dx height width => moveCells screen sy sx dy dx height width

/-! ## Both together -/

structure Sys where
  screen : Cells
  psxvga : Psxvga

/-- A blank screen on both sides. -/
def Sys.blank (attr : ℕ) : Sys :=
  { screen := fun _ _ => videoEraseChar attr, psxvga := Psxvga.startup }

def step (build : Build) (attr : ℕ) (s : Sys) (op : Op) : Option (Sys × List Empty) :=
  some ({ screen := screenCall attr s.screen op, psxvga := s.psxvga.call build op }, [])

/-- The call stays inside the screen. -/
def Inside (build : Build) : Op → Prop
  | .clear sy sx height width => sy + height ≤ vscrH ∧ sx + width ≤ vscrW build
  | .putc _ ypos xpos => ypos < vscrH ∧ xpos < vscrW build
  | .putcs s ypos xpos => ypos < vscrH ∧ xpos + s.length ≤ vscrW build
  | .scroll t b _ count => t < b ∧ b ≤ vscrH ∧ count ≤ b - t
  | .bmove sy sx dy dx height width => sy + height ≤ vscrH ∧ sx + width ≤ vscrW build ∧
      dy + height ≤ vscrH ∧ dx + width ≤ vscrW build

instance (build : Build) : (op : Op) → Decidable (Inside build op)
  | .clear .. | .putc .. | .putcs .. => inferInstanceAs (Decidable (_ ∧ _))
  | .scroll _ _ _ _ => inferInstanceAs (Decidable (_ ∧ _ ∧ _))
  | .bmove _ _ _ _ _ _ => inferInstanceAs (Decidable (_ ∧ _ ∧ _ ∧ _))

end PsxLinux.Psxcon
