import PsxLinux.Vt.Screen

/-!
# The terminal emulator

`do_con_trol`, the state machine of the escape sequences, and the loop of `do_con_write` over the
bytes of a write. Colours and attributes, keyboard modes other than `lnm`, bells, answers to the
terminal and the blanking of the screen are left out. The translation tables and `conv_uni_to_pc` are
arguments of a write.
-/

namespace PsxLinux.Vt

/-- `LAT1_MAP`, `GRAF_MAP`, `IBMPC_MAP` and `USER_MAP` -/
inductive Charset
  | lat1
  | graf
  | ibmpc
  | user
deriving DecidableEq, Repr

/-- `vc_state` -/
inductive EscState
  | normal
  | esc
  | square
  | getpars
  | gotpars
  | funckey
  | hash
  | setG0
  | setG1
  | percent
  | ignore
  | nonstd
  | palette
deriving DecidableEq, Repr

/-- The parser of escape sequences. -/
structure Parser where
  state : EscState
  npar : Nat
  par : Nat → Nat
  ques : Bool

structure Modes where
  charset : Bool
  savedCharset : Bool
  dispCtrl : Bool
  toggleMeta : Bool
  decscnm : Bool
  decom : Bool
  decawm : Bool
  decim : Bool
  lnm : Bool
  utf : Bool
  utfCount : Nat
  utfChar : Nat
  translate : Charset
  g0Charset : Charset
  g1Charset : Charset
  savedG0 : Charset
  savedG1 : Charset
deriving DecidableEq, Repr

/-- The `vc_data` of a terminal. -/
structure Con where
  screen : Screen
  parser : Parser
  modes : Modes
  tabStop : Nat → Nat
  palette : Nat → Nat

namespace Con

/-! ## Helpers -/

def draw (v : Con) (f : Screen → Screen) : Con := { v with screen := f v.screen }

/-- Record an access. -/
def access (v : Con) (a : Access) : Con :=
  v.draw fun s => { s with log := a :: s.log }

def setState (v : Con) (state : EscState) : Con := { v with parser := { v.parser with state := state } }

/-- Write to `par` at a constant index. -/
def setPar (v : Con) (i value : Nat) : Con :=
  { v with parser := { v.parser with par := Function.update v.parser.par i (u32 value) } }

/-- `par` at a constant index -/
def arg (v : Con) (i : Nat) : Nat := v.parser.par i

/-- `if (!par[i]) par[i]++` -/
def atLeastOne (v : Con) (i : Nat) : Con := if v.arg i = 0 then v.setPar i 1 else v

/-- `if (par[i]) par[i]--` -/
def fromZero (v : Con) (i : Nat) : Con := if v.arg i ≠ 0 then v.setPar i (v.arg i - 1) else v

/-- The loops that clear `par` and `npar`. -/
def clearPars (v : Con) : Con :=
  { v with parser := { v.parser with
      npar := 0
      par := fun i => if i < nparMax then 0 else v.parser.par i } }

/-- `gotoxy`, for arguments of type `unsigned int` -/
def gotoxy (g : Geometry) (newX newY : Int) (v : Con) : Con :=
  v.draw fun s => s.gotoxy g v.modes.decom (s32 (u32 newX)) (s32 (u32 newY))

/-- `gotoxay`, for arguments of type `unsigned int` -/
def gotoxay (g : Geometry) (newX newY : Int) (v : Con) : Con :=
  v.draw fun s => s.gotoxay g v.modes.decom (s32 (u32 newX)) (s32 (u32 newY))

/-! ## Saved cursor and reset -/

def saveCur (v : Con) : Con :=
  { v with
    screen := { v.screen with savedX := v.screen.x, savedY := v.screen.y }
    modes := { v.modes with
      savedCharset := v.modes.charset
      savedG0 := v.modes.g0Charset
      savedG1 := v.modes.g1Charset } }

def restoreCur (g : Geometry) (v : Con) : Con :=
  let v := v.gotoxy g v.screen.savedX v.screen.savedY
  { v with
    screen := { v.screen with needWrap := false }
    modes := { v.modes with
      charset := v.modes.savedCharset
      g0Charset := v.modes.savedG0
      g1Charset := v.modes.savedG1
      translate := if v.modes.savedCharset then v.modes.savedG1 else v.modes.savedG0 } }

/-- `tab_stop` as `reset_terminal` sets it. -/
def defaultTabStop (i : Nat) : Nat := if i = 0 then 0x01010100 else 0x01010101

def resetTerminal (g : Geometry) (doClear : Bool) (v : Con) : Con :=
  let v : Con :=
    { v with
      screen := { v.screen with top := 0, bottom := g.lines, needWrap := false }
      parser := { v.parser with state := .normal, ques := false }
      modes := { v.modes with
        translate := .lat1
        g0Charset := .lat1
        g1Charset := .graf
        charset := false
        utf := false
        utfCount := 0
        dispCtrl := false
        toggleMeta := false
        decscnm := false
        decom := false
        decawm := true
        decim := false
        lnm := false }
      tabStop := defaultTabStop }
  let v := v.gotoxy g 0 0
  let v := v.saveCur
  if doClear then v.draw (·.csiJ g 2) else v

/-! ## Modes and attributes -/

/-- Mode `decscnm`; `invert_screen` goes over the whole buffer. -/
def setDecscnm (g : Geometry) (on : Bool) (v : Con) : Con :=
  if v.modes.decscnm ≠ on then
    ({ v with modes := { v.modes with decscnm := on } } : Con).draw
      (·.write g.origin (2 * (g.screenbufSize / 2)))
  else v

/-- The DEC private modes of `set_mode` -/
def setDecMode (g : Geometry) (on : Bool) (mode : Nat) (v : Con) : Con :=
  match mode with
  | 5 => v.setDecscnm g on
  | 6 => ({ v with modes := { v.modes with decom := on } } : Con).gotoxay g 0 0
  | 7 => { v with modes := { v.modes with decawm := on } }
  | _ => v

/-- The ANSI modes of `set_mode` -/
def setAnsiMode (on : Bool) (mode : Nat) (v : Con) : Con :=
  match mode with
  | 3 => { v with modes := { v.modes with dispCtrl := on } }
  | 4 => { v with modes := { v.modes with decim := on } }
  | 20 => { v with modes := { v.modes with lnm := on } }
  | _ => v

/-- The body of the loop of `set_mode`. -/
def setModeOne (g : Geometry) (on : Bool) (v : Con) (i : Nat) : Con :=
  let v := v.access (.par i)
  if v.parser.ques then v.setDecMode g on (v.parser.par i) else v.setAnsiMode on (v.parser.par i)

def setMode (g : Geometry) (on : Bool) (v : Con) : Con :=
  (List.range (v.parser.npar + 1)).foldl (setModeOne g on) v

/-- The body of the loop of `csi_m`; only the fonts matter here. -/
def csiMOne (v : Con) (i : Nat) : Con :=
  let v := v.access (.par i)
  match v.parser.par i with
  | 10 =>
    { v with modes := { v.modes with
        translate := if v.modes.charset then v.modes.g1Charset else v.modes.g0Charset
        dispCtrl := false
        toggleMeta := false } }
  | 11 =>
    { v with modes := { v.modes with translate := .ibmpc, dispCtrl := true, toggleMeta := false } }
  | 12 =>
    { v with modes := { v.modes with translate := .ibmpc, dispCtrl := true, toggleMeta := true } }
  | _ => v

def csim (v : Con) : Con := (List.range (v.parser.npar + 1)).foldl csiMOne v

/-! ## `do_con_trol` -/

/-- The search for the next tab stop. -/
def tabLoop (g : Geometry) : Nat → Con → Con
  | 0, v => if v.screen.x < g.columns - 1 then v.access .hang else v
  | fuel + 1, v =>
    if v.screen.x < g.columns - 1 then
      let v := v.draw fun s => { s with x := s.x + 1 }
      let v := v.access (.tabStop (v.screen.x / 32))
      if (v.tabStop (v.screen.x / 32)).testBit (v.screen.x % 32) then v else tabLoop g fuel v
    else v

/-- Control character 9 -/
def tab (g : Geometry) (v : Con) : Con :=
  let v := v.draw fun s => { s with pos := u32 (s.pos - 2 * s.x) }
  let v := tabLoop g g.columns v
  v.draw fun s => { s with pos := u32 (s.pos + 2 * s.x) }

/-- A tab stop at the cursor is set or cleared. -/
def putTabStop (v : Con) (f : Nat → Nat) : Con :=
  let i := v.screen.x / 32
  let v := v.access (.tabStop i)
  { v with tabStop := Function.update v.tabStop i (f (v.tabStop i)) }

/-- The state `ESesc` -/
def escape (g : Geometry) (c : Nat) (v : Con) : Con :=
  let v := v.setState .normal
  match c with
  | 91 => v.setState .square -- '['
  | 93 => v.setState .nonstd -- ']'
  | 37 => v.setState .percent -- '%'
  | 69 => (v.draw (·.cr)).draw (·.lf g) -- 'E'
  | 77 => v.draw (·.ri g) -- 'M'
  | 68 => v.draw (·.lf g) -- 'D'
  | 72 => v.putTabStop (· ||| 2 ^ (v.screen.x % 32)) -- 'H'
  | 55 => v.saveCur -- '7'
  | 56 => v.restoreCur g -- '8'
  | 40 => v.setState .setG0 -- '('
  | 41 => v.setState .setG1 -- ')'
  | 35 => v.setState .hash -- '#'
  | 99 => v.resetTerminal g true -- 'c'
  | _ => v

def isHex (c : Nat) : Bool := (48 ≤ c && c ≤ 57) || (65 ≤ c && c ≤ 70) || (97 ≤ c && c ≤ 102)

def hexValue (c : Nat) : Nat := if c > 57 then (c &&& 0xdf) - 65 + 10 else c - 48

/-- One byte of a palette entry. -/
def putPalette (v : Con) (i value : Nat) : Con :=
  let v := v.access (.palette i)
  { v with palette := Function.update v.palette i (value % 256) }

/-- `par[npar++]` gets a digit. -/
def pushDigit (c : Nat) (v : Con) : Con :=
  let i := v.parser.npar
  let v := v.access (.par i)
  { v with parser := { v.parser with
      par := Function.update v.parser.par i (hexValue c)
      npar := i + 1 } }

/-- The seven digits are a colour and its three components. -/
def storePalette (v : Con) : Con :=
  let i := v.arg 0 * 3
  let v := v.putPalette i (16 * v.arg 1 + v.arg 2)
  let v := v.putPalette (i + 1) (16 * v.arg 3 + v.arg 4)
  v.putPalette (i + 2) (16 * v.arg 5 + v.arg 6)

/-- The state `ESpalette` -/
def paletteDigit (c : Nat) (v : Con) : Con :=
  if isHex c then
    let v := v.pushDigit c
    if v.parser.npar = 7 then v.storePalette.setState .normal else v
  else v.setState .normal

/-- Final character `g`: clear the tab stop at the cursor, or all of them. -/
def csig (v : Con) : Con :=
  if v.arg 0 = 0 then v.putTabStop fun word => word &&& (4294967295 - 2 ^ (v.screen.x % 32))
  else if v.arg 0 = 3 then { v with tabStop := fun i => if i < 5 then 0 else v.tabStop i }
  else v

/-- Final character `r`: set the scrolling region. -/
def csir (g : Geometry) (v : Con) : Con :=
  let v := v.atLeastOne 0
  let v := if v.arg 1 = 0 then v.setPar 1 g.lines else v
  if v.arg 0 < v.arg 1 ∧ v.arg 1 ≤ g.lines then
    (v.draw fun s => { s with top := u32 (v.arg 0 - 1), bottom := v.arg 1 }).gotoxay g 0 0
  else v

/-- The second `switch` of `ESgotpars` -/
def csiFinal (g : Geometry) (c : Nat) (v : Con) : Con :=
  match c with
  | 71 | 96 => -- 'G', '`'
    let v := v.fromZero 0
    v.gotoxy g (v.arg 0) v.screen.y
  | 65 => -- 'A'
    let v := v.atLeastOne 0
    v.gotoxy g v.screen.x (v.screen.y - v.arg 0)
  | 66 | 101 => -- 'B', 'e'
    let v := v.atLeastOne 0
    v.gotoxy g v.screen.x (v.screen.y + v.arg 0)
  | 67 | 97 => -- 'C', 'a'
    let v := v.atLeastOne 0
    v.gotoxy g (v.screen.x + v.arg 0) v.screen.y
  | 68 => -- 'D'
    let v := v.atLeastOne 0
    v.gotoxy g (v.screen.x - v.arg 0) v.screen.y
  | 69 => -- 'E'
    let v := v.atLeastOne 0
    v.gotoxy g 0 (v.screen.y + v.arg 0)
  | 70 => -- 'F'
    let v := v.atLeastOne 0
    v.gotoxy g 0 (v.screen.y - v.arg 0)
  | 100 => -- 'd'
    let v := v.fromZero 0
    v.gotoxay g v.screen.x (v.arg 0)
  | 72 | 102 => -- 'H', 'f'
    let v := (v.fromZero 0).fromZero 1
    v.gotoxay g (v.arg 1) (v.arg 0)
  | 74 => v.draw (·.csiJ g (s32 (v.arg 0))) -- 'J'
  | 75 => v.draw (·.csiK g (s32 (v.arg 0))) -- 'K'
  | 76 => v.draw (·.csiL g (v.arg 0)) -- 'L'
  | 77 => v.draw (·.csiM g (v.arg 0)) -- 'M'
  | 80 => v.draw (·.csiP g (v.arg 0)) -- 'P'
  | 103 => v.csig -- 'g'
  | 109 => v.csim -- 'm'
  | 114 => v.csir g -- 'r'
  | 115 => v.saveCur -- 's'
  | 117 => v.restoreCur g -- 'u'
  | 88 => v.draw (·.csiX g (s32 (v.arg 0))) -- 'X'
  | 64 => v.draw (·.csiAt g (v.arg 0)) -- '@'
  | _ => v

/-- The state `ESgotpars` -/
def gotpars (g : Geometry) (c : Nat) (v : Con) : Con :=
  let v := v.setState .normal
  if c = 104 then v.setMode g true -- 'h'
  else if c = 108 then v.setMode g false -- 'l'
  else if c = 99 ∧ v.parser.ques then v -- 'c'
  else if c = 109 ∧ v.parser.ques then v -- 'm'
  else if c = 110 then v -- 'n'
  else if v.parser.ques then { v with parser := { v.parser with ques := false } }
  else v.csiFinal g c

/-- The state `ESgetpars` -/
def getpars (g : Geometry) (c : Nat) (v : Con) : Con :=
  if c = 59 ∧ v.parser.npar < nparMax - 1 then
    { v with parser := { v.parser with npar := v.parser.npar + 1 } }
  else if 48 ≤ c ∧ c ≤ 57 then
    let i := v.parser.npar
    let v := v.access (.par i)
    { v with parser := { v.parser with
        par := Function.update v.parser.par i (u32 (u32 (v.parser.par i * 10) + (c - 48))) } }
  else v.gotpars g c

/-- The state `ESsquare` -/
def square (g : Geometry) (c : Nat) (v : Con) : Con :=
  let v := v.clearPars.setState .getpars
  if c = 91 then v.setState .funckey
  else
    let v := { v with parser := { v.parser with ques := decide (c = 63) } }
    if c = 63 then v else v.getpars g c

/-- The character set that `ESsetG0` and `ESsetG1` select. -/
def selectCharset (c : Nat) (old : Charset) : Charset :=
  match c with
  | 48 => .graf
  | 66 => .lat1
  | 85 => .ibmpc
  | 75 => .user
  | _ => old

/-- The `switch` on the state. -/
def doState (g : Geometry) (c : Nat) (v : Con) : Con :=
  match v.parser.state with
  | .esc => v.escape g c
  | .nonstd =>
    if c = 80 then v.clearPars.setState .palette -- 'P'
    else v.setState .normal
  | .palette => v.paletteDigit c
  | .square => v.square g c
  | .getpars => v.getpars g c
  | .gotpars => v.gotpars g c
  | .percent =>
    let v := v.setState .normal
    if c = 64 then { v with modes := { v.modes with utf := false } } -- '@'
    else if c = 71 ∨ c = 56 then { v with modes := { v.modes with utf := true } } -- 'G', '8'
    else v
  | .funckey => v.setState .normal
  | .hash =>
    let v := v.setState .normal
    if c = 56 then v.draw (·.csiJ g 2) else v -- '8'
  | .setG0 =>
    let g0 := selectCharset c v.modes.g0Charset
    let v := { v with modes := { v.modes with
        g0Charset := g0
        translate := if v.modes.charset = false then g0 else v.modes.translate } }
    v.setState .normal
  | .setG1 =>
    let g1 := selectCharset c v.modes.g1Charset
    let v := { v with modes := { v.modes with
        g1Charset := g1
        translate := if v.modes.charset then g1 else v.modes.translate } }
    v.setState .normal
  | .normal | .ignore => v.setState .normal

def doConTrol (g : Geometry) (c : Nat) (v : Con) : Con :=
  match c with
  | 0 | 7 | 127 => v
  | 8 => v.draw (·.bs)
  | 9 => v.tab g
  | 10 | 11 | 12 =>
    let v := v.draw (·.lf g)
    if v.modes.lnm then v.draw (·.cr) else v
  | 13 => v.draw (·.cr)
  | 14 =>
    { v with modes := { v.modes with
        charset := true, translate := v.modes.g1Charset, dispCtrl := true } }
  | 15 =>
    { v with modes := { v.modes with
        charset := false, translate := v.modes.g0Charset, dispCtrl := false } }
  | 24 | 26 => v.setState .normal
  | 27 => v.setState .esc
  | 155 => v.setState .square
  | _ => v.doState g c

end Con

/-! ## `do_con_write` -/

/-- What a write finds: the translation tables, `conv_uni_to_pc`, and whether the font has 512
characters. -/
structure Env where
  table : Charset → Nat → Nat
  convUniToPc : Nat → Int
  himask : Bool

def ctrlAction : Nat := 0x0d00ff81

def ctrlAlways : Nat := 0x0800f501

/-- What becomes of a byte in UTF-8 mode. -/
inductive Utf
  /-- The character is complete. -/
  | char (c : Nat)
  /-- More bytes are needed, or the byte is ignored. -/
  | more (count char : Nat)
deriving DecidableEq, Repr

/-- The first byte of a character: the bytes to come and the bits it has. -/
def utfLead (c : Nat) (old : Nat) : Nat × Nat :=
  if c &&& 0xe0 = 0xc0 then (1, c &&& 0x1f)
  else if c &&& 0xf0 = 0xe0 then (2, c &&& 0x0f)
  else if c &&& 0xf8 = 0xf0 then (3, c &&& 0x07)
  else if c &&& 0xfc = 0xf8 then (4, c &&& 0x03)
  else if c &&& 0xfe = 0xfc then (5, c &&& 0x01)
  else (0, old)

/-- Combine UTF-8 into Unicode -/
def utfByte (m : Modes) (c : Nat) : Utf :=
  if c > 0x7f then
    if m.utfCount > 0 ∧ c &&& 0xc0 = 0x80 then
      let char := m.utfChar <<< 6 ||| (c &&& 0x3f)
      if m.utfCount - 1 = 0 then .char char else .more (m.utfCount - 1) char
    else .more (utfLead c m.utfChar).1 (utfLead c m.utfChar).2
  else .char c

namespace Con

/-- Whether the character is to be displayed. -/
def displayable (m : Modes) (c tc : Nat) : Bool :=
  tc ≠ 0 && (c ≥ 32 || (!m.utf && !(if m.dispCtrl then ctrlAlways else ctrlAction).testBit c)) &&
    (c ≠ 127 || m.dispCtrl) && c ≠ 155

/-- The place of a character in the font. -/
def glyph (env : Env) (c tc : Nat) : Int :=
  let found := env.convUniToPc tc
  if found = -4 then
    let replacement := env.convUniToPc 0xfffd
    if replacement = -4 then c else replacement
  else if found = -3 then c
  else found

/-- A character is written at the cursor. -/
def putChar (g : Geometry) (v : Con) : Con :=
  let v := if v.screen.needWrap then (v.draw (·.cr)).draw (·.lf g) else v
  let v := if v.modes.decim then v.draw (·.insertChar g 1) else v
  let v := v.draw fun s => s.write s.pos 2
  if v.screen.x = u32 (g.columns - 1) then v.draw fun s => { s with needWrap := v.modes.decawm }
  else v.draw fun s => { s with x := u32 (s.x + 1), pos := u32 (s.pos + 2) }

/-- What is done with a character once it is complete. -/
def putCode (g : Geometry) (env : Env) (c tc : Nat) (v : Con) : Con :=
  if v.parser.state = .normal ∧ displayable v.modes c tc then
    let tc := glyph env c tc
    if 0 ≤ tc ∧ tc ≤ (if env.himask then 0x1ff else 0xff) then v.putChar g else v
  else v.doConTrol g c

/-- One turn of the loop of `do_con_write` -/
def writeByte (g : Geometry) (env : Env) (v : Con) (byte : BitVec 8) : Con :=
  let c := byte.toNat
  if v.modes.utf then
    match utfByte v.modes c with
    | .more count char => { v with modes := { v.modes with utfCount := count, utfChar := char } }
    | .char char =>
      let v := { v with modes := { v.modes with
          utfCount := 0, utfChar := if c > 0x7f then char else v.modes.utfChar } }
      v.putCode g env char char
  else
    v.putCode g env c (env.table v.modes.translate (if v.modes.toggleMeta then c ||| 0x80 else c))

/-- `do_con_write`, for the bytes that are written before the terminal is stopped; `softcursor` says
that `hide_cursor` has a cursor to take away. -/
def doConWrite (g : Geometry) (env : Env) (softcursor : Bool) (buf : List (BitVec 8)) (v : Con) : Con :=
  let v := if softcursor then v.draw fun s => s.write s.pos 2 else v
  buf.foldl (writeByte g env) v

end Con
end PsxLinux.Vt
