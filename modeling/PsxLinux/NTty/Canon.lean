import PsxLinux.Lib.Exec

/-!
# Canonical terminal input

`n_tty_receive_char` and `read_chan` of `drivers/char/n_tty.c` with `ICANON` set and `ISIG`, `IXON`
and the input-mapping flags off. The characters stand in the ring `read_buf`; the bitmap `read_flags`
marks the line delimiters, `canon_head` is behind the last of them, and `canon_data` counts them.

What is echoed, the columns and the throttling of the driver do not act on the ring and are left out.
A step is one received character or one pass of `read_chan` from `do_it_again` to the next jump there
or to the return; `TTY_DONT_FLIP` keeps received characters out of the copying loop of a pass.
-/

namespace PsxLinux.NTty

open Lib Function

abbrev Byte := BitVec 8

def nTtyBufSize : Nat := 4096

def disabledChar : Byte := 0

def newlineChar : Byte := 10

/-- The control characters and local modes that the line discipline reads. -/
structure Termios where
  eraseChar : Byte
  killChar : Byte
  eofChar : Byte
  eolChar : Byte
  eol2Char : Byte
  weraseChar : Byte
  lnextChar : Byte
  reprintChar : Byte
  echo : Bool
  echoe : Bool
  echok : Bool
  echoke : Bool
  echonl : Bool
  iexten : Bool
  /-- `isalnum` of `lib/ctype.c` -/
  isalnum : Byte → Bool

namespace Termios

/-- The bits of `process_char_map` that `n_tty_set_termios` sets. -/
def processCharMap (T : Termios) (c : Byte) : Bool :=
  c != disabledChar &&
    (c == T.eraseChar || c == T.killChar || c == T.eofChar || c == newlineChar || c == T.eolChar ||
      (T.iexten && (c == T.weraseChar || c == T.lnextChar || c == T.eol2Char ||
        (T.echo && c == T.reprintChar))))

/-- A character of a word, for `WERASE`. -/
def wordChar (T : Termios) (c : Byte) : Bool := T.isalnum c || c == 95

end Termios

/-- The part of `tty_struct` that holds the input; `push` is the bit `TTY_PUSH` of the flags. -/
structure Tty where
  readBuf : Nat → Byte
  readFlags : Nat → Bool
  readHead : Nat
  readTail : Nat
  readCnt : Nat
  canonHead : Nat
  canonData : Nat
  lnext : Bool
  push : Bool

namespace Tty

/-- After `n_tty_open`. -/
def opened : Tty := ⟨fun _ => 0, fun _ => false, 0, 0, 0, 0, 0, false, false⟩

def putTtyQueue (s : Tty) (c : Byte) : Tty :=
  if s.readCnt < nTtyBufSize then
    { s with
      readBuf := update s.readBuf s.readHead c
      readHead := (s.readHead + 1) % nTtyBufSize
      readCnt := s.readCnt + 1 }
  else s

/-- `(read_head - canon_head) & (N_TTY_BUF_SIZE - 1)` -/
def editLen (s : Tty) : Nat := (s.readHead + (nTtyBufSize - s.canonHead)) % nTtyBufSize

/-- The values of `kill_type`. -/
inductive KillType
  | erase
  | werase
  | kill
deriving DecidableEq

/-- Take back the last character. -/
def unput (s : Tty) : Tty :=
  { s with
    readHead := (s.readHead + (nTtyBufSize - 1)) % nTtyBufSize
    readCnt := s.readCnt - 1 }

/-- The loop of `eraser`; the first argument is `editLen`, which is zero when `read_head` has reached
`canon_head`. -/
def eraseLoop (T : Termios) (kind : KillType) : Nat → Bool → Tty → Tty
  | 0, _, s => s
  | n + 1, seenAlnums, s =>
    let c := s.readBuf ((s.readHead + (nTtyBufSize - 1)) % nTtyBufSize)
    if kind = .werase ∧ T.wordChar c = false ∧ seenAlnums then s
    else if kind = .erase then s.unput
    else eraseLoop T kind n (seenAlnums || (kind == .werase && T.wordChar c)) s.unput

/-- Forget the edited line at once. -/
def dropLine (s : Tty) : Tty :=
  { s with
    readCnt := s.readCnt - s.editLen
    readHead := s.canonHead }

def eraser (T : Termios) (s : Tty) (c : Byte) : Tty :=
  if s.readHead = s.canonHead then s
  else if c = T.eraseChar then eraseLoop T .erase s.editLen false s
  else if c = T.weraseChar then eraseLoop T .werase s.editLen false s
  else if T.echo = false then s.dropLine
  else if T.echok = false ∨ T.echoke = false ∨ T.echoe = false then s.dropLine
  else eraseLoop T .kill s.editLen false s

/-- The label `handle_newline`: the place at `read_head` is marked before the character is stored. -/
def handleNewline (s : Tty) (c : Byte) : Tty :=
  let t := ({ s with readFlags := update s.readFlags s.readHead true } : Tty).putTtyQueue c
  { t with
    canonHead := t.readHead
    canonData := t.canonData + 1 }

/-- An ordinary character: with `ECHO` one place of the ring stays free. -/
def receivePlain (T : Termios) (s : Tty) (c : Byte) : Tty :=
  if T.echo ∧ nTtyBufSize - 1 ≤ s.readCnt then s else s.putTtyQueue c

/-- `n_tty_receive_char` -/
def receiveChar (T : Termios) (s : Tty) (c : Byte) : Tty :=
  if T.processCharMap c = false ∨ s.lnext then
    receivePlain T { s with lnext := false } c
  else if c = T.eraseChar ∨ c = T.killChar ∨ (c = T.weraseChar ∧ T.iexten) then
    eraser T s c
  else if c = T.lnextChar ∧ T.iexten then
    { s with lnext := true }
  else if c = T.reprintChar ∧ T.echo ∧ T.iexten then
    s
  else if c = newlineChar then
    if (T.echo ∨ T.echonl) ∧ nTtyBufSize - 1 ≤ s.readCnt then s
    else s.handleNewline c
  else if c = T.eofChar then
    ({ s with push := s.push || s.canonHead != s.readHead } : Tty).handleNewline disabledChar
  else if c = T.eolChar ∨ (c = T.eol2Char ∧ T.iexten) then
    if T.echo ∧ nTtyBufSize - 1 ≤ s.readCnt then s
    else s.handleNewline c
  else
    receivePlain T s c

/-- Take the first character out of the ring: the mark of its place is cleared. -/
def takeChar (s : Tty) : Tty :=
  { s with
    readFlags := update s.readFlags s.readTail false
    readTail := (s.readTail + 1) % nTtyBufSize
    readCnt := s.readCnt - 1 }

/-- The copying loop of `read_chan`; the first argument is `read_cnt`, the second what is left of
`nr`. The result has the bytes copied. -/
def copyLine : Nat → Nat → Tty → Tty × List Byte
  | 0, _, s => (s, [])
  | _ + 1, 0, s => (s, [])
  | n + 1, nr + 1, s =>
    let c := s.readBuf s.readTail
    if s.readFlags s.readTail then
      ({ s.takeChar with canonData := s.canonData - 1 }, if c ≠ disabledChar then [c] else [])
    else
      let r := copyLine n nr s.takeChar
      (r.1, c :: r.2)

end Tty

/-- The end of a pass of `read_chan`. -/
inductive Event
  | returned (bytes : List Byte)
  /-- the jump to `do_it_again`: the pass copied nothing, and `TTY_PUSH` was set -/
  | again
deriving DecidableEq

/-- The bytes that the pass copied. -/
def Event.bytes : Event → List Byte
  | .returned bytes => bytes
  | .again => []

namespace Tty

/-- The end of `read_chan`; `nr` is what is left of it. -/
def endRead (s : Tty) (bytes : List Byte) (nr : Nat) : Tty × Event :=
  if bytes ≠ [] then (if nr ≠ 0 then { s with push := false } else s, .returned bytes)
  else ({ s with push := false }, if s.push then .again else .returned [])

/-- A pass of `read_chan`; `none` while it sleeps for input. -/
def readChan (s : Tty) (nr : Nat) : Option (Tty × Event) :=
  if nr = 0 then some (endRead s [] 0)
  else if s.canonData = 0 then none
  else
    let r := copyLine s.readCnt nr s
    some (endRead r.1 r.2 (nr - r.2.length))

end Tty

/-- What happens to the terminal; `giveUp` is the end of a wait by a signal, a hang-up or because of
`O_NONBLOCK`. -/
inductive Act
  | receive (c : Byte)
  | read (nr : Nat)
  | giveUp
deriving DecidableEq

/-- One step of the line discipline. -/
def step (T : Termios) (s : Tty) : Act → Option (Tty × List Event)
  | .receive c => some (s.receiveChar T c, [])
  | .read nr => (s.readChan nr).map fun r => (r.1, [r.2])
  | .giveUp => let r := s.endRead [] 0; some (r.1, [r.2])

end PsxLinux.NTty
