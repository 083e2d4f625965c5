import PsxLinux.NTty.Canon
import Mathlib.Data.List.DropRight

/-!
# A terminal as a queue of lines

What canonical input is for: characters edit a line, a delimiter commits it, and a read takes bytes
of the oldest committed line. A character for which the buffer has no room is dropped; with echo, an
ordinary character, a newline and an end-of-line character leave one place free.
-/

namespace PsxLinux.NTty

open List

/-- What the line discipline does with a character. -/
inductive Kind
  | plain
  | edit (kind : Tty.KillType)
  | lnext
  | reprint
  | newline
  | eof
  | eol
deriving DecidableEq

/-- The meaning of a character, after a literal-next character or not. -/
def Termios.kind (T : Termios) (lnext : Bool) (c : Byte) : Kind :=
  if T.processCharMap c = false ∨ lnext then .plain
  else if c = T.eraseChar then .edit .erase
  else if c = T.killChar ∨ (c = T.weraseChar ∧ T.iexten) then
    if c = T.weraseChar then .edit .werase else .edit .kill
  else if c = T.lnextChar ∧ T.iexten then .lnext
  else if c = T.reprintChar ∧ T.echo ∧ T.iexten then .reprint
  else if c = newlineChar then .newline
  else if c = T.eofChar then .eof
  else if c = T.eolChar ∨ (c = T.eol2Char ∧ T.iexten) then .eol
  else .plain

/-- The places of the buffer that a character may use. -/
def Termios.room (T : Termios) : Kind → Nat
  | .plain | .eol => if T.echo then nTtyBufSize - 1 else nTtyBufSize
  | .newline => if T.echo || T.echonl then nTtyBufSize - 1 else nTtyBufSize
  | _ => nTtyBufSize

/-- A committed line, or what is left of it; the delimiter of an end of file is `__DISABLED_CHAR`. -/
structure Line where
  text : List Byte
  delim : Byte
deriving DecidableEq

/-- The bytes of a line that readers get. -/
def Line.bytes (l : Line) : List Byte := l.text ++ if l.delim ≠ disabledChar then [l.delim] else []

/-- A terminal: the committed lines that are not read yet and the line being edited. -/
structure Terminal where
  lines : List Line
  edited : List Byte
  lnext : Bool
deriving DecidableEq

namespace Terminal

def committed (a : Terminal) : Nat := (a.lines.map fun l => l.text.length + 1).sum

def size (a : Terminal) : Nat := a.committed + a.edited.length

/-- An edit of the line. -/
def edit (T : Termios) (line : List Byte) : Tty.KillType → List Byte
  | .erase => line.dropLast
  | .werase => (line.rdropWhile fun c => !T.wordChar c).rdropWhile T.wordChar
  | .kill => []

/-- Commit the edited line. -/
def commit (a : Terminal) (delim : Byte) : Terminal :=
  { a with
    lines := a.lines ++ [⟨a.edited, delim⟩]
    edited := [] }

/-- A received character, by what it means. -/
def receiveKind (T : Termios) (a : Terminal) (c : Byte) (k : Kind) : Terminal :=
  match k with
  | .plain =>
    if a.size < T.room .plain then { a with edited := a.edited ++ [c], lnext := false }
    else { a with lnext := false }
  | .edit kind => { a with edited := edit T a.edited kind }
  | .lnext => { a with lnext := true }
  | .reprint => a
  | .newline => if a.size < T.room .newline then a.commit c else a
  | .eof => if a.size < T.room .eof then a.commit disabledChar else a
  | .eol => if a.size < T.room .eol then a.commit c else a

/-- A received character. -/
def receive (T : Termios) (a : Terminal) (c : Byte) : Terminal :=
  a.receiveKind T c (T.kind a.lnext c)

/-- A read takes bytes of the oldest line; a line is gone when its delimiter is taken. -/
def read (a : Terminal) (nr : Nat) : Terminal × List Byte :=
  match a.lines with
  | [] => (a, [])
  | l :: ls =>
    if nr ≤ l.text.length then
      ({ a with lines := { l with text := l.text.drop nr } :: ls }, l.text.take nr)
    else ({ a with lines := ls }, l.bytes)

end Terminal

/-- A terminal with its past: every line that was committed, and what every pass of a read took. -/
structure Session where
  terminal : Terminal
  committed : List Line
  returned : List (List Byte)
deriving DecidableEq

namespace Session

def start : Session := ⟨⟨[], [], false⟩, [], []⟩

/-- One step of the terminal. -/
def step (T : Termios) (a : Session) : Act → Session
  | .receive c =>
    let t := a.terminal.receive T c
    { a with
      terminal := t
      committed := a.committed ++ t.lines.drop a.terminal.lines.length }
  | .read nr =>
    let r := a.terminal.read nr
    { a with
      terminal := r.1
      returned := a.returned ++ [r.2] }
  | .giveUp => { a with returned := a.returned ++ [[]] }

/-- Every committed line was returned by reads of its own, in order, up to what is still to be read:
the passes fall into one group for each line that is gone, and those of the oldest line left. -/
def Delivered (a : Session) : Prop :=
  ∃ groups : List (List (List Byte)), ∃ part : List (List Byte),
    a.returned = groups.flatten ++ part ∧
    match a.terminal.lines with
    | [] => a.committed.map Line.bytes = groups.map flatten ∧ part.flatten = []
    | l :: ls =>
      a.committed.map Line.bytes =
        groups.map flatten ++ (part.flatten ++ l.bytes) :: ls.map Line.bytes

end Session

namespace Terminal

variable {T : Termios} {a : Terminal} {c : Byte} {nr : Nat}

/-- A received character leaves the committed lines; at most it adds one. -/
lemma lines_receive : a.lines <+: (a.receive T c).lines := by
  unfold receive receiveKind
  split
  all_goals
    try split
    all_goals first
      | exact prefix_rfl
      | exact prefix_append _ _

end Terminal

namespace Session

variable {T : Termios} {a : Session}

lemma Delivered.pass_nil (h : a.Delivered) :
    Delivered { a with returned := a.returned ++ [[]] } := by
  obtain ⟨groups, part, hreturned, hlines⟩ := h
  refine ⟨groups, part ++ [[]], ?_, ?_⟩
  · rw [hreturned, append_assoc]
  · have hflat : (part ++ [[]]).flatten = part.flatten := by simp
    rw [hflat]
    exact hlines

lemma Delivered.commit (h : a.Delivered) {t : Terminal} (ht : a.terminal.lines <+: t.lines) :
    Delivered { a with
      terminal := t
      committed := a.committed ++ t.lines.drop a.terminal.lines.length } := by
  obtain ⟨groups, part, hreturned, hlines⟩ := h
  obtain ⟨new, hnew⟩ := ht
  refine ⟨groups, part, hreturned, ?_⟩
  have hdrop : t.lines.drop a.terminal.lines.length = new := by rw [← hnew, drop_left]
  rw [hdrop, map_append]
  cases hold : a.terminal.lines with
  | nil =>
    rw [hold] at hlines hnew
    rw [← hnew, hlines.1, nil_append]
    cases new with
    | nil => exact ⟨append_nil _, hlines.2⟩
    | cons l ls =>
      rw [hlines.2]
      rfl
  | cons l ls =>
    rw [hold] at hlines hnew
    rw [← hnew]
    dsimp only [cons_append]
    rw [hlines, map_append, append_assoc, cons_append]

/-- A pass takes bytes of the oldest line only. -/
lemma Delivered.read (h : a.Delivered) (nr : Nat) : Delivered (a.step T (.read nr)) := by
  cases hold : a.terminal.lines with
  | nil =>
    have hread : a.step T (.read nr) = { a with returned := a.returned ++ [[]] } := by
      unfold step Terminal.read
      simp only [hold]
    rw [hread]
    exact h.pass_nil
  | cons l ls =>
    obtain ⟨groups, part, hreturned, hlines⟩ := h
    rw [hold] at hlines
    unfold step Terminal.read
    simp only [hold]
    by_cases hle : nr ≤ l.text.length
    · -- a part of the line: the pass joins those of this line
      rw [if_pos hle]
      refine ⟨groups, part ++ [l.text.take nr], by rw [hreturned, append_assoc], ?_⟩
      have hbytes : l.text.take nr ++ Line.bytes ⟨l.text.drop nr, l.delim⟩ = l.bytes := by
        unfold Line.bytes
        rw [← append_assoc, take_append_drop]
      dsimp only
      rw [hlines, flatten_append, flatten_singleton, append_assoc, hbytes]
    · -- the rest of the line: its group is complete
      rw [if_neg hle]
      refine ⟨groups ++ [part ++ [l.bytes]], [], ?_, ?_⟩
      · simp [hreturned]
      · rw [hlines]
        cases ls <;> simp

lemma Delivered.step (h : a.Delivered) (act : Act) : Delivered (a.step T act) := by
  cases act with
  | receive c => exact h.commit Terminal.lines_receive
  | read nr => exact h.read nr
  | giveUp => exact h.pass_nil

lemma delivered_start : start.Delivered := ⟨[], [], rfl, rfl, rfl⟩

end Session

end PsxLinux.NTty
