import PsxLinux.Lib.RingBuffer
import PsxLinux.NTty.Terminal

/-!
# The ring holds the lines

`Holds s a`: the ring of `s` holds the committed lines of the terminal `a`, each with its marked
delimiter, and behind them the edited line. Every operation of the line discipline keeps this, provided
that `read_head = canon_head` says that the edited line is empty and that a delimiter that is marked
is stored.
-/

namespace PsxLinux.NTty

open Lib RingBuffer Function List

lemma nTtyBufSize_pos : 0 < nTtyBufSize := by decide

/-! ### Cells -/

def Tty.cell (s : Tty) (i : Nat) : Byte × Bool := (s.readBuf i, s.readFlags i)

lemma cell_update (buf : Nat → Byte) (flags : Nat → Bool) (i : Nat) (c : Byte) (m : Bool) :
    (fun j => (update buf i c j, update flags i m j)) = update (fun j => (buf j, flags j)) i (c, m) := by
  funext j
  by_cases hj : j = i
  · simp [hj]
  · simp [hj]

def plainCell (c : Byte) : Byte × Bool := (c, false)

def Line.cells (l : Line) : List (Byte × Bool) := l.text.map plainCell ++ [(l.delim, true)]

namespace Terminal

def lineCells (a : Terminal) : List (Byte × Bool) := a.lines.flatMap Line.cells

def cells (a : Terminal) : List (Byte × Bool) := a.lineCells ++ a.edited.map plainCell

variable {a : Terminal}

@[simp] lemma length_lineCells : a.lineCells.length = a.committed := by
  unfold lineCells committed
  simp [Line.cells]

@[simp] lemma length_cells : a.cells.length = a.size := by
  simp [cells, size]

lemma committed_pos (h : a.lines ≠ []) : 0 < a.committed := by
  obtain ⟨l, ls, hcons⟩ := exists_cons_of_ne_nil h
  unfold committed
  rw [hcons, map_cons, sum_cons]
  omega

/-- A line is committed with its delimiter. -/
lemma lineCells_commit (delim : Byte) :
    (a.commit delim).lineCells = a.lineCells ++ a.edited.map plainCell ++ [(delim, true)] := by
  simp [commit, lineCells, Line.cells]

lemma cells_commit (delim : Byte) : (a.commit delim).cells = a.cells ++ [(delim, true)] := by
  unfold cells
  rw [lineCells_commit]
  simp [commit]

lemma committed_commit (delim : Byte) : (a.commit delim).committed = a.size + 1 := by
  rw [← length_lineCells, lineCells_commit]
  simp [size, Nat.add_assoc]

end Terminal

/-! ### The invariant -/

/-- The places of the ring agree with the terminal. -/
structure InRing (s : Tty) (a : Terminal) : Prop where
  tail : s.readTail < nTtyBufSize
  head : s.readHead = (s.readTail + s.readCnt) % nTtyBufSize
  canon : s.canonHead = (s.readTail + a.committed) % nTtyBufSize
  full : s.readCnt ≤ nTtyBufSize
  ring : contents nTtyBufSize s.cell s.readTail s.readCnt = a.cells
  clear : ∀ k, s.readCnt ≤ k → k < nTtyBufSize →
    s.readFlags ((s.readTail + k) % nTtyBufSize) = false

/-- The line discipline holds the terminal. -/
structure Holds (s : Tty) (a : Terminal) : Prop where
  places : InRing s a
  data : s.canonData = a.lines.length
  lnext : s.lnext = a.lnext

section Ring

variable {s : Tty} {a : Terminal} {c : Byte}

lemma InRing.cnt (h : InRing s a) : s.readCnt = a.size := by
  rw [← Terminal.length_cells, ← h.ring, length_contents]

/-- The ring at a place is the cell of the terminal there. -/
lemma InRing.cell_at (h : InRing s a) {i : Nat} (hi : i < s.readCnt) :
    a.cells[i]? = some (s.cell ((s.readTail + i) % nTtyBufSize)) := by
  rw [← h.ring, getElem?_contents hi]

/-- **Storing a character.** The place at `read_head` is filled and `read_head` moves on; `flags` are
the marks afterwards, which differ at that place only. -/
theorem InRing.store (h : InRing s a) (hroom : s.readCnt < nTtyBufSize) {a' : Terminal} {m : Bool}
    (canonHead data : Nat) (push : Bool)
    (hcells : a'.cells = a.cells ++ [(c, m)])
    (hcanon : canonHead = (s.readTail + a'.committed) % nTtyBufSize) :
    InRing
      { s with
        readBuf := update s.readBuf s.readHead c
        readFlags := update s.readFlags s.readHead m
        readHead := (s.readHead + 1) % nTtyBufSize
        readCnt := s.readCnt + 1
        canonHead := canonHead
        canonData := data
        push := push } a' := by
  refine ⟨h.tail, ?_, hcanon, hroom, ?_, ?_⟩
  · rw [h.head, Nat.mod_add_mod, Nat.add_assoc]
  · -- the cells are those of before with one place changed
    refine (congrArg (contents _ · _ _) (cell_update s.readBuf s.readFlags s.readHead c m)).trans ?_
    rw [h.head]
    exact (contents_update hroom _).trans (by rw [hcells, ← h.ring]; rfl)
  · intro k hk hlt
    dsimp only at hk ⊢
    have hne : (s.readTail + k) % nTtyBufSize ≠ s.readHead := by
      rw [h.head]
      obtain ⟨j, rfl⟩ := Nat.exists_eq_add_of_le hk
      have hne := @place_ne nTtyBufSize s.readTail (s.readCnt + 1) s.readCnt j (Nat.lt_succ_self _) hlt
      rw [Nat.add_assoc s.readTail] at hne
      exact hne.symm
    rw [update_of_ne hne]
    exact h.clear k (by omega) hlt

section
variable (h : Holds s a)
include h

/-- A character is added to the line. -/
lemma Holds.putTtyQueue (hroom : s.readCnt < nTtyBufSize) :
    Holds (s.putTtyQueue c) { a with edited := a.edited ++ [c] } := by
  have hcells : Terminal.cells { a with edited := a.edited ++ [c] } = a.cells ++ [plainCell c] := by
    simp [Terminal.cells, Terminal.lineCells]
  have hflags : update s.readFlags s.readHead false = s.readFlags := by
    rw [update_eq_self_iff, h.places.head]
    exact (h.places.clear _ (Nat.le_refl _) hroom).symm
  have hstore := h.places.store hroom s.canonHead s.canonData s.push hcells h.places.canon
  rw [hflags] at hstore
  unfold Tty.putTtyQueue
  rw [if_pos hroom]
  exact ⟨hstore, h.data, h.lnext⟩

/-- A delimiter commits the line. -/
lemma Holds.handleNewline (hroom : s.readCnt < nTtyBufSize) :
    Holds (s.handleNewline c) (a.commit c) := by
  have hcanon : (s.readHead + 1) % nTtyBufSize =
      (s.readTail + (a.commit c).committed) % nTtyBufSize := by
    rw [h.places.head, Terminal.committed_commit, Nat.mod_add_mod, Nat.add_assoc, h.places.cnt]
  have hstore := h.places.store hroom _ (s.canonData + 1) s.push (Terminal.cells_commit c) hcanon
  unfold Tty.handleNewline Tty.putTtyQueue
  rw [if_pos hroom]
  refine ⟨hstore, ?_, h.lnext⟩
  show s.canonData + 1 = (a.lines ++ [_]).length
  rw [h.data, length_append, length_singleton]

lemma Holds.setPush (push : Bool) : Holds { s with push := push } a :=
  ⟨{ h.places with }, h.data, h.lnext⟩

/-! ### Erasing -/

/-- **Taking characters back.** The edited line is cut to its first `k` characters. -/
theorem Holds.shorten {k : Nat} (hk : k ≤ a.edited.length) {head cnt : Nat}
    (hhead : head = (s.readTail + (a.committed + k)) % nTtyBufSize) (hcnt : cnt = a.committed + k) :
    Holds { s with readHead := head, readCnt := cnt } { a with edited := a.edited.take k } := by
  have hsize := h.places.cnt
  have hle : cnt ≤ s.readCnt := by
    rw [hsize, hcnt]
    exact Nat.add_le_add_left hk _
  refine ⟨⟨h.places.tail, ?_, h.places.canon, hle.trans h.places.full, ?_, ?_⟩, h.data, h.lnext⟩
  · rw [hhead, hcnt]
  · show contents nTtyBufSize s.cell s.readTail cnt = _
    rw [← take_contents hle, h.places.ring, hcnt, ← Terminal.length_lineCells]
    show take _ (a.lineCells ++ a.edited.map plainCell) =
      a.lineCells ++ (a.edited.take k).map plainCell
    rw [take_length_add_append, map_take]
  · intro j hj hlt
    dsimp only at hj ⊢
    by_cases hold : s.readCnt ≤ j
    · exact h.places.clear j hold hlt
    · -- a place of the edited line: it holds a plain character
      have hcell := h.places.cell_at (Nat.lt_of_not_le hold)
      have hright : a.lineCells.length ≤ j := by
        rw [Terminal.length_lineCells]
        omega
      rw [Terminal.cells, getElem?_append_right hright, getElem?_map] at hcell
      obtain ⟨b, -, hb⟩ := Option.map_eq_some_iff.mp hcell
      exact (congrArg Prod.snd hb).symm

/-- While the edited line does not fill the ring, its length is the distance of the cursors. -/
lemma Holds.editLen (hlt : a.edited.length < nTtyBufSize) : s.editLen = a.edited.length := by
  have hcnt : s.readCnt = a.committed + a.edited.length := h.places.cnt
  unfold Tty.editLen
  rw [h.places.head, h.places.canon]
  unfold nTtyBufSize at hlt ⊢
  omega

/-- The heads meet exactly if no line is edited. -/
lemma Holds.head_eq_canon (hlt : a.edited.length < nTtyBufSize) :
    s.readHead = s.canonHead ↔ a.edited = [] := by
  have hcnt : s.readCnt = a.committed + a.edited.length := h.places.cnt
  rw [← length_eq_zero_iff, h.places.head, h.places.canon]
  unfold nTtyBufSize at hlt ⊢
  omega

/-- The last character is taken back. -/
lemma Holds.unput {line : List Byte} (hline : a.edited = line ++ [c]) :
    s.readBuf ((s.readHead + (nTtyBufSize - 1)) % nTtyBufSize) = c ∧
    Holds s.unput { a with edited := line } := by
  have hlen : a.edited.length = line.length + 1 := by rw [hline, length_append]; rfl
  have hcnt : s.readCnt = a.committed + line.length + 1 := by
    rw [h.places.cnt, Terminal.size, hlen, Nat.add_assoc]
  have hprev : (s.readHead + (nTtyBufSize - 1)) % nTtyBufSize =
      (s.readTail + (a.committed + line.length)) % nTtyBufSize := by
    have hpos := nTtyBufSize_pos
    have hsum : s.readTail + s.readCnt + (nTtyBufSize - 1) =
        s.readTail + (a.committed + line.length) + nTtyBufSize := by omega
    rw [h.places.head, Nat.mod_add_mod, hsum, Nat.add_mod_right]
  constructor
  · have hcell := h.places.cell_at (i := a.committed + line.length) (by omega)
    rw [← hprev, Terminal.cells, ← Terminal.length_lineCells,
      getElem?_append_right (Nat.le_add_right _ _), Nat.add_sub_cancel_left, hline] at hcell
    simp only [map_append, map_cons, map_nil, length_map, Nat.le_refl,
      getElem?_append_right, Nat.sub_self, getElem?_cons_zero, Option.some.injEq] at hcell
    exact (congrArg Prod.fst hcell).symm
  · have hshort := h.shorten (by omega) hprev
      (show s.readCnt - 1 = a.committed + line.length by omega)
    rw [hline, take_left] at hshort
    exact hshort

end

section

variable (line : List Byte) (h : Holds s { a with edited := line })
include line h

/-- A loop of word erases with the word reached removes the rest of the word. -/
lemma Holds.eraseLoop_seen {T : Termios} :
    Holds (s.eraseLoop T .werase line.length true) { a with edited := line.rdropWhile T.wordChar } := by
  induction line using reverseRecOn generalizing s with
  | nil => exact h
  | append_singleton line c ih =>
    obtain ⟨hc, hunput⟩ := h.unput rfl
    rw [length_append, length_singleton, Tty.eraseLoop, hc]
    cases hw : T.wordChar c with
    | false =>
      rw [rdropWhile_concat_neg _ _ _ (by simp [hw])]
      exact h
    | true =>
      rw [rdropWhile_concat_pos _ _ _ hw]
      exact ih hunput

/-- A word erase removes what is behind the last word, and that word. -/
lemma Holds.eraseLoop_werase {T : Termios} :
    Holds (s.eraseLoop T .werase line.length false)
      { a with edited := Terminal.edit T line .werase } := by
  unfold Terminal.edit
  induction line using reverseRecOn generalizing s with
  | nil => exact h
  | append_singleton line c ih =>
    obtain ⟨hc, hunput⟩ := h.unput rfl
    rw [length_append, length_singleton, Tty.eraseLoop]
    rw [hc]
    cases hw : T.wordChar c with
    | false =>
      rw [rdropWhile_concat_pos _ _ _ (by simp [hw])]
      exact ih hunput
    | true =>
      -- the word is reached
      rw [rdropWhile_concat_neg _ _ _ (by simp [hw]), rdropWhile_concat_pos _ _ _ hw]
      exact Holds.eraseLoop_seen line hunput

lemma Holds.eraseLoop_kill {T : Termios} :
    Holds (s.eraseLoop T .kill line.length false) { a with edited := [] } := by
  induction line using reverseRecOn generalizing s with
  | nil => exact h
  | append_singleton line c ih =>
    rw [length_append]
    exact ih (h.unput rfl).2

end

lemma Holds.dropLine (h : Holds s a) (hlt : a.edited.length < nTtyBufSize) :
    Holds s.dropLine { a with edited := [] } := by
  have hcnt : s.readCnt = a.committed + a.edited.length := h.places.cnt
  have hshort := h.shorten (Nat.zero_le _) h.places.canon
    (show s.readCnt - s.editLen = a.committed + 0 by rw [h.editLen hlt]; omega)
  exact hshort

end Ring

/-! ### Received characters -/

section Receive

variable {T : Termios} {s : Tty} {a : Terminal} {c : Byte}

/-- `eraser` for a kind of edit. -/
def Tty.erased (T : Termios) (s : Tty) : Tty.KillType → Tty
  | .erase => s.eraseLoop T .erase s.editLen false
  | .werase => s.eraseLoop T .werase s.editLen false
  | .kill =>
    if T.echo = false ∨ T.echok = false ∨ T.echoke = false ∨ T.echoe = false then s.dropLine
    else s.eraseLoop T .kill s.editLen false

lemma Holds.erased (h : Holds s a) (hlt : a.edited.length < nTtyBufSize) (hne : a.edited ≠ [])
    (kind : Tty.KillType) :
    Holds (s.erased T kind) { a with edited := Terminal.edit T a.edited kind } := by
  cases kind with
  | erase =>
    obtain ⟨line, c, hline⟩ := eq_nil_or_concat a.edited |>.resolve_left hne
    rw [concat_eq_append] at hline
    unfold Tty.erased
    rw [h.editLen hlt, hline, length_append]
    simp only [Terminal.edit, dropLast_concat]
    exact (h.unput hline).2
  | werase =>
    unfold Tty.erased
    rw [h.editLen hlt]
    exact Holds.eraseLoop_werase a.edited h
  | kill =>
    unfold Tty.erased
    split_ifs with hdrop
    · exact h.dropLine hlt
    · rw [h.editLen hlt]
      exact Holds.eraseLoop_kill a.edited h

/-- Erasing stops at the start of the line. -/
lemma Holds.edit (h : Holds s a) (hlt : a.edited.length < nTtyBufSize) (kind : Tty.KillType) :
    Holds (if s.readHead = s.canonHead then s else s.erased T kind)
      { a with edited := Terminal.edit T a.edited kind } := by
  split_ifs with heq
  · have hnil := (h.head_eq_canon hlt).mp heq
    have hedit : Terminal.edit T a.edited kind = a.edited := by
      rw [hnil]
      cases kind <;> rfl
    rw [hedit]
    exact h
  · exact h.erased hlt (fun hnil => heq ((h.head_eq_canon hlt).mpr hnil)) kind

/-- What `n_tty_receive_char` does with a character of a kind. -/
def Tty.receiveKind (T : Termios) (s : Tty) (c : Byte) : Kind → Tty
  | .plain => Tty.receivePlain T { s with lnext := false } c
  | .edit kind => if s.readHead = s.canonHead then s else s.erased T kind
  | .lnext => { s with lnext := true }
  | .reprint => s
  | .newline =>
    if (T.echo ∨ T.echonl) ∧ nTtyBufSize - 1 ≤ s.readCnt then s else s.handleNewline c
  | .eof => ({ s with push := s.push || s.canonHead != s.readHead } : Tty).handleNewline disabledChar
  | .eol => if T.echo ∧ nTtyBufSize - 1 ≤ s.readCnt then s else s.handleNewline c

lemma eraser_eq :
    s.eraser T c = s.receiveKind T c
      (if c = T.eraseChar then .edit .erase
        else if c = T.weraseChar then .edit .werase else .edit .kill) := by
  unfold Tty.eraser Tty.receiveKind Tty.erased
  by_cases heq : s.readHead = s.canonHead
  · split_ifs <;> rfl
  · split_ifs <;> simp_all

/-- The chain of tests is a choice by the kind of the character. -/
lemma receiveChar_eq : s.receiveChar T c = s.receiveKind T c (T.kind s.lnext c) := by
  unfold Tty.receiveChar Termios.kind
  by_cases hplain : T.processCharMap c = false ∨ s.lnext
  · rw [if_pos hplain, if_pos hplain]
    rfl
  · rw [if_neg hplain, if_neg hplain]
    have hlnext : s.lnext = false := by
      cases hl : s.lnext
      · rfl
      · exact absurd (Or.inr hl) hplain
    by_cases hedit : c = T.eraseChar ∨ c = T.killChar ∨ (c = T.weraseChar ∧ T.iexten)
    · rw [if_pos hedit, eraser_eq]
      by_cases herase : c = T.eraseChar
      · rw [if_pos herase, if_pos herase]
      · rw [if_neg herase, if_neg herase, if_pos (hedit.resolve_left herase)]
    · have hsame : ({ s with lnext := false } : Tty) = s := by rw [← hlnext]
      split_ifs <;> simp_all [Tty.receiveKind]

/-- When the ring is full, a character that edits the line comes only while a line is committed, and
a delimiter only if the line discipline checks for room. -/
def Kind.Fits (T : Termios) (s : Tty) (k : Kind) : Prop :=
  s.readCnt < nTtyBufSize ∨ match k with
    | .edit _ => s.canonData ≠ 0
    | .newline => T.echo ∨ T.echonl
    | .eol => T.echo
    | .eof => False
    | _ => True

/-- A character for which the line discipline checks for room if `echo` is set. -/
lemma holds_guarded {P : Prop} [Decidable P] {echo : Bool} (hP : P ↔ echo) {s₁ s₂ : Tty}
    {a₁ a₂ : Terminal} (hcnt : s.readCnt = a.size) (hfits : s.readCnt < nTtyBufSize ∨ P)
    (hskip : Holds s₁ a₁) (hput : s.readCnt < nTtyBufSize → Holds s₂ a₂) :
    Holds (if P ∧ nTtyBufSize - 1 ≤ s.readCnt then s₁ else s₂)
      (if a.size < if echo then nTtyBufSize - 1 else nTtyBufSize then a₂ else a₁) := by
  cases echo with
  | false =>
    have hroom := hfits.resolve_right (by simp [hP])
    rw [if_neg (by simp [hP]), if_pos (hcnt ▸ hroom)]
    exact hput hroom
  | true =>
    simp only [hP, if_true, true_and]
    by_cases hroom : a.size < nTtyBufSize - 1
    · rw [if_neg (by omega), if_pos hroom]
      exact hput (by omega)
    · rw [if_pos (by omega), if_neg hroom]
      exact hskip

/-- What `n_tty_receive_char` does is what the terminal does. -/
lemma Holds.receiveKind (h : Holds s a) {k : Kind} (hfits : k.Fits T s) :
    Holds (s.receiveKind T c k) (a.receiveKind T c k) := by
  have hcnt := h.places.cnt
  have hfull := h.places.full
  cases k with
  | plain =>
    have hclear : Holds { s with lnext := false } { a with lnext := false } :=
      ⟨{ h.places with }, h.data, rfl⟩
    by_cases hroom : s.readCnt < nTtyBufSize
    · exact holds_guarded .rfl hcnt (.inl hroom) hclear hclear.putTtyQueue
    · -- a full ring takes no character
      have hkeep : Tty.putTtyQueue { s with lnext := false } c = { s with lnext := false } := if_neg hroom
      have hsize : ¬ a.size < T.room .plain := by
        unfold Termios.room
        dsimp only
        split_ifs <;> omega
      show Holds (if _ then _ else Tty.putTtyQueue _ c) (if _ then _ else _)
      rw [hkeep, ite_self, if_neg hsize]
      exact hclear
  | edit kind =>
    apply h.edit
    -- the edited line would fill the ring only with no line committed
    rcases hfits with hroom | hdata
    · rw [hcnt, Terminal.size] at hroom
      omega
    · rw [h.data] at hdata
      have hline := Terminal.committed_pos (fun hnil => hdata (by rw [hnil]; rfl))
      rw [hcnt, Terminal.size] at hfull
      omega
  | lnext => exact ⟨{ h.places with }, h.data, rfl⟩
  | reprint => exact h
  | newline =>
    exact holds_guarded (Iff.of_eq (Bool.or_eq_true _ _).symm) hcnt hfits h h.handleNewline
  | eof =>
    have hroom := hfits.resolve_right id
    unfold Tty.receiveKind Terminal.receiveKind Termios.room
    rw [if_pos (show a.size < nTtyBufSize by omega)]
    exact (h.setPush _).handleNewline hroom
  | eol => exact holds_guarded .rfl hcnt hfits h h.handleNewline

end Receive

/-! ### Reading -/

section Read

variable {s : Tty} {a : Terminal}

/-- **Taking a character.** The first cell leaves the ring. -/
theorem InRing.takeChar (h : InRing s a) {a' : Terminal} {x : Byte × Bool} (data : Nat)
    (hcells : a.cells = x :: a'.cells) (hcommitted : a.committed = a'.committed + 1) :
    s.cell s.readTail = x ∧ s.readCnt = a'.cells.length + 1 ∧
      InRing { s.takeChar with canonData := data } a' := by
  have hcnt : s.readCnt = a'.cells.length + 1 := by
    rw [h.cnt, ← Terminal.length_cells, hcells, length_cons]
  have hring := h.ring
  rw [hcnt, contents_succ h.tail, hcells, cons.injEq] at hring
  have hrest : s.readCnt - 1 = a'.cells.length := by omega
  have hlt : a'.cells.length < nTtyBufSize := by
    have hfull := h.full
    omega
  refine ⟨hring.1, hcnt, Nat.mod_lt _ nTtyBufSize_pos, ?_, ?_, (Nat.sub_le _ _).trans h.full, ?_, ?_⟩
  · show s.readHead = ((s.readTail + 1) % nTtyBufSize + (s.readCnt - 1)) % nTtyBufSize
    rw [h.head, Nat.mod_add_mod]
    congr 1
    omega
  · show s.canonHead = ((s.readTail + 1) % nTtyBufSize + a'.committed) % nTtyBufSize
    rw [h.canon, Nat.mod_add_mod]
    congr 1
    omega
  · -- the mark that is cleared is not one of the rest
    have hcell := cell_update s.readBuf s.readFlags s.readTail (s.readBuf s.readTail) false
    rw [update_eq_self] at hcell
    show contents nTtyBufSize (fun i => (s.readBuf i, update s.readFlags s.readTail false i))
      ((s.readTail + 1) % nTtyBufSize) (s.readCnt - 1) = a'.cells
    rw [hcell, hrest, contents_update_front h.tail hlt]
    exact hring.2
  · intro k hk hkN
    show update s.readFlags s.readTail false
      (((s.readTail + 1) % nTtyBufSize + k) % nTtyBufSize) = false
    rw [Nat.mod_add_mod]
    change s.readCnt - 1 ≤ k at hk
    by_cases hback : (s.readTail + 1 + k) % nTtyBufSize = s.readTail
    · rw [hback, update_self]
    · rw [update_of_ne hback]
      by_cases hlast : k + 1 < nTtyBufSize
      · have hclear := h.clear (k + 1) (by omega) hlast
        rwa [Nat.add_comm k, ← Nat.add_assoc] at hclear
      · -- the last place is the one that was left
        refine absurd ?_ hback
        have hround : s.readTail + 1 + k = s.readTail + nTtyBufSize := by omega
        rw [hround, Nat.add_mod_right, Nat.mod_eq_of_lt h.tail]

lemma Terminal.read_zero : a.read 0 = (a, []) := by
  unfold Terminal.read
  split
  · rfl
  · next l ls hlines =>
    rw [if_pos (Nat.zero_le _), drop_zero, take_zero, ← hlines]

lemma Holds.copyLine_zero (h : Holds s a) (n : Nat) :
    Holds (Tty.copyLine n 0 s).1 (a.read 0).1 ∧ (Tty.copyLine n 0 s).2 = (a.read 0).2 := by
  rw [Terminal.read_zero]
  cases n with
  | zero => exact ⟨h, rfl⟩
  | succ => exact ⟨h, rfl⟩

/-- **The copying loop** copies what a read takes of the oldest line. -/
theorem Holds.copyLine (text : List Byte) (nr : Nat) {delim : Byte} {ls : List Line}
    (h : Holds s a) (hlines : a.lines = ⟨text, delim⟩ :: ls) :
    Holds (Tty.copyLine s.readCnt nr s).1 (a.read nr).1 ∧
    (Tty.copyLine s.readCnt nr s).2 = (a.read nr).2 := by
  induction text generalizing s a nr with
  | nil =>
    -- the delimiter
    have hcells : a.cells = (delim, true) :: Terminal.cells { a with lines := ls } := by
      simp [Terminal.cells, Terminal.lineCells, hlines, Line.cells]
    have hcommitted : a.committed = Terminal.committed { a with lines := ls } + 1 := by
      simp [Terminal.committed, hlines, Nat.add_comm]
    obtain ⟨hcell, hn, hplaces⟩ := h.places.takeChar (s.canonData - 1) hcells hcommitted
    have hc : s.readBuf s.readTail = delim := congrArg Prod.fst hcell
    have hf : s.readFlags s.readTail := congrArg Prod.snd hcell
    cases nr with
    | zero => exact h.copyLine_zero _
    | succ nr =>
      unfold Terminal.read
      simp only [hlines, hn]
      rw [Tty.copyLine]
      rw [if_pos hf, hc]
      refine ⟨⟨hplaces, ?_, h.lnext⟩, rfl⟩
      show s.canonData - 1 = ls.length
      rw [h.data, hlines, length_cons, Nat.add_sub_cancel]
  | cons b text ih =>
    -- a character of the line: what is left is a shorter line
    have hcells : a.cells = plainCell b :: Terminal.cells { a with lines := ⟨text, delim⟩ :: ls } := by
      simp [Terminal.cells, Terminal.lineCells, hlines, Line.cells]
    have hcommitted : a.committed =
        Terminal.committed { a with lines := ⟨text, delim⟩ :: ls } + 1 := by
      simp only [Terminal.committed, hlines, map_cons, sum_cons, length_cons]
      omega
    obtain ⟨hcell, hn, hplaces⟩ := h.places.takeChar s.canonData hcells hcommitted
    have hc : s.readBuf s.readTail = b := congrArg Prod.fst hcell
    have hf : s.readFlags s.readTail = false := congrArg Prod.snd hcell
    cases nr with
    | zero => exact h.copyLine_zero _
    | succ nr =>
      have hnext : Holds s.takeChar { a with lines := ⟨text, delim⟩ :: ls } := by
        refine ⟨hplaces, ?_, h.lnext⟩
        show s.canonData = _
        rw [h.data, hlines]
        rfl
      have hrest := ih nr hnext rfl
      rw [show s.takeChar.readCnt = _ from Nat.sub_eq_of_eq_add hn] at hrest
      -- one character more for the read of the longer line
      have hread : a.read (nr + 1) =
          ((Terminal.read { a with lines := ⟨text, delim⟩ :: ls } nr).1,
            b :: (Terminal.read { a with lines := ⟨text, delim⟩ :: ls } nr).2) := by
        unfold Terminal.read
        simp only [hlines, length_cons, Nat.add_le_add_iff_right]
        split_ifs <;> rfl
      rw [hn, Tty.copyLine]
      rw [if_neg (by simp [hf]), hc, hread]
      exact ⟨hrest.1, congrArg _ hrest.2⟩

lemma Holds.endRead (h : Holds s a) (bytes : List Byte) (nr : Nat) :
    Holds (s.endRead bytes nr).1 a ∧ (s.endRead bytes nr).2.bytes = bytes := by
  unfold Tty.endRead
  split_ifs with hbytes hnr hpush
  · exact ⟨h.setPush _, rfl⟩
  · exact ⟨h, rfl⟩
  all_goals exact ⟨h.setPush _, (not_not.mp hbytes).symm⟩

/-- **`read_chan`** returns what the terminal returns. -/
lemma Holds.readChan (h : Holds s a) {nr : Nat} {r : Tty × Event} (hr : s.readChan nr = some r) :
    Holds r.1 (a.read nr).1 ∧ r.2.bytes = (a.read nr).2 := by
  unfold Tty.readChan at hr
  split_ifs at hr with hnr hdata
  · subst hnr
    cases hr
    rw [Terminal.read_zero]
    exact h.endRead [] 0
  · cases hr
    -- `canon_data` is not zero, so there is a line
    obtain ⟨l, ls, hlines⟩ : ∃ l ls, a.lines = l :: ls := by
      apply exists_cons_of_ne_nil
      intro hnil
      exact hdata (by rw [h.data, hnil]; rfl)
    obtain ⟨hcopy, hbytes⟩ := h.copyLine l.text nr hlines
    have hend := hcopy.endRead (Tty.copyLine s.readCnt nr s).2
      (nr - (Tty.copyLine s.readCnt nr s).2.length)
    exact ⟨hend.1, hend.2.trans hbytes⟩

end Read

end PsxLinux.NTty
