import PsxLinux.NTty.CanonTheorems

/-!
# Runs of the line discipline

Any characters and any reads, in any order. Every run in which a full ring is not given a delimiter
that is not checked for room, nor an edit while no line is committed, is a run of the terminal of
lines. A delimiter received while the ring is full is not stored, but its mark is set: it stands at
the oldest character of the oldest line and cuts that line.
-/

namespace PsxLinux.NTty

open Lib RingBuffer List

/-- The character received finds the ring in order. -/
def Act.Fits (T : Termios) (s : Tty) : Act → Prop
  | .receive c => (T.kind s.lnext c).Fits T s
  | .read _ => True
  | .giveUp => True

/-- The line discipline and the terminal agree, and every pass returned what the terminal gave. -/
structure Follows (s : Tty) (a : Session) (es : List Event) : Prop where
  holds : Holds s a.terminal
  returned : es.map Event.bytes = a.returned
  delivered : a.Delivered

lemma follows_opened : Follows Tty.opened Session.start [] := by
  refine ⟨⟨⟨by decide, by decide, by decide, by decide, rfl, ?_⟩, rfl, rfl⟩, rfl,
    Session.delivered_start⟩
  intro k _ _
  rfl

variable {s : Tty}

lemma step_follows {T : Termios} {t : Tty} {a : Session} {es fs : List Event} {act : Act}
    (h : Follows s a es) (hfits : act.Fits T s) (hstep : step T s act = some (t, fs)) :
    Follows t (a.step T act) (es ++ fs) := by
  have hdelivered := h.delivered.step (T := T) act
  cases act with
  | receive c =>
    cases hstep
    refine ⟨?_, ?_, hdelivered⟩
    · rw [receiveChar_eq]
      show Holds _ (a.terminal.receiveKind T c (T.kind a.terminal.lnext c))
      rw [← h.holds.lnext]
      exact h.holds.receiveKind hfits
    · rw [append_nil, h.returned]
      rfl
  | read nr =>
    obtain ⟨r, hr, hpair⟩ := Option.map_eq_some_iff.mp hstep
    cases hpair
    obtain ⟨hholds, hbytes⟩ := h.holds.readChan hr
    refine ⟨hholds, ?_, hdelivered⟩
    rw [map_append, h.returned, map_singleton, hbytes]
    rfl
  | giveUp =>
    cases hstep
    obtain ⟨hholds, hbytes⟩ := h.holds.endRead [] 0
    refine ⟨hholds, ?_, hdelivered⟩
    rw [map_append, h.returned, map_singleton, hbytes]
    rfl

/-- **Canonical input.** In every run whose characters find the ring in order, the line discipline is
the terminal of lines: every pass of a read returns what the terminal gives, so the bytes returned are
the committed lines in order, each by passes of its own; no character changes a committed line;
`canon_data` is the number of delimiters to be read, the ring holds what is to be read and the edited
line, and a read sleeps only while no line is committed. -/
theorem canonical_input {T : Termios} {s : Tty} {acts : List Act} {es : List Event}
    (hrun : Exec (step T) (fun s act => act.Fits T s) Tty.opened acts es s) :
    let a := acts.foldl (Session.step T) Session.start
    es.map Event.bytes = a.returned ∧ a.Delivered ∧
    (∀ c, a.terminal.lines <+: (a.terminal.receive T c).lines) ∧
    s.canonData = a.terminal.lines.length ∧
    contents nTtyBufSize s.cell s.readTail s.readCnt = a.terminal.cells ∧
    ∀ nr, a.terminal.lines ≠ [] → (step T s (.read nr)).isSome := by
  intro a
  have h : Follows s a es :=
    hrun.invariant_foldl (P := Follows) follows_opened fun _ _ _ _ _ _ => step_follows
  refine ⟨h.returned, h.delivered, fun c => Terminal.lines_receive, h.holds.data,
    h.holds.places.ring, ?_⟩
  intro nr hlines
  have hdata : s.canonData ≠ 0 := by
    rw [h.holds.data]
    exact fun hzero => hlines (length_eq_zero_iff.mp hzero)
  unfold step Tty.readChan
  dsimp only
  split_ifs
  · rfl
  · rfl

/-- The usual control characters, without echo. -/
def quietTermios : Termios where
  eraseChar := 127
  killChar := 21
  eofChar := 4
  eolChar := 0
  eol2Char := 0
  weraseChar := 23
  lnextChar := 22
  reprintChar := 18
  echo := false
  echoe := true
  echok := true
  echoke := true
  echonl := false
  iexten := true
  isalnum := fun c => 97 ≤ c && c ≤ 122

lemma Act.fits_of_room {T : Termios} (h : s.readCnt < nTtyBufSize) (act : Act) : act.Fits T s := by
  cases act with
  | receive c => exact .inl h
  | read nr => trivial
  | giveUp => trivial

/-- "ab", a newline, "cd", an erase, an end of file: reads of two bytes and of many. -/
theorem canonical_input_lines : ∃ s es, Exec (step quietTermios)
      (fun s act => act.Fits quietTermios s) Tty.opened
      [.receive 97, .receive 98, .receive 10, .read 2, .receive 99, .receive 100, .receive 127,
        .receive 4, .read 10, .read 10] es s ∧
    es = [.returned [97, 98], .returned [10], .returned [99]] ∧ s.canonData = 0 := by
  refine Exec.exists_of_test (fun s act h => act.fits_of_room (of_decide_eq_true h))
    (fun _ es => es = [.returned [97, 98], .returned [10], .returned [99]]) (by decide +kernel)
    fun s es hexec hes => ⟨hes, ?_⟩
  exact (canonical_input hexec).2.2.2.1.trans (by decide)

/-! ### A full ring -/

/-- The line "ab" and characters behind it. -/
def typed (n : Nat) : List Act :=
  [.receive 97, .receive 98, .receive 10] ++ replicate n (.receive 120)

/-- The terminal after them. -/
def typedSession (n : Nat) : Session :=
  ⟨⟨[⟨[97, 98], 10⟩], replicate n 120, false⟩, [⟨[97, 98], 10⟩], []⟩

lemma size_typed (n : Nat) : (typedSession n).terminal.size = n + 3 := by
  simp [typedSession, Terminal.size, Terminal.committed, Nat.add_comm]

lemma typed_follows (n : Nat) (hn : n + 3 ≤ nTtyBufSize) :
    (typed n).foldl (Session.step quietTermios) Session.start = typedSession n ∧
    ∃ s, Exec (step quietTermios) anyStep Tty.opened (typed n) [] s ∧
      Follows s (typedSession n) [] := by
  induction n with
  | zero =>
    have hruns : (Exec.run (step quietTermios) (fun s _ => decide (s.readCnt < nTtyBufSize))
        Tty.opened (typed 0)).map (fun r => decide (r.2 = [])) = some true := by decide +kernel
    obtain ⟨s, es, hrun, hes⟩ :=
      Exec.exists_of_run (fun s act h => act.fits_of_room (of_decide_eq_true h)) _ hruns
    obtain rfl := of_decide_eq_true hes
    have hfold : (typed 0).foldl (Session.step quietTermios) Session.start = typedSession 0 := by decide
    refine ⟨hfold, s, hrun.mono fun _ _ _ => trivial, ?_⟩
    exact hrun.invariant_foldl (P := Follows) follows_opened fun _ _ _ _ _ _ => step_follows
  | succ n ih =>
    obtain ⟨hfold, s, hrun, hfollows⟩ := ih (by omega)
    have htyped : typed (n + 1) = typed n ++ [.receive 120] := by
      simp [typed, replicate_succ']
    have hroom : s.readCnt < nTtyBufSize := by
      rw [hfollows.holds.places.cnt, size_typed]
      omega
    have hnext : (typedSession n).step quietTermios (.receive 120) = typedSession (n + 1) := by
      have hkind : quietTermios.kind false 120 = .plain := by decide
      have hrec : (typedSession n).terminal.receive quietTermios 120 =
          (typedSession (n + 1)).terminal := by
        show (typedSession n).terminal.receiveKind quietTermios 120 (quietTermios.kind false 120) = _
        rw [hkind, Terminal.receiveKind, size_typed]
        rw [if_pos (show n + 3 < quietTermios.room .plain from Nat.lt_of_succ_le (by
          show n + 1 + 3 ≤ nTtyBufSize
          exact hn))]
        simp [typedSession, replicate_succ']
      unfold Session.step
      dsimp only
      rw [hrec]
      rfl
    have hfollows' : Follows (s.receiveChar quietTermios 120)
        ((typedSession n).step quietTermios (.receive 120)) ([] ++ []) :=
      step_follows hfollows (.inl hroom) rfl
    rw [hnext] at hfollows'
    refine ⟨?_, s.receiveChar quietTermios 120, ?_, hfollows'⟩
    · rw [htyped, foldl_append, hfold]
      exact hnext
    · rw [htyped]
      exact .tail hrun trivial rfl

/-- A delimiter that comes while the ring is full is not stored, and marks the oldest character. -/
lemma handleNewline_full {a : Terminal} (h : InRing s a) (hcnt : s.readCnt = nTtyBufSize)
    (c : Byte) :
    s.handleNewline c = { s with
      readFlags := Function.update s.readFlags s.readTail true
      canonHead := s.readHead
      canonData := s.canonData + 1 } := by
  have hhead : s.readHead = s.readTail := by
    rw [h.head, hcnt, Nat.add_mod_right, Nat.mod_eq_of_lt h.tail]
  unfold Tty.handleNewline Tty.putTtyQueue
  dsimp only
  rw [if_neg (by omega), hhead]

/-- A read that finds a mark at the oldest character returns that character. -/
lemma readChan_marked (hmark : s.readFlags s.readTail) (hcnt : s.readCnt ≠ 0)
    (hdata : s.canonData ≠ 0) (hc : s.readBuf s.readTail ≠ disabledChar) (nr : Nat) :
    ∃ t, s.readChan (nr + 1) = some (t, .returned [s.readBuf s.readTail]) := by
  obtain ⟨n, hn⟩ := Nat.exists_eq_succ_of_ne_zero hcnt
  unfold Tty.readChan
  rw [if_neg hdata, hn, Tty.copyLine]
  rw [if_pos hmark, if_pos hc]
  exact ⟨_, rfl⟩

/-- The line "ab", characters that fill the ring, a newline, and a read. -/
def overfull : List Act := typed 4093 ++ [.receive 10] ++ [.read 10]

/-- **A newline cuts a line.** The line "ab" is committed, characters fill the ring, and one more
newline comes. It is dropped, yet the next read returns "a" only; the terminal returns the line. -/
theorem newline_cuts_line :
    (∃ s, Exec (step quietTermios) anyStep Tty.opened overfull [.returned [97]] s) ∧
    (overfull.foldl (Session.step quietTermios) Session.start).returned = [[97, 98, 10]] := by
  obtain ⟨hfold, s, hrun, hfollows⟩ := typed_follows 4093 (by decide)
  have hsize : (typedSession 4093).terminal.size = nTtyBufSize := size_typed 4093
  have hplaces := hfollows.holds.places
  have hcnt : s.readCnt = nTtyBufSize := hplaces.cnt.trans hsize
  have hkind : quietTermios.kind false 10 = .newline := by decide
  constructor
  · have hfirst : s.readBuf s.readTail = 97 := by
      have hcell := hplaces.cell_at (i := 0) (by rw [hcnt]; decide)
      rw [Nat.add_zero, Nat.mod_eq_of_lt hplaces.tail] at hcell
      exact (congrArg Prod.fst (Option.some.inj hcell)).symm
    have hnewline : s.receiveChar quietTermios 10 = s.handleNewline 10 := by
      rw [receiveChar_eq, hfollows.holds.lnext]
      show s.receiveKind quietTermios 10 (quietTermios.kind false 10) = _
      rfl
    have hread : ∃ t, (s.receiveChar quietTermios 10).readChan 10 = some (t, .returned [97]) := by
      rw [hnewline, handleNewline_full hplaces hcnt, ← hfirst]
      apply readChan_marked
      · exact Function.update_self ..
      · rw [hcnt]
        decide
      · exact Nat.succ_ne_zero _
      · rw [hfirst]
        decide
    obtain ⟨t, ht⟩ := hread
    have hstep : step quietTermios (s.receiveChar quietTermios 10) (.read 10) =
        some (t, [.returned [97]]) := by
      rw [step, ht]
      rfl
    have hmarked : Exec (step quietTermios) anyStep Tty.opened (typed 4093 ++ [.receive 10]) ([] ++ [])
        (s.receiveChar quietTermios 10) := .tail hrun trivial rfl
    exact ⟨t, .tail hmarked trivial hstep⟩
  · -- the terminal drops the newline and has the line as it was
    have hdrop : (typedSession 4093).terminal.receive quietTermios 10 =
        (typedSession 4093).terminal := by
      show (typedSession 4093).terminal.receiveKind quietTermios 10 (quietTermios.kind false 10) = _
      rw [hkind, Terminal.receiveKind, hsize]
      exact if_neg (Nat.lt_irrefl _)
    unfold overfull
    rw [foldl_append, foldl_append, hfold]
    simp only [foldl_cons, Session.step, hdrop]
    rfl

end PsxLinux.NTty
