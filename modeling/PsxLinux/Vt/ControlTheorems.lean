import PsxLinux.Vt.Control
import PsxLinux.Vt.ScreenTheorems

/-!
# Every byte sequence is safe

Each state of the escape sequence parser keeps the cursor on the screen and the index `npar` in the
range of `par`. In the state `ESpalette` fewer than seven digits have been read, and the first of them
is a colour.
-/

namespace PsxLinux.Vt
namespace Con

/-- The invariant of a terminal. -/
structure Ok (g : Geometry) (v : Con) : Prop where
  screen : v.screen.Ok g
  npar : v.parser.npar < nparMax
  palette : v.parser.state = .palette → v.parser.npar < 7 ∧ v.parser.par 0 < 16

variable {g : Geometry} {v : Con}

section
variable (h : v.Ok g)
include h

/-- Drawing keeps the console in its bounds if it keeps the screen in them. -/
lemma Ok.draw {f : Screen → Screen} (hf : (f v.screen).Ok g) : (v.draw f).Ok g :=
  { h with screen := hf }

lemma Ok.modes (m : Modes) : ({ v with modes := m } : Con).Ok g :=
  { h with }

/-- An access in range adds nothing that is out of it. -/
lemma Ok.access {a : Access} (ha : a.InRange g) : (v.access a).Ok g :=
  h.draw { h.screen with log := List.forall_mem_cons.2 ⟨ha, h.screen.log⟩ }

/-- Only the palette state asks something of the parameters. -/
lemma Ok.setState {state : EscState} (hstate : state ≠ .palette) :
    (v.setState state).Ok g :=
  ⟨h.screen, h.npar, fun hpalette => absurd hpalette hstate⟩

/-- Outside of the palette state a parameter may have any value. -/
lemma Ok.setPar (hstate : v.parser.state = .normal) (i value : Nat) : (v.setPar i value).Ok g := by
  refine ⟨h.screen, h.npar, fun hpalette => ?_⟩
  have hcontra : v.parser.state = .palette := hpalette
  rw [hstate] at hcontra
  cases hcontra

lemma Ok.ite {p : Prop} [Decidable p] {u : Con} (hu : u.Ok g) : (if p then u else v).Ok g := by
  split_ifs
  · exact hu
  · exact h

lemma Ok.atLeastOne (hstate : v.parser.state = .normal) (i : Nat) : (v.atLeastOne i).Ok g :=
  h.ite (h.setPar hstate i 1)

lemma Ok.fromZero (hstate : v.parser.state = .normal) (i : Nat) : (v.fromZero i).Ok g :=
  h.ite (h.setPar hstate i _)

end

lemma fromZero_state (i : Nat) : (v.fromZero i).parser.state = v.parser.state := by
  unfold Con.fromZero
  split_ifs <;> rfl

/-- The cursor is clamped to the screen, or to the scrolling region. -/
lemma Ok.gotoxy (h : v.Ok g) (newX newY : Int) : (v.gotoxy g newX newY).Ok g :=
  h.draw (Screen.Ok.gotoxy h.screen.region h.screen.bottom h.screen.log _ _ _)

/-- An absolute position is relative to the scrolling region in origin mode. -/
lemma Ok.gotoxay (h : v.Ok g) (newX newY : Int) : (v.gotoxay g newX newY).Ok g :=
  h.draw (Screen.Ok.gotoxay h.screen.region h.screen.bottom h.screen.log _ _ _)

/-! ## Saved cursor and reset -/

lemma Ok.saveCur (h : v.Ok g) : v.saveCur.Ok g :=
  { h with screen := { h.screen with } }

/-- The saved position may be stale; it is clamped again. -/
lemma Ok.restoreCur (h : v.Ok g) : (v.restoreCur g).Ok g := by
  have hgoto := h.gotoxy v.screen.savedX v.screen.savedY
  exact { hgoto with screen := hgoto.screen.clearWrap }

/-- **`reset_terminal`** establishes the invariant. -/
theorem resetTerminal_ok (hnpar : v.parser.npar < nparMax) (hlog : ∀ a ∈ v.screen.log, a.InRange g)
    (doClear : Bool) : (v.resetTerminal g doClear).Ok g := by
  have hlines := g.linesPos
  unfold Con.resetTerminal
  generalize hm : ({ v.modes with
    translate := .lat1, g0Charset := .lat1, g1Charset := .graf, charset := false, utf := false,
    utfCount := 0, dispCtrl := false, toggleMeta := false, decscnm := false, decom := false,
    decawm := true, decim := false, lnm := false } : Modes) = m
  have hgoto : (Con.gotoxy g 0 0 ⟨{ v.screen with top := 0, bottom := g.lines, needWrap := false },
      { v.parser with state := .normal, ques := false }, m, defaultTabStop, v.palette⟩).Ok g := by
    have hs := @Screen.Ok.gotoxy g
      { v.screen with top := 0, bottom := g.lines, needWrap := false } hlines (Nat.le_refl _) hlog
    refine ⟨hs _ _ _, hnpar, fun hcontra => ?_⟩
    cases hcontra
  exact hgoto.saveCur.ite (hgoto.saveCur.draw (hgoto.saveCur.screen.csiJ 2))

/-! ## Modes -/

section
variable (h : v.Ok g)
include h

/-- The inversion touches the cells of the screen only. -/
lemma Ok.setDecscnm (on : Bool) : (v.setDecscnm g on).Ok g := by
  have hend := g.scrEnd_eq
  exact h.ite ((h.modes _).draw (h.screen.write (Nat.le_refl _) (by omega)))

lemma Ok.setDecMode (on : Bool) (mode : Nat) : (v.setDecMode g on mode).Ok g := by
  unfold Con.setDecMode
  split
  · exact h.setDecscnm on
  · exact (h.modes _).gotoxay 0 0
  · exact h.modes _
  · exact h

lemma Ok.setAnsiMode (on : Bool) (mode : Nat) : (v.setAnsiMode on mode).Ok g := by
  unfold Con.setAnsiMode
  split
  case h_4 => exact h
  all_goals exact h.modes _

/-- One parameter of `set_mode`. -/
lemma Ok.setModeOne {on : Bool} {i : Nat} (hi : i < nparMax) : (setModeOne g on v i).Ok g := by
  have haccess : (v.access (.par i)).Ok g := h.access hi
  unfold Con.setModeOne
  dsimp only
  split
  · exact haccess.setDecMode on _
  · exact haccess.setAnsiMode on _

/-- One parameter of `csi_m`. -/
lemma Ok.csiMOne {i : Nat} (hi : i < nparMax) : (csiMOne v i).Ok g := by
  have haccess : (v.access (.par i)).Ok g := h.access hi
  unfold Con.csiMOne
  dsimp only
  split
  case h_4 => exact haccess
  all_goals exact haccess.modes _

/-- A loop over the parameters keeps what one round keeps. -/
lemma Ok.foldPars {f : Con → Nat → Con}
    (hf : ∀ {v : Con} {i : Nat}, v.Ok g → i < nparMax → (f v i).Ok g) (l : List Nat)
    (hl : ∀ i ∈ l, i < nparMax) : (l.foldl f v).Ok g := by
  induction l generalizing v with
  | nil => exact h
  | cons i l ih => exact ih (hf h (hl i (by simp))) fun j hj => hl j (by simp [hj])

/-- The loops over the parameters stay inside of `par`. -/
lemma Ok.range : ∀ i ∈ List.range (v.parser.npar + 1), i < nparMax := by
  intro i hi
  have hnpar := h.npar
  rw [List.mem_range] at hi
  omega

lemma Ok.setMode (on : Bool) : (v.setMode g on).Ok g :=
  h.foldPars (fun hv hi => hv.setModeOne hi) _ h.range

lemma Ok.csim : v.csim.Ok g :=
  h.foldPars (fun hv hi => hv.csiMOne hi) _ h.range

end

/-! ## The states of the parser -/

/-- The search for a tab stop moves to the right and ends in the last column. -/
lemma tabLoop_spec {fuel : Nat} (hx : v.screen.x < g.columns) (hfuel : g.columns ≤ v.screen.x + fuel)
    (hlog : ∀ a ∈ v.screen.log, a.InRange g) :
    ∃ x log, x < g.columns ∧ (∀ a ∈ log, a.InRange g) ∧
      tabLoop g fuel v = { v with screen := { v.screen with x := x, log := log } } := by
  have hcols := g.columnsMax
  induction fuel generalizing v with
  | zero => omega
  | succ fuel ih =>
    rw [tabLoop]
    by_cases hmore : v.screen.x < g.columns - 1
    · dsimp only
      have hindex : (v.screen.x + 1) / 32 < 5 := by omega
      have hlog' : ∀ a ∈ Access.tabStop ((v.screen.x + 1) / 32) :: v.screen.log, a.InRange g :=
        List.forall_mem_cons.2 ⟨hindex, hlog⟩
      split_ifs
      · exact ⟨v.screen.x + 1, _, by omega, hlog', rfl⟩
      · obtain ⟨x, log, hx', hlog'', heq⟩ :=
          @ih ((v.draw fun s => { s with x := s.x + 1 }).access
            (.tabStop ((v.screen.x + 1) / 32))) (show v.screen.x + 1 < g.columns by omega)
            (show g.columns ≤ v.screen.x + 1 + fuel by omega) hlog'
        exact ⟨x, log, hx', hlog'', heq⟩
    · rw [if_neg hmore]
      exact ⟨v.screen.x, v.screen.log, hx, hlog, rfl⟩

/-- A tab stops in the last column. -/
lemma Ok.tab (h : v.Ok g) : (v.tab g).Ok g := by
  have hs := h.screen
  obtain ⟨x, log, hx, hlog, heq⟩ := @tabLoop_spec g
    (v.draw fun s => { s with pos := u32 (s.pos - 2 * s.x) }) g.columns hs.x (Nat.le_add_left _ _) hs.log
  unfold Con.tab
  dsimp only
  rw [heq]
  refine ⟨⟨hx, hs.y, ?_, hs.region, hs.bottom, hlog⟩, h.npar, h.palette⟩
  have hrow := g.row_lt hs.y
  have hend := g.scrEnd_lt
  have hendEq := g.scrEnd_eq
  have hsize := g.sizeRow_eq
  have hstart : u32 ((v.screen.pos : Int) - 2 * v.screen.x) = g.origin + v.screen.y * g.sizeRow :=
    u32_eq (by rw [hs.pos]; push_cast; ring) (by omega)
  have hpos : u32 ((u32 ((v.screen.pos : Int) - 2 * v.screen.x) : Int) + 2 * x) =
      g.origin + v.screen.y * g.sizeRow + 2 * x := by
    rw [hstart]
    exact u32_eq (by omega) (by omega)
  exact hpos

/-- The tab stops are bits of five words. -/
lemma Ok.putTabStop (h : v.Ok g) (f : Nat → Nat) : (v.putTabStop f).Ok g := by
  have hx := h.screen.x
  have hcols := g.columnsMax
  have hindex : v.screen.x / 32 < 5 := by omega
  have haccess : (v.access (.tabStop (v.screen.x / 32))).Ok g := h.access hindex
  exact { haccess with }

/-- The character behind an escape. -/
lemma Ok.escape (h : v.Ok g) (c : Nat) : (v.escape g c).Ok g := by
  have hnormal : (v.setState .normal).Ok g := h.setState (by decide)
  unfold Con.escape
  split
  case h_4 => exact (hnormal.draw hnormal.screen.cr).draw hnormal.screen.cr.lf
  case h_5 => exact hnormal.draw hnormal.screen.ri
  case h_6 => exact hnormal.draw hnormal.screen.lf
  case h_7 => exact hnormal.putTabStop _
  case h_8 => exact hnormal.saveCur
  case h_9 => exact hnormal.restoreCur
  case h_13 => exact resetTerminal_ok hnormal.npar hnormal.screen.log true
  case h_14 => exact hnormal
  all_goals exact hnormal.setState (by decide)

lemma hexValue_lt {c : Nat} (h : isHex c) : hexValue c < 16 := by
  unfold isHex at h
  have hc : c < 103 := by
    simp only [Bool.or_eq_true, Bool.and_eq_true, decide_eq_true_eq] at h
    omega
  revert h
  -- there are few digits
  have hall : ∀ c < 103, isHex c → hexValue c < 16 := by decide
  exact hall c hc

/-- The palette has 48 entries. -/
lemma Ok.putPalette (h : v.Ok g) {i : Nat} (hi : i < 48) (value : Nat) :
    (v.putPalette i value).Ok g := by
  have haccess : (v.access (.palette i)).Ok g := h.access hi
  exact { haccess with }

/-- The first of the seven digits selects one of 16 colours. -/
lemma Ok.storePalette (h : v.Ok g) (hfirst : v.parser.par 0 < 16) : v.storePalette.Ok g := by
  have hindex : v.arg 0 < 16 := hfirst
  apply Ok.putPalette
  · apply Ok.putPalette
    · apply Ok.putPalette h
      omega
    · omega
  · omega

/-- At most seven digits are collected. -/
lemma Ok.paletteDigit (h : v.Ok g) (hstate : v.parser.state = .palette) (c : Nat) :
    (v.paletteDigit c).Ok g := by
  obtain ⟨hseven, hfirst⟩ := h.palette hstate
  unfold Con.paletteDigit
  split
  · rename_i hhex
    have hvalue := hexValue_lt hhex
    have haccess : (v.access (.par v.parser.npar)).Ok g := h.access h.npar
    have hnpar : (v.pushDigit c).parser.npar = v.parser.npar + 1 := rfl
    have hcolour : (v.pushDigit c).parser.par 0 < 16 := by
      change Function.update v.parser.par v.parser.npar (hexValue c) 0 < 16
      rw [Function.update_apply]
      split_ifs
      · exact hvalue
      · exact hfirst
    have hmax : v.parser.npar + 1 < nparMax := by
      unfold nparMax
      omega
    dsimp only
    split_ifs with hlast
    · -- the entry is complete
      have hpush : ((v.pushDigit c).setState .normal).Ok g :=
        ⟨haccess.screen, hmax, fun hcontra => by cases hcontra⟩
      have hstore := hpush.storePalette hcolour
      exact ⟨hstore.screen, hstore.npar, fun hcontra => by cases hcontra⟩
    · refine ⟨haccess.screen, hmax, fun _ => ⟨?_, hcolour⟩⟩
      omega
  · exact h.setState (by decide)

/-- The tab stop at the cursor is cleared, or all of them are. -/
lemma Ok.csig (h : v.Ok g) : v.csig.Ok g := by
  unfold Con.csig
  split_ifs
  · exact h.putTabStop _
  · exact { h with }
  · exact h

lemma atLeastOne_arg (i : Nat) : (v.atLeastOne i).arg i ≠ 0 := by
  unfold Con.atLeastOne
  split_ifs with hzero
  · have hone : (v.setPar i 1).arg i = 1 := Function.update_self ..
    omega
  · exact hzero

/-- The scrolling region has at least two lines and ends on the screen. -/
lemma Ok.csir (h : v.Ok g) (hstate : v.parser.state = .normal) : (v.csir g).Ok g := by
  have hstateOne : (v.atLeastOne 0).parser.state = .normal := by
    unfold Con.atLeastOne
    split_ifs
    · exact hstate
    · exact hstate
  have hone := h.atLeastOne hstate 0
  unfold Con.csir
  dsimp only
  have hpars : (if (v.atLeastOne 0).arg 1 = 0 then (v.atLeastOne 0).setPar 1 g.lines
      else v.atLeastOne 0).Ok g ∧ (if (v.atLeastOne 0).arg 1 = 0 then
        (v.atLeastOne 0).setPar 1 g.lines else v.atLeastOne 0).arg 0 ≠ 0 := by
    split_ifs
    · exact ⟨hone.setPar hstateOne 1 _, atLeastOne_arg 0⟩
    · exact ⟨hone, atLeastOne_arg 0⟩
  generalize (if (v.atLeastOne 0).arg 1 = 0 then (v.atLeastOne 0).setPar 1 g.lines
      else v.atLeastOne 0) = u at hpars ⊢
  obtain ⟨hok, hfirst⟩ := hpars
  split_ifs with hregion
  · obtain ⟨hless, hmax⟩ := hregion
    have hlines := g.lines_lt
    have htop : u32 ((u.arg 0 : Int) - 1) = u.arg 0 - 1 := u32_eq (by omega) (by omega)
    have hgoto := @Screen.Ok.gotoxay g
      { u.screen with top := u32 ((u.arg 0) - 1), bottom := u.arg 1 }
      (show u32 ((u.arg 0) - 1) < u.arg 1 by omega) hmax hok.screen.log
    exact { hok with screen := hgoto _ _ _ }
  · exact hok

/-- The character that ends a control sequence, with its parameters in place. -/
lemma Ok.csiFinal (h : v.Ok g) (hstate : v.parser.state = .normal) (c : Nat) :
    (v.csiFinal g c).Ok g := by
  have hone := h.atLeastOne hstate 0
  have hzero := h.fromZero hstate 0
  have hboth := hzero.fromZero ((fromZero_state 0).trans hstate) 1
  unfold Con.csiFinal
  split
  case h_1 | h_2 => exact hzero.gotoxy _ _
  case h_11 => exact hzero.gotoxay _ _
  case h_12 | h_13 => exact hboth.gotoxay _ _
  case h_14 => exact h.draw (h.screen.csiJ _)
  case h_15 => exact h.draw (h.screen.csiK _)
  case h_16 => exact h.draw (h.screen.csiL _)
  case h_17 => exact h.draw (h.screen.csiM _)
  case h_18 => exact h.draw (h.screen.csiP _)
  case h_19 => exact h.csig
  case h_20 => exact h.csim
  case h_21 => exact h.csir hstate
  case h_22 => exact h.saveCur
  case h_23 => exact h.restoreCur
  case h_24 => exact h.draw (h.screen.csiX _)
  case h_25 => exact h.draw (h.screen.csiAt _)
  case h_26 => exact h
  all_goals exact hone.gotoxy _ _

lemma Ok.gotpars (h : v.Ok g) (c : Nat) : (v.gotpars g c).Ok g := by
  have hnormal : (v.setState .normal).Ok g := h.setState (by decide)
  unfold Con.gotpars
  dsimp only
  split_ifs
  · exact hnormal.setMode true
  · exact hnormal.setMode false
  iterate 3 exact hnormal
  · exact { hnormal with }
  · exact hnormal.csiFinal rfl c

/-- A digit, a separator or the end of the parameters. -/
lemma Ok.getpars (h : v.Ok g) (hstate : v.parser.state = .getpars) (c : Nat) :
    (v.getpars g c).Ok g := by
  have hpalette : v.parser.state ≠ .palette := by simp [hstate]
  unfold Con.getpars
  split_ifs with hnext hdigit
  · refine ⟨h.screen, ?_, fun hcontra => absurd hcontra hpalette⟩
    change v.parser.npar + 1 < nparMax
    omega
  · have haccess : (v.access (.par v.parser.npar)).Ok g := h.access h.npar
    exact ⟨haccess.screen, haccess.npar, fun hcontra => absurd hcontra hpalette⟩
  · exact h.gotpars c

/-- A palette sequence starts with no digits. -/
lemma clearPars_palette : v.clearPars.parser.npar < 7 ∧ v.clearPars.parser.par 0 < 16 :=
  ⟨show 0 < 7 by decide, show 0 < 16 by decide⟩

section
variable (h : v.Ok g)
include h

lemma Ok.clearPars : v.clearPars.Ok g :=
  ⟨h.screen, show 0 < nparMax by decide, fun _ => clearPars_palette⟩

/-- The character behind `ESC [`. -/
lemma Ok.square (c : Nat) : (v.square g c).Ok g := by
  have hclear : (v.clearPars.setState .getpars).Ok g := h.clearPars.setState (by decide)
  have hques : ∀ q, ({ v.clearPars.setState .getpars with
      parser := { (v.clearPars.setState .getpars).parser with ques := q } } : Con).Ok g := by
    intro q
    exact { hclear with }
  unfold Con.square
  split_ifs
  · exact hclear.setState (by decide)
  · exact hques _
  · exact (hques _).getpars rfl c

/-- A control character, or the next character of a sequence. -/
lemma Ok.doState (c : Nat) : (v.doState g c).Ok g := by
  have hnormal : (v.setState .normal).Ok g := h.setState (by decide)
  unfold Con.doState
  split
  · exact h.escape c
  · split_ifs
    · -- no digit has been read
      exact ⟨h.screen, h.clearPars.npar, fun _ => @clearPars_palette v⟩
    · exact hnormal
  · exact h.paletteDigit ‹_› c
  · exact h.square c
  · exact h.getpars ‹_› c
  · exact h.gotpars c
  · exact (hnormal.ite (hnormal.modes _)).ite (hnormal.modes _)
  · exact hnormal
  · exact hnormal.ite (hnormal.draw (hnormal.screen.csiJ 2))
  iterate 2 exact (h.modes _).setState (by decide)
  · exact hnormal
  · exact hnormal

/-- **`do_con_trol`.** -/
theorem Ok.doConTrol (c : Nat) : (v.doConTrol g c).Ok g := by
  have hlf : (v.draw (·.lf g)).Ok g := h.draw h.screen.lf
  have hlfcr : ((v.draw (·.lf g)).draw (·.cr)).Ok g := hlf.draw h.screen.lf.cr
  unfold Con.doConTrol
  split
  case h_1 | h_2 | h_3 => exact h
  case h_4 => exact h.draw h.screen.bs
  case h_5 => exact h.tab
  case h_6 | h_7 | h_8 =>
    exact hlf.ite hlfcr
  case h_9 => exact h.draw h.screen.cr
  case h_10 | h_11 => exact h.modes _
  case h_16 => exact h.doState c
  all_goals exact h.setState (by decide)

/-! ## `do_con_write` -/

/-- A character is put at the cursor, which may wrap or stay in the last column. -/
lemma Ok.putChar : (v.putChar g).Ok g := by
  have hcols := g.columnsMax
  have hpos := g.columnsPos
  -- the wrap, the insertion and the character keep the cursor on the screen
  have hwrap : (if v.screen.needWrap then (v.draw (·.cr)).draw (·.lf g) else v).Ok g :=
    h.ite ((h.draw h.screen.cr).draw h.screen.cr.lf)
  unfold Con.putChar
  dsimp only
  generalize (if v.screen.needWrap then (v.draw (·.cr)).draw (·.lf g) else v) = u at hwrap ⊢
  have hinsert : (if u.modes.decim then u.draw (·.insertChar g 1) else u).Ok g := by
    have hx := hwrap.screen.x
    exact hwrap.ite (hwrap.draw (hwrap.screen.insertChar (by omega)))
  generalize (if u.modes.decim then u.draw (·.insertChar g 1) else u) = w at hinsert ⊢
  have hwrite : (w.draw fun s => s.write s.pos 2).Ok g := hinsert.draw hinsert.screen.writeCell
  generalize hz : (w.draw fun s => s.write s.pos 2) = z at hwrite ⊢
  have hlast : u32 ((g.columns : Int) - 1) = g.columns - 1 := u32_eq (by omega) (by omega)
  have hx := hwrite.screen.x
  split_ifs with hend
  · exact hwrite.draw { hwrite.screen with }
  · have hnext : u32 ((z.screen.x : Int) + 1) = z.screen.x + 1 :=
      u32_eq (by omega) (by omega)
    apply hwrite.draw
    rw [hnext]
    exact hwrite.screen.move (x := z.screen.x + 1) 2 (by omega) hwrite.screen.y (by omega)

lemma Ok.putCode (env : Env) (c tc : Nat) : (v.putCode g env c tc).Ok g := by
  unfold Con.putCode
  exact (h.doConTrol c).ite (h.ite h.putChar)

/-- One byte, which may be one of several that make a character. -/
lemma Ok.writeByte (env : Env) (byte : BitVec 8) : (writeByte g env v byte).Ok g := by
  unfold Con.writeByte
  dsimp only
  split
  · split
    · exact h.modes _
    · exact (h.modes _).putCode env _ _
  · exact h.putCode env _ _

/-- A whole buffer. -/
lemma Ok.doConWrite (env : Env) (softcursor : Bool) (buf : List (BitVec 8)) :
    (v.doConWrite g env softcursor buf).Ok g := by
  have hstart : (if softcursor then v.draw fun s => s.write s.pos 2 else v).Ok g :=
    h.ite (h.draw h.screen.writeCell)
  unfold Con.doConWrite
  generalize (if softcursor then v.draw fun s => s.write s.pos 2 else v) = u at hstart ⊢
  induction buf generalizing u with
  | nil => exact hstart
  | cons byte buf ih => exact ih _ (hstart.writeByte env byte)

end

end Con

/-- A call of `do_con_write`. -/
structure Write where
  env : Env
  softcursor : Bool
  buf : List (BitVec 8)

/-- A terminal after writes. -/
def Con.writes (g : Geometry) (v : Con) (ws : List Write) : Con :=
  ws.foldl (fun v w => v.doConWrite g w.env w.softcursor w.buf) v

/-- **Memory safety of the terminal.** After `reset_terminal` and any writes of any bytes the cursor is
on the screen, the scrolling region is a region of it, the cursor address is that of the cursor,
`npar` is below `NPAR`, and every access to `tab_stop`, `par`, `palette` and the screen buffer since
then was in bounds. -/
theorem terminal_safe (g : Geometry) (v : Con) (hnpar : v.parser.npar < nparMax)
    (hlog : v.screen.log = []) (doClear : Bool) (ws : List Write) :
    let after := (v.resetTerminal g doClear).writes g ws
    after.screen.x < g.columns ∧ after.screen.y < g.lines ∧
    (after.screen.top < after.screen.bottom ∧ after.screen.bottom ≤ g.lines) ∧
    after.screen.pos = g.origin + 2 * (after.screen.y * g.columns + after.screen.x) ∧
    after.parser.npar < nparMax ∧ ∀ a ∈ after.screen.log, a.InRange g := by
  intro after
  have hok : after.Ok g := by
    have hstart : (v.resetTerminal g doClear).Ok g :=
      Con.resetTerminal_ok hnpar (by simp [hlog]) doClear
    change ((v.resetTerminal g doClear).writes g ws).Ok g
    generalize v.resetTerminal g doClear = u at hstart ⊢
    induction ws generalizing u with
    | nil => exact hstart
    | cons w ws ih => exact ih _ (hstart.doConWrite w.env w.softcursor w.buf)
  obtain ⟨⟨hx, hy, hpos, hregion, hbottom, hlog'⟩, hnpar', -⟩ := hok
  refine ⟨hx, hy, ⟨hregion, hbottom⟩, ?_, hnpar', hlog'⟩
  rw [hpos, g.sizeRow_eq]
  ring

/-- A terminal as it is allocated. -/
def zeroedCon : Con where
  screen := ⟨0, 0, 0, 0, 0, false, 0, 0, []⟩
  parser := ⟨.normal, 0, fun _ => 0, false⟩
  modes := ⟨false, false, false, false, false, false, false, false, false, false, 0, 0, .lat1, .lat1,
    .lat1, .lat1, .lat1⟩
  tabStop := fun _ => 0
  palette := fun _ => 0

def smallScreen : Geometry := ⟨3, 2, 4096, by decide, by decide, by decide, by decide, by decide⟩

/-- `ESC [ 4294967297 ; 9 f A B`: the first parameter wraps to 1, the second is clipped, and the
second character goes to the next line. -/
def wrapBytes : List (BitVec 8) :=
  [27, 91, 52, 50, 57, 52, 57, 54, 55, 50, 57, 55, 59, 57, 102, 65, 66]

theorem terminal_safe_wrapped :
    let after := (zeroedCon.resetTerminal smallScreen true).writes smallScreen
      [⟨⟨fun _ c => c, fun c => c, false⟩, true, wrapBytes⟩]
    (after.screen.x, after.screen.y, after.screen.pos) = (1, 1, 4104) ∧
    .screen 4100 2 ∈ after.screen.log ∧ ∀ a ∈ after.screen.log, a.InRange smallScreen := by
  refine ⟨by decide, by decide, ?_⟩
  exact (terminal_safe smallScreen zeroedCon (by decide) rfl true _).2.2.2.2.2

end PsxLinux.Vt
