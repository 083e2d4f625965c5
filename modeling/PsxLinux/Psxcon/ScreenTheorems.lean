import PsxLinux.Psxcon.Screen

/-!
# The driver's screen against the console layer's

The two screens show the same characters in every run whose calls are `Regular`: characters are
put anywhere, scrolls are upwards and over the whole screen, and the rest of the calls ask for
nothing that is not there already (`screens_agree_of_regular`).

`psxvga_clear` passes a cell number where `psxvga_memsetw` wants a row, so at most the first cell
of row 0 is cleared, `psxvga_scroll` ignores the region and the direction, and `psxvga_bmove` does
nothing: `clear_leaves_character`.
-/

namespace PsxLinux.Psxcon

open Lib

variable {build : Build} {attr : ℕ} {v : Psxvga} {screen : Cells}

/-! ## What should hold, and when -/

/-- Both screens show the same characters. -/
def Agree (build : Build) (s : Sys) : Prop :=
  ∀ y x, y < vscrH → x < vscrW build → shown (s.psxvga.cell y x) = shown (s.screen y x)

/-- The call leaves every character of the screen as it is. -/
def Unchanged (build : Build) (attr : ℕ) (screen : Cells) (op : Op) : Prop :=
  ∀ y x, y < vscrH → x < vscrW build → shown (screenCall attr screen op y x) = shown (screen y x)

/-- What is cleared is blank already, apart from the cell of row 0 that the driver clears; upward
scrolls are over the whole screen; downward scrolls and block moves change nothing. -/
def Regular (build : Build) (attr : ℕ) (s : Sys) : Op → Prop
  | .clear sy sx height width => ∀ y x, sy ≤ y → y < sy + height → sx ≤ x → x < sx + width →
      shown (s.screen y x) = 32 ∨ (y = 0 ∧ x = sx)
  | .putc _ _ _ => True
  | .putcs _ _ _ => True
  | .scroll t b .up _ => t = 0 ∧ b = vscrH
  | .scroll t b .down count => Unchanged build attr s.screen (.scroll t b .down count)
  | .bmove sy sx dy dx height width =>
      Unchanged build attr s.screen (.bmove sy sx dy dx height width)

/-! ## The driver's operations, cell by cell -/

lemma shown_videoEraseChar (attr : ℕ) : shown (videoEraseChar attr) = 32 := by
  have hlow : videoEraseChar attr % 256 = 32 := by
    simp only [videoEraseChar]
    omega
  rw [shown, hlow]
  rfl

variable {y x : ℕ}

/-- A written cell is the cell of the screen at that position. -/
lemma cell_psxvgaWritew2 (val : ℕ) (hbottom : v.bottom < vscrH) (hy : y < vscrH)
    (hx : x < vscrW build) (y' x' : ℕ) (hy' : y' < vscrH) :
    (psxvgaWritew2 build v val y x).cell y' x' = if y' = y ∧ x' = x then val else v.cell y' x' := by
  have hrow : (y' + v.bottom) % vscrH = (if y + v.bottom ≥ vscrH then y + v.bottom - vscrH
      else y + v.bottom) ↔ y' = y := by
    split_ifs <;> simp only [vscrH] at * <;> omega
  simp only [psxvgaWritew2, if_pos (And.intro hy hx), Psxvga.cell, setCell, hrow]

lemma bottom_psxvgaWritew2 (val y x : ℕ) : (psxvgaWritew2 build v val y x).bottom = v.bottom := by
  unfold psxvgaWritew2
  split_ifs <;> rfl

lemma psxvgaWritew2_outside {val : ℕ} (hy : vscrH ≤ y) : psxvgaWritew2 build v val y x = v :=
  if_neg fun h => absurd h.1 (Nat.not_lt.2 hy)

lemma bottom_psxvgaMemsetw (sx sy c count : ℕ) :
    (psxvgaMemsetw build v sx sy c count).bottom = v.bottom := by
  induction count generalizing v with
  | zero => rfl
  | succ count ih => rw [psxvgaMemsetw, ih, bottom_psxvgaWritew2]

variable {sx sy count : ℕ}

/-- `psxvga_memsetw` sets one cell, however often. -/
lemma cell_psxvgaMemsetw {c : ℕ} (hbottom : v.bottom < vscrH) (hy : sy < vscrH)
    (hx : sx < vscrW build) (hcount : 0 < count) (y x : ℕ) (hy' : y < vscrH) :
    (psxvgaMemsetw build v sx sy c count).cell y x =
      if y = sy ∧ x = sx then c else v.cell y x := by
  induction count generalizing v with
  | zero => exact absurd hcount (Nat.lt_irrefl 0)
  | succ count ih =>
    have hwrite := cell_psxvgaWritew2 c hbottom hy hx y x hy'
    cases count with
    | zero => exact hwrite
    | succ count =>
      rw [psxvgaMemsetw, ih (by rwa [bottom_psxvgaWritew2]) (Nat.succ_pos count), hwrite]
      split_ifs <;> rfl

lemma psxvgaMemsetw_outside {c : ℕ} (hy : vscrH ≤ sy) (count : ℕ) :
    psxvgaMemsetw build v sx sy c count = v := by
  induction count with
  | zero => rfl
  | succ count ih => rw [psxvgaMemsetw, psxvgaWritew2_outside hy, ih]

variable {width height : ℕ}

/-- Only row 0 gives a row number that is on the screen. -/
lemma clearRows_eq (h : sy + height ≤ vscrH) (hx : sx < vscrW build) :
    clearRows build v sy sx width height =
      if sy = 0 ∧ 0 < height then psxvgaMemsetw build v sx 0 32 width else v := by
  have hsx : sx % 2 ^ 16 = sx := by
    cases build <;> simp only [vscrW] at hx <;> omega
  induction height with
  | zero => exact (if_neg fun hc => Nat.lt_irrefl 0 hc.2).symm
  | succ height ih =>
    have ih := ih (by omega)
    simp only [clearRows]
    by_cases hrow : sy + height = 0
    · obtain ⟨rfl, rfl⟩ : sy = 0 ∧ height = 0 := by omega
      rw [hsx, clearRows, if_pos ⟨rfl, Nat.one_pos⟩]
      simp only [Nat.add_zero, Nat.zero_mul, Nat.zero_mod]
    · have houtside : vscrH ≤ (sy + height) * vscrW build % 2 ^ 16 := by
        have hword : (sy + height) * vscrW build < 2 ^ 16 := by
          cases build <;> simp only [vscrH, vscrW] at * <;> omega
        rw [Nat.mod_eq_of_lt hword]
        cases build <;> simp only [vscrH, vscrW] at * <;> omega
      rw [psxvgaMemsetw_outside houtside, ih]
      by_cases hsy : sy = 0
      · rw [if_pos ⟨hsy, by omega⟩, if_pos ⟨hsy, Nat.succ_pos height⟩]
      · rw [if_neg fun hc => hsy hc.1, if_neg fun hc => hsy hc.1]

/-- The loop of an upward scroll empties the rows that follow on the ring. -/
lemma scrollRows_eq {r : ℕ} (buf : Cells) (hy : y ≤ vscrH) (hcount : count ≤ vscrH)
    (hr : r < vscrH) (hx : x < vscrW build) :
    scrollRows build buf y count r x =
      if (r + vscrH - y) % vscrH < count then 0 else buf r x := by
  induction count generalizing buf y with
  | zero => rfl
  | succ count ih =>
    simp only [scrollRows]
    have hnext : (if y ≥ vscrH then 0 else y) < vscrH := by
      split_ifs with hend
      · decide
      · exact Nat.not_le.1 hend
    have hdist : (r + vscrH - (if y ≥ vscrH then 0 else y)) % vscrH = (r + vscrH - y) % vscrH := by
      split_ifs with hend
      · simp only [vscrH] at *
        omega
      · rfl
    rw [← hdist]
    generalize (if y ≥ vscrH then 0 else y) = y at hnext
    rw [ih _ hnext (by omega)]
    by_cases hrow : r = y
    · subst hrow
      rw [if_pos (And.intro rfl hx), if_pos (c := _ < count + 1)]
      · exact ite_self 0
      · simp only [vscrH] at *
        omega
    · have hiff : (r + vscrH - (y + 1)) % vscrH < count ↔ (r + vscrH - y) % vscrH < count + 1 := by
        simp only [vscrH] at *
        omega
      simp only [hiff, hrow, false_and, if_false]

/-- An upward scroll moves every row up and leaves the last rows empty. -/
lemma cell_psxvgaScroll (hbottom : v.bottom < vscrH) (hcount : count ≤ vscrH) (hy : y < vscrH)
    (hx : x < vscrW build) :
    (psxvgaScroll build v .up count).cell y x =
      if y + count < vscrH then v.cell (y + count) x else 0 := by
  have hrow : (y + (if v.bottom + count ≥ vscrH then v.bottom + count - vscrH
      else v.bottom + count)) % vscrH = (y + count + v.bottom) % vscrH := by
    split_ifs <;> simp only [vscrH] at * <;> omega
  have hr : (y + count + v.bottom) % vscrH < vscrH := Nat.mod_lt _ (by decide)
  simp only [psxvgaScroll, Psxvga.cell, hrow]
  rw [scrollRows_eq _ (Nat.le_of_lt hbottom) hcount hr hx]
  have hiff : ((y + count + v.bottom) % vscrH + vscrH - v.bottom) % vscrH < count ↔
      ¬ y + count < vscrH := by
    simp only [vscrH] at *
    omega
  by_cases hlast : y + count < vscrH
  · rw [if_neg fun h => hiff.1 h hlast, if_pos hlast]
  · rw [if_pos (hiff.2 hlast), if_neg hlast]

/-! ## One call -/

/-- The driver's offset stays on the ring, and the screens agree. -/
structure Inv (build : Build) (s : Sys) : Prop where
  bottom : s.psxvga.bottom < vscrH
  agree : Agree build s

variable {s : Sys}

lemma inv_blank : Inv build (Sys.blank attr) where
  bottom := Nat.zero_lt_succ 20
  agree := fun _ _ _ _ => (shown_videoEraseChar attr).symm

lemma Inv.putc (h : Inv build s) (c : UInt16) (hy : y < vscrH) (hx : x < vscrW build) :
    Inv build ⟨setCell s.screen y x c.toNat, psxvgaWritew2 build s.psxvga c.toNat y x⟩ where
  bottom := by simpa only [bottom_psxvgaWritew2] using h.bottom
  agree := by
    intro y' x' hy' hx'
    simp only [cell_psxvgaWritew2 c.toNat h.bottom hy hx y' x' hy', setCell]
    split_ifs
    · rfl
    · exact h.agree y' x' hy' hx'

lemma Inv.putcs {cs : List UInt16} (h : Inv build s) (hy : y < vscrH)
    (hx : x + cs.length ≤ vscrW build) :
    Inv build ⟨putCells s.screen cs y x, psxvgaPutcs build s.psxvga cs y x⟩ := by
  induction cs generalizing s x with
  | nil => exact h
  | cons c cs ih =>
    rw [List.length_cons] at hx
    exact ih (h.putc c hy (by omega)) (by omega)

/-- What the driver clears: at most one cell, and only if the region starts in row 0. -/
lemma cell_psxvgaClear (hbottom : v.bottom < vscrH) (hrows : sy + height ≤ vscrH)
    (hcols : sx + width ≤ vscrW build) (hy : y < vscrH) :
    (psxvgaClear build v sy sx height width).bottom = v.bottom ∧
    (psxvgaClear build v sy sx height width).cell y x =
      if (sy = 0 ∧ 0 < height ∧ 0 < width) ∧ y = 0 ∧ x = sx then 32 else v.cell y x := by
  have hsy : ¬ sy > vscrH := by omega
  have hzero : 0 < vscrH := by decide
  rw [psxvgaClear, if_neg hsy]
  by_cases hwidth : 0 < width
  · rw [clearRows_eq hrows (by omega)]
    by_cases hrow : sy = 0 ∧ 0 < height
    · rw [if_pos hrow, cell_psxvgaMemsetw hbottom hzero (by omega) hwidth y x hy]
      exact ⟨bottom_psxvgaMemsetw _ _ _ _, by simp only [hrow, hwidth, true_and]⟩
    · rw [if_neg hrow, if_neg fun hc => hrow ⟨hc.1.1, hc.1.2.1⟩]
      exact ⟨rfl, rfl⟩
  · obtain rfl : width = 0 := by omega
    have hnone : ∀ n, clearRows build v sy sx 0 n = v := by
      intro n
      induction n with
      | zero => rfl
      | succ n ih => rw [clearRows, ih]; rfl
    rw [hnone, if_neg fun hc => hwidth hc.1.2.2]
    exact ⟨rfl, rfl⟩

lemma Inv.clear (h : Inv build s) (hin : Inside build (.clear sy sx height width))
    (hreg : Regular build attr s (.clear sy sx height width)) :
    Inv build ⟨clearCells attr s.screen sy sx height width,
      psxvgaClear build s.psxvga sy sx height width⟩ := by
  obtain ⟨hrows, hcols⟩ := hin
  have hzero : 0 < vscrH := by decide
  refine ⟨?_, fun y x hy hx => ?_⟩
  · rw [(cell_psxvgaClear (x := 0) h.bottom hrows hcols hzero).1]
    exact h.bottom
  · have hagree := h.agree y x hy hx
    simp only [(cell_psxvgaClear h.bottom hrows hcols hy).2, clearCells]
    by_cases hcell : (sy = 0 ∧ 0 < height ∧ 0 < width) ∧ y = 0 ∧ x = sx
    · obtain ⟨⟨rfl, hheight, hwidth⟩, rfl, rfl⟩ := hcell
      rw [if_pos ⟨⟨rfl, hheight, hwidth⟩, rfl, rfl⟩, if_pos (by omega), shown_videoEraseChar]
      rfl
    · rw [if_neg hcell]
      by_cases hregion : sy ≤ y ∧ y < sy + height ∧ sx ≤ x ∧ x < sx + width
      · obtain ⟨h₁, h₂, h₃, h₄⟩ := hregion
        rw [if_pos ⟨h₁, h₂, h₃, h₄⟩, hagree, shown_videoEraseChar]
        rcases hreg y x h₁ h₂ h₃ h₄ with hblank | ⟨rfl, rfl⟩
        · exact hblank
        · exact absurd ⟨⟨by omega, by omega, by omega⟩, rfl, rfl⟩ hcell
      · rw [if_neg hregion]
        exact hagree

lemma Inv.scrollUp (h : Inv build s) (hcount : count ≤ vscrH) :
    Inv build ⟨scrup attr s.screen 0 vscrH count, psxvgaScroll build s.psxvga .up count⟩ where
  bottom := by
    have hbottom := h.bottom
    simp only [psxvgaScroll]
    split_ifs <;> simp only [vscrH] at * <;> omega
  agree := by
    intro y x hy hx
    simp only [cell_psxvgaScroll h.bottom hcount hy hx, scrup]
    by_cases hlast : y + count < vscrH
    · rw [if_pos hlast, if_pos (by omega)]
      exact h.agree (y + count) x hlast hx
    · rw [if_neg hlast, if_neg (by omega), if_pos ⟨Nat.zero_le y, hy⟩, shown_videoEraseChar]
      rfl

lemma Inv.ignored {op : Op} (h : Inv build s) (hop : Unchanged build attr s.screen op) :
    Inv build ⟨screenCall attr s.screen op, s.psxvga⟩ where
  bottom := h.bottom
  agree := fun y x hy hx => (h.agree y x hy hx).trans (hop y x hy hx).symm

lemma Inv.step {op : Op} {s' : Sys} {es : List Empty} (h : Inv build s) (hin : Inside build op)
    (hreg : Regular build attr s op) (hstep : step build attr s op = some (s', es)) :
    Inv build s' := by
  cases hstep
  cases op with
  | clear => exact h.clear hin hreg
  | putc c y x => exact h.putc c hin.1 hin.2
  | putcs => exact h.putcs hin.1 hin.2
  | scroll t b dir count =>
    cases dir with
    | up =>
      obtain ⟨rfl, rfl⟩ := hreg
      exact h.scrollUp hin.2.2
    | down => exact h.ignored hreg
  | bmove => exact h.ignored hreg

/-- **The driver follows the console layer.** In every run of `Regular` calls inside the screen,
from a blank screen on, the two screens show the same characters. -/
theorem screens_agree_of_regular {ops : List Op} {es : List Empty}
    (hrun : Exec (step build attr) (fun s op => Inside build op ∧ Regular build attr s op)
      (Sys.blank attr) ops es s) : Agree build s := by
  have hinv : Inv build s := hrun.invariant_state inv_blank
    fun t op u fs ht hok hs => ht.step hok.1 hok.2 hs
  exact hinv.agree

/-- A line is written, the screen scrolls, and the cell behind the line is cleared. -/
theorem screens_agree_of_regular_scroll :
    ∃ s es, Exec (step .lores 7) (fun s op => Inside .lores op ∧ Regular .lores 7 s op)
        (Sys.blank 7) [.putcs [0x748, 0x769] 20 0, .scroll 0 21 .up 1, .clear 19 2 1 1] es s ∧
      shown (s.psxvga.cell 19 1) = 0x69 ∧ Agree .lores s := by
  have hput : Exec (step .lores 7) (fun s op => Inside .lores op ∧ Regular .lores 7 s op)
      (Sys.blank 7) [.putcs [0x748, 0x769] 20 0] [] _ := .single ⟨by decide, trivial⟩ rfl
  have hscroll := hput.trans
    (.single ⟨(by decide : Inside .lores (.scroll 0 21 .up 1)), rfl, rfl⟩ rfl)
  have hrun := hscroll.trans (.single ⟨(by decide : Inside .lores (.clear 19 2 1 1)), by
    intro y x hy₁ hy₂ hx₁ hx₂
    obtain ⟨rfl, rfl⟩ : y = 19 ∧ x = 2 := by omega
    exact .inl (by decide +kernel)⟩ rfl)
  exact ⟨_, _, hrun, by decide +kernel, screens_agree_of_regular hrun⟩

/-- A character is put in row 1 and cleared again: the driver keeps it. -/
theorem clear_leaves_character :
    ∃ s es, Exec (step .lores 7) (fun _ op => Inside .lores op) (Sys.blank 7)
        [.putc 0x741 1 0, .clear 1 0 1 1] es s ∧
      shown (s.screen 1 0) = 32 ∧ shown (s.psxvga.cell 1 0) = 0x41 ∧ ¬ Agree .lores s := by
  refine Exec.exists_of_decide (fun s _ => shown (s.screen 1 0) = 32 ∧
    shown (s.psxvga.cell 1 0) = 0x41) (by decide +kernel) fun s es _ hcells => ?_
  refine ⟨hcells.1, hcells.2, fun hagree => ?_⟩
  have hcell := hagree 1 0 (by decide) (by decide)
  rw [hcells.1, hcells.2] at hcell
  cases hcell

end PsxLinux.Psxcon
