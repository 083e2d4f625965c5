import PsxLinux.Vt.Screen
import Mathlib.Data.List.Basic
import Mathlib.Tactic.Ring

/-!
# The cursor stays on the screen

Every function of the screen keeps the cursor on it, the address `pos` in step with `x` and `y`, and
the scrolling region a region, and it writes to the screen buffer only.
-/

namespace PsxLinux.Vt

/-! ## Conversions and sizes -/

lemma u32_natCast {n : Nat} (h : n < 4294967296) : u32 n = n := by
  unfold u32
  omega

/-- A number that is in range is not wrapped. -/
lemma u32_eq {n : Int} {m : Nat} (h : n = m) (hm : m < 4294967296) : u32 n = m := by
  rw [h, u32_natCast hm]

lemma s32_natCast {n : Nat} (h : n < 2147483648) : s32 n = n := if_pos h

namespace Geometry

variable (g : Geometry) {a : Nat}

lemma scrEnd_lt : g.scrEnd < 4294967296 := g.fits

lemma row_le (h : a ≤ g.lines) : a * g.sizeRow ≤ g.screenbufSize := Nat.mul_le_mul_right _ h

/-- A row of the screen lies inside of the buffer. -/
lemma row_lt (h : a < g.lines) : a * g.sizeRow + g.sizeRow ≤ g.screenbufSize := by
  rw [← Nat.succ_mul]
  exact g.row_le h

lemma sizeRow_eq : g.sizeRow = 2 * g.columns := rfl

lemma scrEnd_eq : g.scrEnd = g.origin + g.screenbufSize := rfl

lemma lines_lt : g.lines < 2147483648 := by
  have hmul : g.lines * 2 ≤ g.screenbufSize := by
    have hcols := g.columnsPos
    exact Nat.mul_le_mul_left _ (by rw [sizeRow_eq]; omega)
  have hend := g.scrEnd_lt
  rw [scrEnd_eq] at hend
  omega

end Geometry

/-- The access stays in its bounds. -/
def Access.InRange (g : Geometry) : Access → Prop
  | .screen addr bytes => g.origin ≤ addr ∧ addr + bytes ≤ g.scrEnd
  | .tabStop i => i < 5
  | .par i => i < nparMax
  | .palette i => i < 48
  | .hang => False

instance (g : Geometry) : (a : Access) → Decidable (a.InRange g)
  | .screen _ _ => inferInstanceAs (Decidable (_ ∧ _))
  | .tabStop _ | .par _ | .palette _ => inferInstanceAs (Decidable (_ < _))
  | .hang => inferInstanceAs (Decidable False)

namespace Screen

/-- The cursor is on the screen and everything has stayed in its bounds. -/
structure Ok (g : Geometry) (s : Screen) : Prop where
  x : s.x < g.columns
  y : s.y < g.lines
  pos : s.pos = g.origin + s.y * g.sizeRow + 2 * s.x
  region : s.top < s.bottom
  bottom : s.bottom ≤ g.lines
  log : ∀ a ∈ s.log, a.InRange g

variable {g : Geometry} {s : Screen}

/-- The rest of the cursor's row lies inside of the buffer. -/
lemma Ok.row (h : s.Ok g) : g.origin + 2 * s.x ≤ s.pos ∧
    s.pos + 2 * (g.columns - s.x) ≤ g.scrEnd ∧ s.x < g.columns ∧ g.scrEnd < 4294967296 := by
  have hrow := g.row_lt h.y
  have hpos := h.pos
  have hx := h.x
  rw [g.scrEnd_eq]
  rw [g.sizeRow_eq] at hrow hpos
  exact ⟨by omega, by omega, hx, g.scrEnd_lt⟩

/-- A write inside of the buffer. -/
lemma Ok.write (h : s.Ok g) {addr bytes : Nat} (hlow : g.origin ≤ addr)
    (hhigh : addr + bytes ≤ g.scrEnd) : (s.write addr bytes).Ok g :=
  { h with log := List.forall_mem_cons.2 ⟨⟨hlow, hhigh⟩, h.log⟩ }

lemma Ok.clearWrap (h : s.Ok g) : ({ s with needWrap := false } : Screen).Ok g :=
  { h with }

lemma Ok.writeClear (h : s.Ok g) {addr bytes : Nat} (hlow : g.origin ≤ addr)
    (hhigh : addr + bytes ≤ g.scrEnd) : ({ s.write addr bytes with needWrap := false } : Screen).Ok g :=
  (h.write hlow hhigh).clearWrap

lemma Ok.writeCell (h : s.Ok g) : (s.write s.pos 2).Ok g := by
  have hrow := h.row
  exact h.write (by omega) (by omega)

/-! ## Scrolling -/

/-- What is left of the region after scrolling is not empty. -/
lemma scrollLines_lt {t b : Nat} {nr : Int} (hb : b ≤ g.lines) (htb : t < b)
    (hint : nr < 2147483648) (hnr : 1 ≤ scrollLines t b nr) :
    t + (scrollLines t b nr).toNat < b := by
  have hlines := g.lines_lt
  unfold scrollLines at hnr ⊢
  split at hnr
  · have hrest : u32 ((b : Int) - t - 1) = b - t - 1 := u32_eq (by omega) (by omega)
    rw [s32_natCast (by omega)]
    omega
  · have hsum : u32 ((t : Int) + nr) = t + nr.toNat := u32_eq (by omega) (by omega)
    omega

/-- The rows that move and the rows that are cleared stay in the region. -/
lemma scroll_rows {t b n : Nat} (hb : b ≤ g.lines) (hn : t + n < b) :
    t * g.sizeRow + ((b - t - n) * g.sizeRow + n * g.sizeRow) ≤ g.screenbufSize := by
  have hsum : t * g.sizeRow + ((b - t - n) * g.sizeRow + n * g.sizeRow) = b * g.sizeRow := by
    rw [← Nat.add_mul, ← Nat.add_mul]
    congr 1
    omega
  rw [hsum]
  exact g.row_le hb

/-- A scroll that takes place: no product wraps. -/
lemma scroll_facts {t b : Nat} {nr : Int} (hint : nr < 2147483648)
    (hgo : ¬ (b > g.lines ∨ t ≥ b ∨ scrollLines t b nr < 1)) :
    ∃ n : Nat, scrollLines t b nr = n ∧
      g.origin + t * g.sizeRow + ((b - t - n) * g.sizeRow + n * g.sizeRow) ≤ g.scrEnd ∧
      u32 ((b : Int) - t - n) = b - t - n ∧
      u32 ((g.origin : Int) + g.sizeRow * t) = g.origin + t * g.sizeRow ∧
      u32 (((b - t - n : Nat) : Int) * g.sizeRow) = (b - t - n) * g.sizeRow := by
  have hb : b ≤ g.lines := by omega
  have hlt := scrollLines_lt hb (show t < b by omega) hint (by omega)
  obtain ⟨n, hn⟩ := Int.eq_ofNat_of_zero_le (show 0 ≤ scrollLines t b nr by omega)
  rw [hn, Int.toNat_natCast] at hlt
  have hrows := scroll_rows hb hlt
  have hend := g.scrEnd_lt
  have hendEq := g.scrEnd_eq
  have hlines := g.lines_lt
  exact ⟨n, hn, by omega, u32_eq (by omega) (by omega), u32_eq (by push_cast; ring) (by omega),
    u32_eq (by omega) (by omega)⟩

/-- Scrolling up moves rows of the region only. -/
lemma Ok.scrup (h : s.Ok g) {t b : Nat} {nr : Int} (hint : nr < 2147483648) :
    (s.scrup g t b nr).Ok g := by
  unfold Screen.scrup
  dsimp only
  split_ifs with hstop
  · exact h
  · obtain ⟨n, hn, hrows, hrest, hd, hmove⟩ := scroll_facts hint hstop
    have hend := g.scrEnd_lt
    have hsecond : u32 (((g.origin + t * g.sizeRow : Nat) : Int) +
        2 * (((b - t - n : Nat) : Int) * g.columns)) =
        g.origin + t * g.sizeRow + (b - t - n) * g.sizeRow :=
      u32_eq (by rw [g.sizeRow_eq]; push_cast; ring) (by omega)
    have hclear : u32 ((g.sizeRow : Int) * n) = n * g.sizeRow :=
      u32_eq (by push_cast; ring) (by omega)
    rw [hn, hrest, hd, hclear]
    apply Ok.write
    · exact h.write (by omega) (by omega)
    · omega
    · omega

/-- Scrolling down moves rows of the region only. -/
lemma Ok.scrdown (h : s.Ok g) {t b : Nat} {nr : Int} (hint : nr < 2147483648) :
    (s.scrdown g t b nr).Ok g := by
  unfold Screen.scrdown
  dsimp only
  split_ifs with hstop
  · exact h
  · obtain ⟨n, hn, hrows, hrest, hd, hmove⟩ := scroll_facts hint hstop
    have hend := g.scrEnd_lt
    have hdouble : 2 * (n * g.columns) = n * g.sizeRow := by
      rw [g.sizeRow_eq]
      ring
    have hstep : u32 ((g.columns : Int) * n) = n * g.columns :=
      u32_eq (by push_cast; ring) (by omega)
    have hsecond : u32 (((g.origin + t * g.sizeRow : Nat) : Int) + 2 * ((n * g.columns : Nat) : Int)) =
        g.origin + t * g.sizeRow + n * g.sizeRow :=
      u32_eq (by rw [← hdouble]; push_cast; ring) (by omega)
    have hclear : u32 (2 * ((n * g.columns : Nat) : Int)) = n * g.sizeRow :=
      u32_eq (by rw [← hdouble]; push_cast; rfl) (by omega)
    rw [hn, hrest, hd, hstep, hclear]
    apply Ok.write
    · exact h.write (by omega) (by omega)
    · omega
    · omega

/-! ## The cursor -/

section

variable (htop : s.top < s.bottom) (hbottom : s.bottom ≤ g.lines) (hlog : ∀ a ∈ s.log, a.InRange g)
  (decom : Bool) (newX newY : Int)
include htop hbottom hlog decom newX newY

/-- **`gotoxy`** clips, whatever its arguments. -/
theorem Ok.gotoxy : (s.gotoxy g decom newX newY).Ok g := by
  have hlines := g.lines_lt
  have hcols := g.columnsPos
  have hx : (if newX < 0 then 0 else if newX ≥ g.columns then g.columns - 1 else newX.toNat) <
      g.columns := by
    split_ifs <;> omega
  have hy : u32 (if newY < (if decom then s32 s.top else 0) then (if decom then s32 s.top else 0)
      else if newY ≥ (if decom then s32 s.bottom else s32 g.lines)
        then (if decom then s32 s.bottom else s32 g.lines) - 1 else newY) < g.lines := by
    rw [s32_natCast (show s.top < 2147483648 by omega),
      s32_natCast (show s.bottom < 2147483648 by omega), s32_natCast hlines]
    unfold u32
    split_ifs <;> omega
  unfold Screen.gotoxy
  dsimp only
  generalize (if newX < 0 then 0 else if newX ≥ g.columns then g.columns - 1 else newX.toNat) = x
    at hx ⊢
  generalize u32 (if newY < (if decom then s32 s.top else 0) then (if decom then s32 s.top else 0)
      else if newY ≥ (if decom then s32 s.bottom else s32 g.lines)
        then (if decom then s32 s.bottom else s32 g.lines) - 1 else newY) = y at hy ⊢
  have hrow := g.row_lt hy
  have hend := g.scrEnd_lt
  have hendEq := g.scrEnd_eq
  have hsize := g.sizeRow_eq
  have hpos : u32 ((g.origin : Int) + y * g.sizeRow + 2 * x) = g.origin + y * g.sizeRow + 2 * x :=
    u32_eq (by omega) (by omega)
  exact ⟨hx, hy, hpos, htop, hbottom, hlog⟩

lemma Ok.gotoxay : (s.gotoxay g decom newX newY).Ok g :=
  Ok.gotoxy htop hbottom hlog decom newX _

end

section
variable (h : s.Ok g)
include h

/-- A move of the cursor by `d` bytes along its address. -/
lemma Ok.move {x y : Nat} {needWrap : Bool} (d : Int) (hx : x < g.columns) (hy : y < g.lines)
    (hd : (y : Int) * g.sizeRow + 2 * x = s.y * g.sizeRow + 2 * s.x + d) :
    Ok g { s with x := x, y := y, pos := u32 (s.pos + d), needWrap := needWrap } := by
  have hrow := g.row_lt hy
  have hend := g.scrEnd_lt
  have hendEq := g.scrEnd_eq
  have hsize := g.sizeRow_eq
  refine ⟨hx, hy, ?_, h.region, h.bottom, h.log⟩
  simp only [h.pos]
  exact u32_eq (by omega) (by omega)

/-- A line feed scrolls at the bottom of the region. -/
lemma Ok.lf : (s.lf g).Ok g := by
  have hlines := g.lines_lt
  have hy := h.y
  unfold Screen.lf
  apply Ok.clearWrap
  split_ifs with hbottom hmore
  · exact h.scrup (by decide)
  · have hnext : u32 ((s.y : Int) + 1) = s.y + 1 := u32_eq (by omega) (by omega)
    have hlast : u32 ((g.lines : Int) - 1) = g.lines - 1 := u32_eq (by omega) (by omega)
    rw [hnext]
    exact h.move g.sizeRow h.x (by omega) (by push_cast; ring)
  · exact h

/-- A reverse index scrolls at the top of the region. -/
lemma Ok.ri : (s.ri g).Ok g := by
  have hy := h.y
  unfold Screen.ri
  apply Ok.clearWrap
  split_ifs with htop hmore
  · exact h.scrdown (by decide)
  · obtain ⟨y, hsucc⟩ := Nat.exists_eq_add_one.2 hmore
    refine h.move (-g.sizeRow) h.x (by omega) ?_
    rw [hsucc, Nat.add_sub_cancel]
    push_cast
    ring
  · exact h

lemma Ok.cr : s.cr.Ok g :=
  h.move (-(2 * s.x)) g.columnsPos h.y (by push_cast; ring)

lemma Ok.bs : s.bs.Ok g := by
  have hx := h.x
  unfold Screen.bs
  split_ifs with hzero
  · exact h.move (x := s.x - 1) (-2) (by omega) h.y (by omega)
  · exact h

/-! ## Erasing -/

/-- Erasing in the display, whatever the parameter. -/
lemma Ok.csiJ (vpar : Int) : (s.csiJ g vpar).Ok g := by
  have hrow := h.row
  have hendEq := g.scrEnd_eq
  unfold Screen.csiJ
  split_ifs
  · apply h.writeClear (by omega)
    unfold u32
    omega
  · apply h.writeClear (Nat.le_refl _)
    unfold u32
    omega
  · have hall : 2 * (g.columns * g.lines) = g.screenbufSize := by
      unfold Geometry.screenbufSize Geometry.sizeRow
      ring
    have hu : u32 (2 * ((g.columns : Int) * g.lines)) = g.screenbufSize :=
      u32_eq (by rw [← hall]; push_cast; rfl) (by omega)
    apply h.writeClear (Nat.le_refl _)
    omega
  · exact h

/-- Erasing in the line. -/
lemma Ok.csiK (vpar : Int) : (s.csiK g vpar).Ok g := by
  have hrow := h.row
  unfold Screen.csiK
  split_ifs
  · apply h.writeClear (by omega)
    unfold u32
    omega
  iterate 2 apply h.writeClear <;> unfold u32 <;> omega
  · exact h

lemma Ok.csiX (vpar : Int) : (s.csiX g vpar).Ok g := by
  have hrow := h.row
  have hrest : u32 ((g.columns : Int) - s.x) = g.columns - s.x := u32_eq (by omega) (by omega)
  unfold Screen.csiX
  dsimp only
  rw [hrest]
  generalize u32 (if vpar = 0 then vpar + 1 else vpar) = count
  have hcount : (if count > g.columns - s.x then g.columns - s.x else count) ≤ g.columns - s.x := by
    split_ifs <;> omega
  apply h.writeClear (by omega)
  unfold u32
  omega

end

/-! ## Insertion and deletion -/

/-- The loop of `insert_char` ends below `q`, and all it writes lies in the row. -/
lemma insertLoop_inRange {q nr k fuel : Nat} {log : List Access} (hq : 2 ≤ q) (hfuel : k < fuel)
    (hlow : g.origin ≤ q) (hhigh : q + 2 * k + 2 * nr ≤ g.scrEnd)
    (hlog : ∀ a ∈ log, a.InRange g) :
    ∀ a ∈ insertLoop q nr fuel (q + 2 * k) log, a.InRange g := by
  have hend := g.scrEnd_lt
  -- induction on the cells that are left
  induction k generalizing fuel log with
  | zero =>
    obtain _ | fuel := fuel
    · omega
    have hp : u32 (((q + 2 * 0 : Nat) : Int) - 2) = q - 2 := u32_eq (by omega) (by omega)
    rw [insertLoop]
    rw [if_neg (by omega)]
    exact hlog
  | succ k ih =>
    obtain _ | fuel := fuel
    · omega
    have hp : u32 (((q + 2 * (k + 1) : Nat) : Int) - 2) = q + 2 * k := u32_eq (by omega) (by omega)
    have haddr : u32 (((q + 2 * k : Nat) : Int) + 2 * nr) = q + 2 * k + 2 * nr :=
      u32_eq (by omega) (by omega)
    rw [insertLoop]
    rw [hp, if_pos (by omega)]
    apply ih (by omega) (by omega)
    exact List.forall_mem_cons.2 ⟨⟨by omega, by omega⟩, hlog⟩

/-- Characters move to the right inside of their row. -/
lemma Ok.insertChar (h : s.Ok g) {nr : Nat} (hnr : nr ≤ g.columns - s.x) :
    (s.insertChar g nr).Ok g := by
  have hrow := h.row
  have horigin := g.originPos
  have hp : u32 ((s.pos : Int) + 2 * g.columns - 2 * nr - 2 * s.x) =
      s.pos + 2 * (g.columns - s.x - nr) := u32_eq (by omega) (by omega)
  have hlog := @insertLoop_inRange g s.pos nr (g.columns - s.x - nr) (g.columns + 1) s.log (by omega)
    (by omega) (by omega) (by omega) h.log
  unfold Screen.insertChar
  dsimp only
  rw [hp]
  generalize insertLoop s.pos nr (g.columns + 1) (s.pos + 2 * (g.columns - s.x - nr)) s.log = log
    at hlog ⊢
  apply Ok.writeClear (s := { s with log := log }) { h with log := hlog } (by omega)
  unfold u32
  omega

/-- The loop of `delete_char` moves up to the cells that are cleared. -/
lemma deleteLoop_inRange {nr k i p fuel : Nat} {log : List Access} (hnr : nr ≤ g.columns)
    (hi : i + k + nr = g.columns) (hfuel : k < fuel) (hlow : g.origin ≤ p)
    (hhigh : p + 2 * k ≤ g.scrEnd) (hlog : ∀ a ∈ log, a.InRange g) :
    (deleteLoop g.columns nr fuel i p log).1 = p + 2 * k ∧
    ∀ a ∈ (deleteLoop g.columns nr fuel i p log).2, a.InRange g := by
  have hend := g.scrEnd_lt
  have hcols := g.columnsMax
  have hlimit : u32 ((g.columns : Int) - nr) = g.columns - nr := u32_eq (by omega) (by omega)
  -- induction on the cells that are left
  induction k generalizing i p fuel log with
  | zero =>
    obtain _ | fuel := fuel
    · omega
    have hnext : u32 ((i : Int) + 1) = i + 1 := u32_eq (by omega) (by omega)
    rw [deleteLoop]
    rw [if_neg (by omega)]
    exact ⟨rfl, hlog⟩
  | succ k ih =>
    obtain _ | fuel := fuel
    · omega
    have hnext : u32 ((i : Int) + 1) = i + 1 := u32_eq (by omega) (by omega)
    have haddr : u32 ((p : Int) + 2) = p + 2 := u32_eq (by omega) (by omega)
    rw [deleteLoop]
    rw [hnext, if_pos (by omega), haddr]
    have hrest := @ih (i + 1) (p + 2) fuel (.screen p 2 :: log) (by omega) (by omega) (by omega)
      (by omega) (List.forall_mem_cons.2 ⟨⟨by omega, by omega⟩, hlog⟩)
    refine ⟨?_, hrest.2⟩
    omega

/-- Characters move to the left inside of their row. -/
lemma Ok.deleteChar (h : s.Ok g) {nr : Nat} (hnr : nr ≤ g.columns - s.x) :
    (s.deleteChar g nr).Ok g := by
  have hrow := h.row
  have hloop := @deleteLoop_inRange g nr (g.columns - s.x - nr) s.x s.pos (g.columns + 1) s.log
    (by omega) (by omega) (by omega) (by omega) (by omega) h.log
  unfold Screen.deleteChar
  have hmid : ({ s with log := (deleteLoop g.columns nr (g.columns + 1) s.x s.pos s.log).2 } :
      Screen).Ok g := { h with log := hloop.2 }
  apply hmid.writeClear (by omega)
  unfold u32
  omega

/-- A count is clipped to what is left. -/
lemma clip_le {size place nr : Nat} (hplace : place < size) (hsize : size < 4294967296) :
    clip size place nr ≤ size - place := by
  have hrest : u32 ((size : Int) - place) = size - place := u32_eq (by omega) (by omega)
  unfold clip
  split_ifs <;> omega

lemma Ok.insertLine (h : s.Ok g) {nr : Nat} (hnr : nr < 2147483648) : (s.insertLine g nr).Ok g := by
  apply Ok.clearWrap
  apply h.scrdown
  rw [s32_natCast hnr]
  omega

lemma Ok.deleteLine (h : s.Ok g) {nr : Nat} (hnr : nr < 2147483648) : (s.deleteLine g nr).Ok g := by
  apply Ok.clearWrap
  apply h.scrup
  rw [s32_natCast hnr]
  omega

lemma Ok.csiAt (h : s.Ok g) (nr : Nat) : (s.csiAt g nr).Ok g := by
  have hcols := g.columnsMax
  exact h.insertChar (clip_le h.x (by omega))

lemma Ok.csiP (h : s.Ok g) (nr : Nat) : (s.csiP g nr).Ok g := by
  have hcols := g.columnsMax
  exact h.deleteChar (clip_le h.x (by omega))

lemma Ok.csiL (h : s.Ok g) (nr : Nat) : (s.csiL g nr).Ok g := by
  have hlines := g.lines_lt
  have hclip := @clip_le g.lines s.y nr h.y (by omega)
  exact h.insertLine (by omega)

lemma Ok.csiM (h : s.Ok g) (nr : Nat) : (s.csiM g nr).Ok g := by
  have hlines := g.lines_lt
  have hclip := @clip_le g.lines s.y nr h.y (by omega)
  exact h.deleteLine (by omega)

end Screen
end PsxLinux.Vt
