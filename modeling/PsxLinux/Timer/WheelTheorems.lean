import PsxLinux.Timer.Agenda
import Mathlib.Tactic.IntervalCases

/-!
# The timer wheel keeps an agenda

Level `l` of the wheel divides time into blocks of `gran l` ticks, and holds the timers of
`slots l` consecutive blocks, each block in the slot that its number gives. `base l` is the
first of these blocks: the next one to be cascaded, or, at level 0, the current tick. A timer
due at time `d` is on the list of block `d / gran l` of some level `l`.

The blocks ahead of the clock keep this when a timer is queued (`Lists.add`), cascading moves the
timers of one block down a level when the block begins (`cascadeTimers_spec`), and so every run
of the wheel is a trace of an agenda.
-/

namespace PsxLinux.Timer

open Lib Function

variable {τ : Type} [DecidableEq τ]

/-! ## Levels -/

/-- Ticks in a block of the level. -/
def gran : ℕ → ℕ
  | 0 => 1
  | n + 1 => 2 ^ (tvrBits + n * tvnBits)

def slots : ℕ → ℕ
  | 0 => tvrSize
  | _ + 1 => tvnSize

def slotOf (l d : ℕ) : ℕ := d / gran l % slots l

lemma gran_pos (l : ℕ) : 0 < gran l := by
  cases l with
  | zero => exact Nat.one_pos
  | succ n => exact Nat.two_pow_pos _

lemma slots_pos (l : ℕ) : 0 < slots l := by
  cases l with
  | zero => decide
  | succ n => show 0 < tvnSize; decide

lemma slots_le (l : ℕ) : slots l ≤ tvrSize := by
  cases l with
  | zero => decide
  | succ n => show tvnSize ≤ tvrSize; decide

lemma slotOf_lt (l d : ℕ) : slotOf l d < tvrSize :=
  lt_of_lt_of_le (Nat.mod_lt _ (slots_pos l)) (slots_le l)

lemma gran_succ {l : ℕ} (hl : l < 4) : gran (l + 1) = gran l * slots l := by
  revert l; decide

lemma gran_le {l : ℕ} (hl : l < 5) : gran l ≤ 2 ^ 26 := by
  revert l; decide

/-- In a window of `n` numbers the remainder decides. -/
lemma eq_of_window {c q n : ℕ} (hle : c ≤ q) (hlt : q < c + n) (h : q % n = c % n) : q = c := by
  have hmod : (q - c) % n = 0 := Nat.sub_mod_eq_zero_of_mod_eq h
  rw [Nat.mod_eq_of_lt (by omega)] at hmod
  omega

/-! ## Where a timer is queued -/

lemma toInt32_nonneg_iff (x : UInt32) : 0 ≤ x.toInt32 ↔ x.toNat < 2 ^ 31 := by
  have hneg : x.toBitVec.toInt < 0 ↔ 2 ^ 32 ≤ 2 * x.toNat := BitVec.toInt_neg_iff
  rw [Int32.le_iff_toInt_le]
  show 0 ≤ x.toBitVec.toInt ↔ _
  omega

/-- A time less than `2 ^ 31` ahead is a deadline of its own clock word. -/
lemma deadline_ofNat {now d : ℕ} (hle : now ≤ d) (hlt : d < now + 2 ^ 31) :
    deadline now (UInt32.ofNat d) = d := by
  have hsub : (UInt32.ofNat d - UInt32.ofNat now).toNat = d - now := by
    rw [← UInt32.ofNat_sub hle]
    exact UInt32.toNat_ofNat_of_lt' (show d - now < 2 ^ 32 by omega)
  unfold deadline
  rw [if_pos ((toInt32_nonneg_iff _).mpr (by omega))]
  omega

lemma and_tvnMask (n : ℕ) : n &&& tvnMask = n % tvnSize := Nat.and_two_pow_sub_one_eq_mod n 6

lemma and_tvrMask (n : ℕ) : n &&& tvrMask = n % tvrSize := Nat.and_two_pow_sub_one_eq_mod n 8

/-- The slot that the code computes from the clock word of a deadline. -/
lemma slot_eq {n : ℕ} (hn : n < 4) (d : ℕ) :
    ((UInt32.ofNat d).toNat >>> (tvrBits + n * tvnBits)) &&& tvnMask = slotOf (n + 1) d := by
  rw [and_tvnMask, Nat.shiftRight_eq_div_pow]
  show d % 2 ^ 32 / 2 ^ (tvrBits + n * tvnBits) % 64 = d / 2 ^ (tvrBits + n * tvnBits) % 64
  unfold tvrBits tvnBits
  interval_cases n <;> omega

lemma rootSlot_eq (d : ℕ) : (UInt32.ofNat d).toNat &&& tvrMask = slotOf 0 d := by
  rw [and_tvrMask]
  show d % 2 ^ 32 % 256 = d / 1 % 256
  omega

omit [DecidableEq τ] in
/-- **`internal_add_timer`** picks a slot for the deadline, at a level that is ahead of the
clock. -/
theorem vecOf_spec {w : Wheel τ} {now : ℕ} (timer : τ) (hclock : w.timerJiffies = UInt32.ofNat now)
    (hindex : w.index 0 = now % tvrSize) :
    ∃ l < 5, vecOf w timer = some (l, slotOf l (deadline now (w.expires timer))) ∧
      (l = 0 ∨ now + gran l ≤ deadline now (w.expires timer) ∧
        w.expires timer = UInt32.ofNat (deadline now (w.expires timer))) ∧
      deadline now (w.expires timer) < now + gran l * slots l := by
  unfold vecOf
  simp only [hclock]
  generalize w.expires timer = e
  by_cases hpast : 0 ≤ (e - UInt32.ofNat now).toInt32
  · -- the time is not past: its distance is below `2 ^ 31`, and it is the clock word of `d`
    have hfar := (toInt32_nonneg_iff _).mp hpast
    have hword := ofNat_deadline hpast
    have hd : deadline now e = now + (e - UInt32.ofNat now).toNat := by
      unfold deadline; rw [if_pos hpast]
    generalize deadline now e = d at hword hd
    generalize (e - UInt32.ofNat now) = idx at hd hfar hpast
    have hle : idx ≤ 0xffffffff := by
      show idx.toNat ≤ 4294967295
      omega
    subst hword
    have h₁ := slot_eq (n := 0) (by omega) d
    have h₂ := slot_eq (n := 1) (by omega) d
    have h₃ := slot_eq (n := 2) (by omega) d
    have h₄ := slot_eq (n := 3) (by omega) d
    rw [Nat.zero_mul, Nat.add_zero] at h₁
    rw [Nat.one_mul] at h₂
    rw [rootSlot_eq, h₁, h₂, h₃, h₄]
    have hlevel : ∀ l < 5, (l = 0 ∨ ¬ idx.toNat < gran l) → idx.toNat < gran l * slots l →
        ∃ l' < 5, some (l, slotOf l d) = some (l', slotOf l' d) ∧
          (l' = 0 ∨ now + gran l' ≤ d ∧ UInt32.ofNat d = UInt32.ofNat d) ∧
          d < now + gran l' * slots l' := fun l hl hnear hfar =>
      ⟨l, hl, rfl, hnear.imp_right fun h => ⟨by omega, rfl⟩, by omega⟩
    split_ifs with c₁ c₂ c₃ c₄ c₅
    · exact hlevel 0 (by omega) (.inl rfl) c₁
    · exact hlevel 1 (by omega) (.inr c₁) c₂
    · exact hlevel 2 (by omega) (.inr c₂) c₃
    · exact hlevel 3 (by omega) (.inr c₃) c₄
    · exact absurd hpast (Int32.not_le.mpr c₅)
    · exact hlevel 4 (by omega) (.inr c₄) (show idx.toNat < 2 ^ 32 by omega)
  · -- the time is past: the timer goes to the current slot
    have hneg := Int32.not_le.mp hpast
    have hfar : ∀ b ≤ 2 ^ 31, ¬ (e - UInt32.ofNat now).toNat < b := fun b hb h =>
      hpast ((toInt32_nonneg_iff _).mpr (by omega))
    have hd : deadline now e = now := by
      unfold deadline; rw [if_neg hpast]
    rw [if_neg (hfar tvrSize (by decide)), if_neg (hfar (1 <<< (tvrBits + tvnBits)) (by decide)),
      if_neg (hfar (1 <<< (tvrBits + 2 * tvnBits)) (by decide)),
      if_neg (hfar (1 <<< (tvrBits + 3 * tvnBits)) (by decide)), if_pos hneg, hd, hindex]
    refine ⟨0, by omega, ?_, .inl rfl, show now < now + 256 by omega⟩
    show some (0, now % 256) = some (0, now / 1 % 256)
    rw [Nat.div_one]

/-! ## The lists -/

/-- Every timer that is queued is in its place: `place` gives level and deadline. -/
structure Lists (w : Wheel τ) (now : ℕ) (place : τ → Option (ℕ × ℕ)) (base : ℕ → ℕ) : Prop where
  clock : w.timerJiffies = UInt32.ofNat now
  index : ∀ l < 5, w.index l = base l % slots l
  root : base 0 = now
  ahead : ∀ l < 5, (now + gran l - 1) / gran l ≤ base l
  behind : ∀ l < 5, base l ≤ now / gran l + 1
  mem : ∀ l i t, t ∈ w.vec l i ↔ ∃ d, place t = some (l, d) ∧ i = slotOf l d
  nodup : ∀ l i, (w.vec l i).Nodup
  level : ∀ t l d, place t = some (l, d) → l < 5
  window : ∀ t l d, place t = some (l, d) → base l ≤ d / gran l ∧ d / gran l < base l + slots l
  expires : ∀ t l d, place t = some (l, d) → l ≠ 0 → w.expires t = UInt32.ofNat d

section Lists

variable {w : Wheel τ} {now : ℕ} {place : τ → Option (ℕ × ℕ)} {base : ℕ → ℕ} {t : τ} {l d : ℕ}

omit [DecidableEq τ] in
/-- In the first slot of a level are the timers of its first block. -/
lemma Lists.first_block (h : Lists w now place base) (hp : place t = some (l, d))
    (hslot : w.index l = slotOf l d) : d / gran l = base l := by
  obtain ⟨hle, hlt⟩ := h.window t l d hp
  rw [h.index l (h.level t l d hp)] at hslot
  exact eq_of_window hle hlt hslot.symm

/-- The wheel without a timer. -/
def Wheel.without (w : Wheel τ) (t : τ) : Wheel τ :=
  { w with vec := fun n i => (w.vec n i).erase t }

lemma Lists.del (h : Lists w now place base) (hp : place t = some (l, d)) :
    listDel w t = .ok (w.without t) ∧ Lists (w.without t) now (update place t none) base := by
  have hqueued : w.queued t := by
    have hmem : t ∈ w.vec l (slotOf l d) := (h.mem l _ t).mpr ⟨d, hp, rfl⟩
    simp only [Wheel.queued, List.any_eq_true, List.mem_range, decide_eq_true_eq]
    exact ⟨l, h.level t l d hp, slotOf l d, slotOf_lt l d, hmem⟩
  have hother : ∀ {u n e}, update place t none u = some (n, e) → place u = some (n, e) := by
    intro u n e hu
    by_cases hut : u = t
    · simp [hut] at hu
    · simpa [update_of_ne hut] using hu
  refine ⟨if_pos hqueued, ?_⟩
  refine { h with mem := ?_, nodup := ?_, level := ?_, window := ?_, expires := ?_ }
  · intro n i u
    show u ∈ (w.vec n i).erase t ↔ _
    rw [(h.nodup n i).mem_erase_iff, h.mem]
    by_cases hut : u = t
    · simp [hut]
    · simp [hut]
  · exact fun n i => (h.nodup n i).erase t
  · exact fun u n e hu => h.level u n e (hother hu)
  · exact fun u n e hu => h.window u n e (hother hu)
  · exact fun u n e hu => h.expires u n e (hother hu)

lemma Lists.setExpires (h : Lists w now place base) (hp : place t = none) (e : UInt32) :
    Lists (w.setExpires t e) now place base := by
  refine { h with expires := ?_ }
  intro u n d hu hn
  have hut : u ≠ t := by
    rintro rfl
    rw [hp] at hu
    simp at hu
  show update w.expires t e u = _
  rw [update_of_ne hut]
  exact h.expires u n d hu hn

omit [DecidableEq τ] in
/-- A deadline ahead of the clock lies in the window of the level it is given. -/
lemma Lists.window_of_add (h : Lists w now place base) (hl : l < 5)
    (hnear : l = 0 ∧ now ≤ d ∨ now + gran l ≤ d) (hfar : d < now + gran l * slots l) :
    base l ≤ d / gran l ∧ d / gran l < base l + slots l := by
  have hpos := gran_pos l
  constructor
  · rcases hnear with ⟨rfl, hle⟩ | hle
    · rw [h.root]
      show now ≤ d / 1
      rw [Nat.div_one]
      exact hle
    · calc base l ≤ now / gran l + 1 := h.behind l hl
        _ = (now + gran l) / gran l := (Nat.add_div_right _ hpos).symm
        _ ≤ d / gran l := Nat.div_le_div_right hle
  · have hspan : (now + gran l - 1 + gran l * slots l) / gran l =
        (now + gran l - 1) / gran l + slots l := Nat.add_mul_div_left _ _ hpos
    have hlt : d / gran l < (now + gran l - 1 + gran l * slots l) / gran l := by
      rw [Nat.div_lt_iff_lt_mul hpos]
      have hfloor := Nat.div_add_mod (now + gran l - 1 + gran l * slots l) (gran l)
      have hmod := Nat.mod_lt (now + gran l - 1 + gran l * slots l) hpos
      rw [Nat.mul_comm] at hfloor
      omega
    have := h.ahead l hl
    omega

omit [DecidableEq τ] in
lemma Lists.index_zero (h : Lists w now place base) : w.index 0 = now % tvrSize := by
  rw [h.index 0 (by omega), h.root]
  rfl

/-- The slots after a timer is appended to one. -/
lemma append_vec (w : Wheel τ) (l j : ℕ) (t : τ) (n i : ℕ) :
    (w.append l j t).vec n i = w.vec n i ++ if n = l ∧ i = j then [t] else [] := by
  show update w.vec l _ n i = _
  by_cases hn : n = l
  · subst hn
    by_cases hi : i = j <;> simp [hi]
  · simp [hn]

lemma Lists.add (h : Lists w now place base) (hp : place t = none) :
    ∃ l < 5, internalAddTimer w t = w.append l (slotOf l (deadline now (w.expires t))) t ∧
      (l = 0 ∨ now + gran l ≤ deadline now (w.expires t)) ∧
      Lists (internalAddTimer w t) now
        (update place t (some (l, deadline now (w.expires t)))) base := by
  obtain ⟨l, hl, hvec, hnear, hfar⟩ := vecOf_spec t h.clock h.index_zero
  have hadd : internalAddTimer w t = w.append l (slotOf l (deadline now (w.expires t))) t := by
    unfold internalAddTimer
    rw [hvec]
  have hdue := le_deadline now (w.expires t)
  have hword : l ≠ 0 → w.expires t = UInt32.ofNat (deadline now (w.expires t)) := fun hl0 =>
    (hnear.resolve_left hl0).2
  generalize deadline now (w.expires t) = d at hnear hfar hadd hdue hword
  have hnew : ∀ {u n e}, update place t (some (l, d)) u = some (n, e) →
      (u = t ∧ n = l ∧ e = d) ∨ (u ≠ t ∧ place u = some (n, e)) := by
    intro u n e hu
    exact (update_cases hu).imp_left (And.imp_right fun heq => some_pair_inj heq.symm)
  have hnot : ∀ n i, t ∉ w.vec n i := by
    intro n i hmem
    obtain ⟨e, he, -⟩ := (h.mem n i t).mp hmem
    rw [hp] at he
    simp at he
  refine ⟨l, hl, hadd, hnear.imp_right And.left, ?_⟩
  rw [hadd]
  refine { h with mem := ?_, nodup := ?_, level := ?_, window := ?_, expires := ?_ }
  · intro n i u
    have hlist : u ∈ (w.append l (slotOf l d) t).vec n i ↔
        u ∈ w.vec n i ∨ (u = t ∧ n = l ∧ i = slotOf l d) := by
      rw [append_vec]
      split_ifs with hslot <;> simp [hslot]
    rw [hlist, h.mem]
    constructor
    · rintro (⟨e, he, rfl⟩ | ⟨rfl, rfl, rfl⟩)
      · refine ⟨e, ?_, rfl⟩
        rw [update_of_ne (by rintro rfl; rw [hp] at he; simp at he)]
        exact he
      · exact ⟨d, update_self _ _ _, rfl⟩
    · rintro ⟨e, he, rfl⟩
      rcases hnew he with ⟨rfl, rfl, rfl⟩ | ⟨-, hu⟩
      · exact .inr ⟨rfl, rfl, rfl⟩
      · exact .inl ⟨e, hu, rfl⟩
  · intro n i
    rw [append_vec]
    split_ifs
    · rw [(List.perm_append_singleton t _).nodup_iff]
      exact List.nodup_cons.mpr ⟨hnot n _, h.nodup n _⟩
    · rw [List.append_nil]
      exact h.nodup n i
  · intro u n e hu
    rcases hnew hu with ⟨-, rfl, -⟩ | ⟨-, hu⟩
    · exact hl
    · exact h.level u n e hu
  · intro u n e hu
    rcases hnew hu with ⟨-, rfl, rfl⟩ | ⟨-, hu⟩
    · exact h.window_of_add hl (hnear.imp (fun h0 => ⟨h0, hdue⟩) And.left) hfar
    · exact h.window u n e hu
  · intro u n e hu hn0
    rcases hnew hu with ⟨rfl, rfl, rfl⟩ | ⟨-, hu⟩
    · exact hword hn0
    · exact h.expires u n e hu hn0

end Lists

/-! ## Cascading -/

/-- A timer is marked pending exactly when it is queued. -/
def Marked (w : Wheel τ) (place : τ → Option (ℕ × ℕ)) : Prop :=
  ∀ t, w.timerPending t = (place t).isSome

section Cascade

variable {w : Wheel τ} {now : ℕ} {place : τ → Option (ℕ × ℕ)} {base : ℕ → ℕ} {n : ℕ}

lemma Marked.add {p : Option (ℕ × ℕ)} {w' : Wheel τ} {t : τ} (hm : Marked w place)
    (hpend : w'.timerPending = update w.timerPending t p.isSome) :
    Marked w' (update place t p) := by
  intro u
  rw [hpend]
  by_cases hu : u = t
  · rw [hu, update_self, update_self]
  · rw [update_of_ne hu, update_of_ne hu]
    exact hm u

/-- The same timers have the same deadlines, whatever their levels. -/
def SameDue (place place' : τ → Option (ℕ × ℕ)) : Prop :=
  ∀ t, (place' t).map Prod.snd = (place t).map Prod.snd

/-- The list of the block that begins now moves down, timer by timer. -/
lemma cascadeLoop_spec (hn : n < 5) (hn0 : n ≠ 0) (hblock : base n * gran n = now) (list : List τ) :
    ∀ {w : Wheel τ} {place : τ → Option (ℕ × ℕ)}, Lists w now place base → Marked w place →
      w.vec n (w.index n) = list →
      ∃ w' place', cascadeLoop n (w.index n) (list.length + 1) list.head? w = .ok w' ∧
        Lists w' now place' base ∧ Marked w' place' ∧ w'.vec n (w.index n) = [] ∧
        w'.index = w.index ∧ SameDue place place' := by
  induction list with
  | nil =>
    intro w place h hm hlist
    exact ⟨w, place, rfl, h, hm, hlist, rfl, fun _ => rfl⟩
  | cons t list ih =>
    intro w place h hm hlist
    have hmem : t ∈ w.vec n (w.index n) := by rw [hlist]; exact List.mem_cons_self
    obtain ⟨d, hp, hslot⟩ := (h.mem _ _ _).mp hmem
    -- the timer is due within the block, so it goes to a level below
    have hd := h.first_block hp hslot
    have hgran := gran_pos n
    have hsmall := gran_le hn
    have hdiv := Nat.div_add_mod d (gran n)
    have hmod := Nat.mod_lt d hgran
    rw [hd, Nat.mul_comm] at hdiv
    have hexp := h.expires t n d hp hn0
    have hdue : deadline now (w.expires t) = d := by
      rw [hexp]
      exact deadline_ofNat (by omega) (by omega)
    obtain ⟨hdel, hlists⟩ := h.del hp
    obtain ⟨l, -, hadd, hnear, hlists'⟩ := hlists.add (update_self _ _ _)
    rw [show (w.without t).expires t = w.expires t from rfl, hdue] at hadd hnear hlists'
    have hl : n ≠ l := by
      rintro rfl
      omega
    rw [update_idem] at hlists'
    have hm' : Marked (internalAddTimer (w.without t) t) (update place t (some (l, d))) :=
      hm.add (by rw [hadd]; rfl)
    have hlist' : (internalAddTimer (w.without t) t).vec n (w.index n) = list := by
      rw [hadd, append_vec, if_neg fun hnl => hl hnl.1, List.append_nil]
      show (w.vec n (w.index n)).erase t = list
      rw [hlist, List.erase_cons_head]
    have hindex : (internalAddTimer (w.without t) t).index = w.index := by rw [hadd]; rfl
    obtain ⟨w', place', hloop, hl', hmark, hempty, hidx, hsame⟩ :=
      ih hlists' hm' (by rw [hindex]; exact hlist')
    rw [hindex] at hloop hempty hidx
    refine ⟨w', place', ?_, hl', hmark, hempty, hidx, fun u => ?_⟩
    · have hnext : nextOf (w.vec n (w.index n)) t = list.head? := by
        rw [hlist]
        simp [nextOf]
      show cascadeLoop n (w.index n) (list.length + 1 + 1) (some t) w = _
      rw [cascadeLoop, hdel, hnext]
      exact hloop
    · rw [hsame u]
      by_cases hu : u = t
      · rw [hu, update_self, hp]
        rfl
      · rw [update_of_ne hu]

/-- **`cascade_timers`** at the beginning of a block empties the slot of the block, and the
level is then ahead of the clock. -/
theorem cascadeTimers_spec (h : Lists w now place base) (hm : Marked w place) (hn : n < 5)
    (hn0 : n ≠ 0) (hblock : base n * gran n = now) :
    ∃ w' place', cascadeTimers w n = .ok w' ∧
      Lists w' now place' (update base n (base n + 1)) ∧ Marked w' place' ∧
      SameDue place place' := by
  obtain ⟨w', place', hloop, h', hm', hempty, hidx, hsame⟩ :=
    cascadeLoop_spec hn hn0 hblock (w.vec n (w.index n)) h hm rfl
  refine ⟨{ w' with
    vec := update w'.vec n (update (w'.vec n) (w.index n) [])
    index := update w'.index n ((w'.index n + 1) &&& tvnMask) }, place', ?_, ?_, hm', hsame⟩
  · unfold cascadeTimers
    simp only [hloop]
  · have hvec : update w'.vec n (update (w'.vec n) (w.index n) []) = w'.vec := by
      rw [← hempty, update_eq_self, update_eq_self]
    have hdiv : now / gran n = base n := by rw [← hblock, Nat.mul_div_cancel _ (gran_pos n)]
    rw [hvec]
    refine { h' with index := ?_, root := ?_, ahead := ?_, behind := ?_, window := ?_ }
    · intro l hl
      show update w'.index n _ l = _
      by_cases hln : l = n
      · subst hln
        obtain ⟨k, rfl⟩ := Nat.exists_eq_succ_of_ne_zero hn0
        rw [update_self, update_self, and_tvnMask, h'.index _ hl]
        exact Nat.mod_add_mod _ _ _
      · rw [update_of_ne hln, update_of_ne hln]
        exact h'.index l hl
    · rw [update_of_ne (Ne.symm hn0)]
      exact h'.root
    · exact (forall_update_iff base fun l b => l < 5 → (now + gran l - 1) / gran l ≤ b).2
        ⟨fun hl => Nat.le_succ_of_le (h'.ahead n hl), fun l _ => h'.ahead l⟩
    · exact (forall_update_iff base fun l b => l < 5 → b ≤ now / gran l + 1).2
        ⟨fun _ => by rw [hdiv], fun l _ => h'.behind l⟩
    · intro t l d hp
      obtain ⟨hle, hlt⟩ := h'.window t l d hp
      by_cases hln : l = n
      · subst hln
        rw [update_self]
        -- what is not in the emptied slot is in a later block
        have hne : base l ≠ d / gran l := by
          intro he
          have hmem : t ∈ w'.vec l (w.index l) := by
            refine (h'.mem l _ t).mpr ⟨d, hp, ?_⟩
            rw [← hidx, h'.index l hn, he]
            rfl
          rw [hempty] at hmem
          simp at hmem
        omega
      · rw [update_of_ne hln]
        exact ⟨hle, hlt⟩

/-- Levels above the root before and after the cascade of the current tick. -/
def Fresh (now : ℕ) (base : ℕ → ℕ) : Prop :=
  ∀ l, 0 < l → l < 5 → base l = (now + gran l - 1) / gran l

def Cascaded (now : ℕ) (base : ℕ → ℕ) : Prop :=
  ∀ l, 0 < l → l < 5 → base l = now / gran l + 1

lemma ceil_of_dvd {g : ℕ} (hg : 0 < g) (h : g ∣ now) : (now + g - 1) / g = now / g := by
  obtain ⟨q, rfl⟩ := h
  rw [Nat.add_sub_assoc hg, Nat.mul_add_div hg, Nat.mul_div_cancel_left _ hg,
    Nat.div_eq_of_lt (by omega)]
  rfl

lemma ceil_of_not_dvd {g : ℕ} (hg : 0 < g) (h : ¬ g ∣ now) : (now + g - 1) / g = now / g + 1 := by
  have hlt := Nat.mod_lt now hg
  have hdiv := Nat.div_add_mod now g
  have hsucc : g * (now / g + 1) = g * (now / g) + g := by rw [Nat.mul_add, Nat.mul_one]
  have hsum : now + g - 1 = g * (now / g + 1) + (now % g - 1) := by omega
  rw [hsum, Nat.mul_add_div hg, Nat.div_eq_of_lt (show now % g - 1 < g by omega)]

lemma gran_dvd {m l : ℕ} (h : m ≤ l) : gran (m + 1) ∣ gran (l + 1) := by
  refine Nat.pow_dvd_pow 2 ?_
  have := Nat.mul_le_mul_right tvnBits h
  omega

/-- A level begins a block exactly when the level below begins its round. -/
lemma gran_succ_dvd (hn : n < 4) (h : gran n ∣ now) :
    gran (n + 1) ∣ now ↔ now / gran n % slots n = 0 := by
  rw [gran_succ hn]
  obtain ⟨q, rfl⟩ := h
  rw [Nat.mul_div_cancel_left _ (gran_pos n), Nat.mul_dvd_mul_iff_left (gran_pos n),
    Nat.dvd_iff_mod_eq_zero]

omit [DecidableEq τ] in
lemma SameDue.trans {p₁ p₂ p₃ : τ → Option (ℕ × ℕ)} (h : SameDue p₁ p₂) (h' : SameDue p₂ p₃) :
    SameDue p₁ p₃ := fun t => (h' t).trans (h t)

/-- **The cascade of a tick.** Every level whose block begins now is cascaded, and no other. -/
theorem cascadeFrom_spec : ∀ (fuel : ℕ) {n : ℕ} {w : Wheel τ} {place : τ → Option (ℕ × ℕ)}
    {base : ℕ → ℕ}, n + 1 + fuel = 5 → Lists w now place base → Marked w place →
    (fuel ≠ 0 → gran (n + 1) ∣ now) →
    (∀ l, 0 < l → l ≤ n → base l = now / gran l + 1) →
    (∀ l, n < l → l < 5 → base l = (now + gran l - 1) / gran l) →
    ∃ w' place' base', cascadeFrom fuel (n + 1) w = .ok w' ∧ Lists w' now place' base' ∧
      Marked w' place' ∧ SameDue place place' ∧ Cascaded now base' := by
  intro fuel
  induction fuel with
  | zero =>
    intro n w place base hfuel h hm _ hdone _
    exact ⟨w, place, base, rfl, h, hm, fun _ => rfl, fun l hl hl5 => hdone l hl (by omega)⟩
  | succ fuel ih =>
    intro n w place base hfuel h hm hdvd hdone hrest
    have hn : n + 1 < 5 := by omega
    have hgran := gran_pos (n + 1)
    have hdiv := hdvd (by omega)
    have hbase : base (n + 1) = now / gran (n + 1) := by
      rw [hrest (n + 1) (by omega) hn, ceil_of_dvd hgran hdiv]
    have hblock : base (n + 1) * gran (n + 1) = now := by
      rw [hbase]
      exact Nat.div_mul_cancel hdiv
    obtain ⟨w', place', hcasc, h', hm', hsame⟩ :=
      cascadeTimers_spec h hm hn (Nat.succ_ne_zero n) hblock
    have hindex : w'.index (n + 1) = (now / gran (n + 1) + 1) % 64 := by
      rw [h'.index (n + 1) hn, update_self, hbase]
      rfl
    have hdone' : ∀ l, 0 < l → l ≤ n + 1 →
        update base (n + 1) (base (n + 1) + 1) l = now / gran l + 1 := by
      intro l hl hle
      by_cases hln : l = n + 1
      · rw [hln, update_self, hbase]
      · rw [update_of_ne hln]
        exact hdone l hl (by omega)
    have hrest' : ∀ l, n + 1 < l → l < 5 →
        update base (n + 1) (base (n + 1) + 1) l = (now + gran l - 1) / gran l := by
      intro l hl hl5
      rw [update_of_ne (by omega)]
      exact hrest l (by omega) hl5
    by_cases hone : w'.index (n + 1) = 1
    · -- the level begins its round: the next level begins a block
      obtain ⟨w'', place'', base'', hrun, h'', hm'', hsame', hc⟩ :=
        ih (by omega) h' hm' (fun hf => (gran_succ_dvd (by omega) hdiv).mpr (by
          show now / gran (n + 1) % 64 = 0
          omega)) hdone' hrest'
      refine ⟨w'', place'', base'', ?_, h'', hm'', hsame.trans hsame', hc⟩
      rw [cascadeFrom, hcasc]
      simp only [hone]
      exact hrun
    · refine ⟨w', place', _, ?_, h', hm', hsame, fun l hl hl5 => ?_⟩
      · rw [cascadeFrom, hcasc]
        simp only [hone, if_false]
      · -- no block begins at the levels above
        by_cases hle : l ≤ n + 1
        · exact hdone' l hl hle
        · rw [hrest' l (by omega) hl5]
          refine ceil_of_not_dvd (gran_pos l) fun hd => hone ?_
          obtain ⟨k, rfl⟩ := Nat.exists_eq_succ_of_ne_zero (by omega : l ≠ 0)
          have hup : gran (n + 1 + 1) ∣ now := (gran_dvd (by omega)).trans hd
          have hzero : now / gran (n + 1) % 64 = 0 :=
            (gran_succ_dvd (by omega) hdiv).mp hup
          omega

end Cascade

end PsxLinux.Timer
