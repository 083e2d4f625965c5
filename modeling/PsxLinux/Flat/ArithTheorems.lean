import PsxLinux.Flat.Reloc

/-!
# What relocation records add

A list of records is *paired* if a LO16 record of the same sections follows each HI16 record at once.
Processing such a list adds to each addressed word, jump target or pair of immediates the address the
record names, and leaves all other bytes (`relocates`). A jump target has no bits for an address
that is not a multiple of 4, and two immediates in one word cannot both be kept.
-/

namespace PsxLinux.Flat

open Lib Memory BitVec

/-! ## The effect of a record -/

def jumpTarget (w : Word) : Word := (w &&& 0x3ffffff) <<< 2

/-- What the immediates of two instructions denote. -/
def pairValue (hi lo : Word) : Word := ((hi &&& 0xffff) <<< 16) + short (lo &&& 0xffff)

/-- All bytes but those of these words are as they were. -/
def OnlyWords (ptrs : List Word) (m m' : Memory) : Prop :=
  ∀ x, (∀ ptr ∈ ptrs, 4 ≤ (x - ptr).toNat) → m' x = m x

def Apart (p q : Word) : Prop := 4 ≤ (q - p).toNat ∧ 4 ≤ (p - q).toNat

/-- A record that is not HI16, between two states of the memory. -/
def RecordOk (mm : MmStruct) (r : Word) (m m' : Memory) : Prop :=
  match relocBase mm r, relocPtr mm r, relocType r with
  | some base, some ptr, some .abs32 =>
    m'.word ptr = m.word ptr + base ∧ OnlyWords [ptr] m m'
  | some base, some ptr, some .jump26 =>
    -- the sum is rounded down to an instruction
    (jumpTarget (m'.word ptr)).toNat =
      ((jumpTarget (m.word ptr)).toNat + base.toNat) % 2 ^ 28 / 4 * 4 ∧
      m'.word ptr &&& 0xfc000000 = m.word ptr &&& 0xfc000000 ∧ OnlyWords [ptr] m m'
  | _, _, _ => m' = m

/-- The immediates of two words denote `base` more than before. -/
def PairMoved (base p q : Word) (m m' : Memory) : Prop :=
  OnlyWords [p, q] m m' ∧ (Apart p q →
    pairValue (m'.word p) (m'.word q) = pairValue (m.word p) (m.word q) + base ∧
    m'.word p &&& 0xffff0000 = m.word p &&& 0xffff0000 ∧
    m'.word q &&& 0xffff0000 = m.word q &&& 0xffff0000)

/-- A HI16 record and the LO16 record behind it. -/
def PairOk (mm : MmStruct) (hi lo : Word) (m m' : Memory) : Prop :=
  match relocBase mm lo, relocPtr mm hi, relocPtr mm lo with
  | some base, some p, some q => PairMoved base p q m m'
  | _, _, _ => m' = m

/-- Each HI16 record is followed by a LO16 record of the same sections. -/
inductive Paired : List Word → Prop
  | nil : Paired []
  | single {r : Word} {l : List Word} : relocType r ≠ some .hi16 → Paired l → Paired (r :: l)
  | pair {hi lo : Word} {l : List Word} : relocType hi = some .hi16 → relocType lo = some .lo16 →
      hi &&& relMask = lo &&& relMask → hi &&& inMask = lo &&& inMask → Paired l →
      Paired (hi :: lo :: l)

/-- The effects of the records of a paired list, one after the other. -/
inductive Relocates (mm : MmStruct) : List Word → Memory → Memory → Prop
  | nil (m : Memory) : Relocates mm [] m m
  | single {r : Word} {l : List Word} {m m₁ m₂ : Memory} : relocType r ≠ some .hi16 →
      RecordOk mm r m m₁ → Relocates mm l m₁ m₂ → Relocates mm (r :: l) m m₂
  | pair {hi lo : Word} {l : List Word} {m m₁ m₂ : Memory} : relocType hi = some .hi16 →
      PairOk mm hi lo m m₁ → Relocates mm l m₁ m₂ → Relocates mm (hi :: lo :: l) m m₂

/-- The list is processed record by record. -/
def relocate (mm : MmStruct) (l : List Word) (s : Statics × Memory) : Statics × Memory :=
  l.foldl (fun s r => doReloc mm r s) s

/-! ## Arithmetic of the fields -/

/-- Two fields of a word, each taken from another word. -/
lemma and_splice {x y H L : Word} (h : H &&& L = 0) :
    ((x &&& H) ||| (y &&& L)) &&& H = x &&& H ∧ ((x &&& H) ||| (y &&& L)) &&& L = y &&& L := by
  constructor <;> ext i hi <;> have hbit := congrArg (·.getLsbD i) h <;> simp at hbit ⊢ <;> grind

lemma toNat_and_ffff (x : Word) : (x &&& 0xffff).toNat = x.toNat % 2 ^ 16 := by
  exact Nat.and_two_pow_sub_one_eq_mod _ 16

lemma toNat_jumpTarget (w : Word) : (jumpTarget w).toNat = w.toNat % 2 ^ 26 * 4 := by
  have hand : (w &&& 0x3ffffff).toNat = w.toNat % 2 ^ 26 := by
    exact Nat.and_two_pow_sub_one_eq_mod _ 26
  rw [jumpTarget, toNat_shiftLeft]
  omega

lemma toNat_short (x : Word) : (short x).toNat =
    if x.toNat % 2 ^ 16 < 2 ^ 15 then x.toNat % 2 ^ 16 else x.toNat % 2 ^ 16 + (2 ^ 32 - 2 ^ 16) := by
  rw [short, toNat_signExtend, msb_eq_decide]
  split_ifs <;> simp_all <;> omega

/-- What the low half borrows comes from the high half. -/
lemma halves_eq (res : Word) :
    ((((res - short res) >>> 16) &&& 0xffff) <<< 16) + short (res &&& 0xffff) = res := by
  have hshort : short (res &&& 0xffff) = short res := by
    apply eq_of_toNat_eq
    rw [toNat_short, toNat_short, toNat_and_ffff, Nat.mod_mod]
  have hhigh : (((res - short res) >>> 16) &&& 0xffff) <<< 16 = res - short res := by
    apply eq_of_toNat_eq
    have h := toNat_short res
    rw [toNat_shiftLeft, toNat_and_ffff, toNat_ushiftRight, toNat_sub,
      Nat.shiftLeft_eq, Nat.shiftRight_eq_div_pow]
    split_ifs at h <;> omega
  rw [hshort, hhigh, sub_add_cancel]

/-! ## The records -/

variable {mm : MmStruct} {r hi lo p q base : Word} {st : Statics} {m : Memory}

lemma doReloc_single (mm : MmStruct) (m : Memory) (hr : relocType r ≠ some .hi16)
    (hflag : st.hiFlag = false) :
    RecordOk mm r m (doReloc mm r (st, m)).2 ∧ (doReloc mm r (st, m)).1.hiFlag = false := by
  unfold RecordOk doReloc
  cases relocBase mm r with
  | none => exact ⟨rfl, hflag⟩
  | some base =>
    cases relocPtr mm r with
    | none => exact ⟨rfl, hflag⟩
    | some ptr =>
      have honly : ∀ v, OnlyWords [ptr] m (m.setWord ptr v) :=
        fun v x hx => setWord_of_le (hx ptr (by simp))
      cases htype : relocType r with
      | none => exact ⟨rfl, hflag⟩
      | some type =>
        cases type with
        | abs32 => exact ⟨⟨word_setWord _, honly _⟩, hflag⟩
        | hi16 => exact absurd htype hr
        | lo16 => simp [relocWord, hflag]
        | jump26 =>
          refine ⟨⟨?_, ?_, honly _⟩, hflag⟩
          · simp only [relocWord, word_setWord]
            rw [jumpTarget, (and_splice (by decide)).2]
            show (jumpTarget ((jumpTarget (m.word ptr) + base) >>> 2)).toNat = _
            rw [toNat_jumpTarget, toNat_ushiftRight, toNat_add, Nat.shiftRight_eq_div_pow]
            omega
          · simp only [relocWord, word_setWord]
            exact (and_splice (by decide)).1

/-- A LO16 record that finds the HI16 record of its sections. -/
lemma relocWord_lo16 (hrel : hi &&& relMask = lo &&& relMask) (hin : hi &&& inMask = lo &&& inMask) :
    PairMoved base p q m (relocWord lo base q .lo16 (relocWord hi base p .hi16 (st, m))).2 := by
  simp only [PairMoved, relocWord, hrel, hin, Bool.not_true, bne_self_eq_false, Bool.or_self,
    Bool.false_eq_true, if_false]
  refine ⟨fun x hx => ?_, fun ⟨hpq, hqp⟩ => ?_⟩
  · rw [setWord_of_le (hx q (by simp)), setWord_of_le (hx p (by simp))]
  · rw [word_setWord, word_setWord_of_le hqp (by bv_omega), word_setWord,
      word_setWord_of_le hpq (by bv_omega)]
    refine ⟨?_, (and_splice (by decide)).1, (and_splice (by decide)).1⟩
    rw [pairValue, (and_splice (by decide)).2, (and_splice (by decide)).2]
    exact halves_eq _

lemma doReloc_pair (mm : MmStruct) (m : Memory) (hhi : relocType hi = some .hi16)
    (hlo : relocType lo = some .lo16) (hrel : hi &&& relMask = lo &&& relMask)
    (hin : hi &&& inMask = lo &&& inMask) (hflag : st.hiFlag = false) :
    PairOk mm hi lo m (doReloc mm lo (doReloc mm hi (st, m))).2 ∧
      (doReloc mm lo (doReloc mm hi (st, m))).1.hiFlag = false := by
  have hbase : relocBase mm hi = relocBase mm lo := by simp only [relocBase, hrel]
  have hptr : relocPtr mm hi = none ↔ relocPtr mm lo = none := by
    simp only [relocPtr, hin]
    split_ifs <;> simp
  unfold PairOk doReloc
  rw [hbase, hhi, hlo]
  cases relocBase mm lo with
  | none => exact ⟨rfl, hflag⟩
  | some base =>
    cases hp : relocPtr mm hi with
    | none =>
      rw [hptr.1 hp]
      exact ⟨rfl, hflag⟩
    | some p =>
      cases hq : relocPtr mm lo with
      | none => simp [hp, hq] at hptr
      | some q => exact ⟨relocWord_lo16 hrel hin, by simp [relocWord, hrel, hin]⟩

/-- **The arithmetic of relocation.** A paired list, processed while no HI16 record is pending, has
the effects of its records and leaves none pending. -/
theorem relocates {l : List Word} (hl : Paired l) (hflag : st.hiFlag = false) :
    Relocates mm l m (relocate mm l (st, m)).2 ∧ (relocate mm l (st, m)).1.hiFlag = false := by
  induction hl generalizing st m with
  | nil => exact ⟨.nil m, hflag⟩
  | single hr _ ih =>
    obtain ⟨hok, hnext⟩ := doReloc_single mm m hr hflag
    exact ⟨.single hr hok (ih hnext).1, (ih hnext).2⟩
  | pair hhi hlo hrel hin _ ih =>
    obtain ⟨hok, hnext⟩ := doReloc_pair mm m hhi hlo hrel hin hflag
    exact ⟨.pair hhi hok (ih hnext).1, (ih hnext).2⟩

/-- A pair, at the words 0 and 4 of the text. -/
theorem relocates_pair :
    Relocates ⟨0x18000, 0, 0⟩ [0x01000000, 0x02000004] (fun _ => 0)
      (relocate ⟨0x18000, 0, 0⟩ [0x01000000, 0x02000004] (Statics.boot, fun _ => 0)).2 :=
  (relocates (.pair (by decide) (by decide) (by decide) (by decide) .nil) rfl).1

/-- A jump target plus 2 is not stored, and neither is a pair of immediates in one word. -/
theorem field_too_small :
    let mm : MmStruct := ⟨0, 2, 0⟩
    let jump := (relocate mm [0x13000000] (Statics.boot, fun _ => 0)).2
    let pair := (relocate mm [0x11000000, 0x12000000] (Statics.boot, fun _ => 0)).2
    Paired [0x13000000] ∧ Paired [0x11000000, 0x12000000] ∧
      (jumpTarget (jump.word 0)).toNat ≠ (jumpTarget 0 + 2).toNat % 2 ^ 28 ∧
      pairValue (pair.word 0) (pair.word 0) ≠ pairValue 0 0 + 2 :=
  ⟨.single (by decide) .nil, .pair (by decide) (by decide) (by decide) (by decide) .nil,
    by decide, by decide⟩

end PsxLinux.Flat
