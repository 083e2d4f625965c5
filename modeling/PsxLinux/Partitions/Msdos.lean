import Mathlib.Data.Nat.Bitwise

/-!
# Extended partitions

The chain of partition tables inside an extended partition, as `fs/partitions/msdos.c` follows it.
The tables are data from the disk, so the chain may be a cycle. What ends the scan is `loopct` and the
minor numbers of the disk running out: `100 * current_minor + loopct` grows with every table.
-/

namespace PsxLinux.Partitions

open Function

/-- `struct hd_struct` -/
structure HdStruct where
  startSect : UInt32
  nrSects : UInt32

/-- `struct partition` -/
structure Partition where
  sysInd : UInt8
  startSect : UInt32
  nrSects : UInt32

/-- The first block of a device: the word at 510 and the entries at `0x1BE`. -/
structure Table where
  magic : UInt16
  entry : Fin 4 → Partition

/-- `hd->part`, `current_minor` and `loopct`, the number of blocks read, and the number of buffers
that are held. -/
structure Scan where
  part : ℕ → HdStruct
  currentMinor : ℕ
  loopct : ℕ
  reads : ℕ
  held : ℕ

def isExtendedPartition (p : Partition) : Bool :=
  p.sysInd = 0x05 || p.sysInd = 0x0f || p.sysInd = 0x85

def Scan.bforget (s : Scan) : Scan := { s with held := s.held - 1 }

section
variable (minorShift : ℕ) (sectorSize : UInt32) (disk : ℕ → HdStruct → Option Table)

/-- `current_minor & mask` -/
def low (currentMinor : ℕ) : ℕ := currentMinor &&& ((1 <<< minorShift) - 1)

/-- The entries that the first loop passes over: the third and fourth may be garbage. -/
def skips (first : HdStruct) (thisSector thisSize : UInt32) (i : Fin 4) (p : Partition) : Bool :=
  p.nrSects = 0 || isExtendedPartition p ||
    i ≥ 2 && p.startSect + p.nrSects > thisSize &&
      (thisSector + p.startSect < first.startSect ||
        thisSector + p.startSect + p.nrSects > first.startSect + first.nrSects)

/-- The loop over the data partitions, and whether it ends in `goto done`. -/
def dataPartitions (first : HdStruct) (thisSector thisSize : UInt32) (t : Table) :
    List (Fin 4) → Scan → Scan × Bool
  | [], s => (s, false)
  | i :: is, s =>
    let p := t.entry i
    if skips first thisSector thisSize i p then dataPartitions first thisSector thisSize t is s
    else
      let s := { s with
        part := update s.part s.currentMinor
          ⟨thisSector + p.startSect * sectorSize, p.nrSects * sectorSize⟩
        currentMinor := s.currentMinor + 1
        loopct := 0 }
      if low minorShift s.currentMinor = 0 then (s, true)
      else dataPartitions first thisSector thisSize t is s

/-- The `while` loop; `dev` is the minor number of the device whose first block is read. What the
read finds, if it does not fail, depends on the reads before it and on the range of the device. -/
def scan (first : HdStruct) : ℕ → ℕ → UInt32 → Scan → Option Scan
  | 0, _, _, _ => none
  | fuel + 1, dev, thisSector, s =>
    let s := { s with loopct := s.loopct + 1 }
    if s.loopct > 100 then some s
    else if low minorShift s.currentMinor = 0 then some s
    else
      match disk s.reads (s.part dev) with
      | none => some { s with reads := s.reads + 1 }
      | some t =>
        let s := { s with reads := s.reads + 1, held := s.held + 1 }
        if t.magic ≠ 0xaa55 then some s.bforget
        else
          match dataPartitions minorShift sectorSize first thisSector (s.part dev).nrSects t
            (List.finRange 4) s with
          | (s, true) => some s.bforget
          | (s, false) =>
            match (List.finRange 4).find? fun i =>
              (t.entry i).nrSects ≠ 0 ∧ isExtendedPartition (t.entry i) with
            | none => some s.bforget
            | some i =>
              let start := first.startSect + (t.entry i).startSect * sectorSize
              let s := { s with
                part := update s.part s.currentMinor ⟨start, (t.entry i).nrSects * sectorSize⟩ }
              -- `MINOR(MKDEV(hd->major, current_minor))`
              scan first fuel (s.currentMinor % 256) start s.bforget

def extendedPartition (fuel dev : ℕ) (s : Scan) : Option Scan :=
  scan minorShift sectorSize disk (s.part dev) fuel dev (s.part dev).startSect { s with loopct := 0 }

end

/-! ## The measure -/

/-- It grows by one with every table, and by a hundred with every data partition. -/
def Scan.progress (s : Scan) : ℕ := 100 * s.currentMinor + s.loopct

/-- The next minor to be given out is one of a disk, which ends before `e`, but not its own `w`. -/
structure Scan.Inside (w e : ℕ) (s : Scan) : Prop where
  above : w < s.currentMinor
  below : s.currentMinor < e
  loopct : s.loopct ≤ 100

/-- Only partitions of the disk are changed, and no buffer is kept. -/
structure Fills (w e : ℕ) (s s' : Scan) : Prop where
  part : ∀ m, ¬ (w < m ∧ m < e) → s'.part m = s.part m
  held : s'.held = s.held

/-- What the loop over the data partitions may do. -/
structure Adds (w e : ℕ) (s : Scan) (r : Scan × Bool) : Prop where
  fills : Fills w e s r.1
  reads : r.1.reads = s.reads
  goes : r.2 = false → r.1.Inside w e ∧ s.progress ≤ r.1.progress

/-- The scan ends, and has read no more tables than there was room for. -/
def Ends (w e : ℕ) (s : Scan) (r : Option Scan) : Prop :=
  ∃ s', r = some s' ∧ Fills w e s s' ∧ s'.reads + s.progress ≤ s.reads + 100 * e

section
variable {w e : ℕ} {s s' s'' : Scan}

lemma Fills.trans (h : Fills w e s s') (h' : Fills w e s' s'') : Fills w e s s'' :=
  ⟨fun m hm => (h'.part m hm).trans (h.part m hm), h'.held.trans h.held⟩

/-- The buffer of a table is released after the table has been used. -/
lemma Fills.bforget (h : Fills w e s' s'') (hpart : s'.part = s.part) (hheld : s'.held = s.held + 1) :
    Fills w e s s''.bforget :=
  ⟨fun m hm => (h.part m hm).trans (congrFun hpart m), Nat.sub_eq_of_eq_add (h.held.trans hheld)⟩

/-- A store at `current_minor`. -/
lemma Scan.Inside.fills (h : s.Inside w e) (p : HdStruct) (minor loopct : ℕ) :
    Fills w e s { s with
      part := update s.part s.currentMinor p, currentMinor := minor, loopct := loopct } := by
  refine ⟨fun m hm => update_of_ne ?_ _ _, rfl⟩
  rintro rfl
  exact hm ⟨h.above, h.below⟩

lemma Scan.Inside.progress_le (h : s.Inside w e) : s.progress ≤ 100 * e := by
  obtain ⟨-, hbelow, hloopct⟩ := h
  unfold Scan.progress
  omega

/-- A table was read on the way to `s'`. -/
lemma Ends.step {r : Option Scan} (h : Ends w e s' r) (hfills : Fills w e s s')
    (hreads : s'.reads = s.reads + 1) (hprogress : s.progress + 1 ≤ s'.progress) : Ends w e s r := by
  obtain ⟨s'', hr, hfills', hreads'⟩ := h
  exact ⟨s'', hr, hfills.trans hfills', by omega⟩

end

/-! ## The scan ends -/

section
variable {minorShift w : ℕ} {sectorSize : UInt32} {first : HdStruct} {thisSector : UInt32} {s : Scan}
  {e : ℕ} (hw : 2 ^ minorShift ∣ w) (he : e = w + 2 ^ minorShift)
include hw he

/-- The low bits vanish at the end of the disk and not before. -/
lemma low_eq_zero {m : ℕ} (h : w < m) (h' : m ≤ e) : low minorShift m = 0 ↔ m = e := by
  unfold low
  rw [Nat.one_shiftLeft, Nat.and_two_pow_sub_one_eq_mod, ← Nat.dvd_iff_mod_eq_zero]
  constructor
  · intro hdvd
    have hle := Nat.le_of_dvd (by omega) (Nat.dvd_sub hdvd hw)
    omega
  · intro hend
    rw [hend, he]
    exact Nat.dvd_add hw (dvd_refl _)

lemma adds_dataPartitions (thisSize : UInt32) (t : Table) (is : List (Fin 4))
    (h : s.Inside w e) :
    Adds w e s (dataPartitions minorShift sectorSize first thisSector thisSize t is s) := by
  induction is generalizing s with
  | nil => exact ⟨⟨fun _ _ => rfl, rfl⟩, rfl, fun _ => ⟨h, le_rfl⟩⟩
  | cons i is ih =>
    unfold dataPartitions
    dsimp only
    split
    case isTrue => exact ih h
    case isFalse =>
      split
      case isTrue => exact ⟨h.fills _ _ _, rfl, nofun⟩
      case isFalse hlow =>
        rw [low_eq_zero hw he (Nat.lt_succ_of_lt h.above) h.below] at hlow
        obtain ⟨hfills, hreads, hgoes⟩ := @ih { s with
          part := _, currentMinor := s.currentMinor + 1, loopct := 0 }
          ⟨Nat.lt_succ_of_lt h.above, lt_of_le_of_ne h.below hlow, Nat.zero_le _⟩
        refine ⟨(h.fills _ _ _).trans hfills, hreads, fun hgo => ⟨(hgoes hgo).1, ?_⟩⟩
        have hnext := (hgoes hgo).2
        have hloopct := h.loopct
        unfold Scan.progress at hnext ⊢
        dsimp only at hnext
        omega

lemma ends_scan (disk : ℕ → HdStruct → Option Table) {fuel dev : ℕ} (h : s.Inside w e)
    (hfuel : 100 * e < fuel + s.progress) :
    Ends w e s (scan minorShift sectorSize disk first fuel dev thisSector s) := by
  induction fuel generalizing s dev thisSector with
  | zero => exact absurd h.progress_le (by omega)
  | succ fuel ih =>
    unfold scan
    dsimp only
    split
    case isTrue => exact ⟨_, rfl, ⟨fun _ _ => rfl, rfl⟩, Nat.add_le_add_left h.progress_le _⟩
    case isFalse hcount =>
      -- one more link is followed
      have hnext : Scan.Inside w e
          { s with loopct := s.loopct + 1, reads := s.reads + 1, held := s.held + 1 } :=
        ⟨h.above, h.below, not_lt.1 hcount⟩
      have hread : s.reads + 1 + s.progress ≤ s.reads + 100 * e := by
        have hle : s.progress + 1 ≤ 100 * e := hnext.progress_le
        omega
      split
      case isTrue => exact ⟨_, rfl, ⟨fun _ _ => rfl, rfl⟩, Nat.add_le_add_left h.progress_le _⟩
      split
      case h_1 => exact ⟨_, rfl, ⟨fun _ _ => rfl, rfl⟩, hread⟩
      case h_2 t _ =>
        split
        case isTrue => exact ⟨_, rfl, ⟨fun _ _ => rfl, rfl⟩, hread⟩
        have hadds := @adds_dataPartitions _ _ sectorSize first thisSector _ _ hw he
          (s.part dev).nrSects t (List.finRange 4) hnext
        split
        case h_1 s₁ hdata =>
          rw [hdata] at hadds
          exact ⟨_, rfl, hadds.fills.bforget rfl rfl, hadds.reads ▸ hread⟩
        case h_2 s₁ hdata =>
          rw [hdata] at hadds
          obtain ⟨hinside, hmore⟩ := hadds.goes rfl
          split
          case h_1 => exact ⟨_, rfl, hadds.fills.bforget rfl rfl, hadds.reads ▸ hread⟩
          case h_2 i _ =>
            refine .step (ih { hinside with } ?_)
              ((hadds.fills.trans (hinside.fills _ _ _)).bforget rfl rfl) hadds.reads hmore
            have hgrows : s.progress + 1 ≤ s₁.progress := hmore
            exact lt_of_lt_of_le hfuel (show _ ≤ fuel + s₁.progress by omega)

end

/-- **Extended partitions.** Whatever the reads find, the scan ends after at most
`100 * 2 ^ minorShift` reads, changes only partitions of the disk that `current_minor` belongs to, and
has released the buffers it has read. -/
theorem extendedPartition_ends (minorShift : ℕ) (sectorSize : UInt32)
    (disk : ℕ → HdStruct → Option Table) (fuel dev : ℕ) (s : Scan)
    (h : low minorShift s.currentMinor ≠ 0) (hfuel : 100 * 2 ^ minorShift < fuel) :
    ∃ s', extendedPartition minorShift sectorSize disk fuel dev s = some s' ∧
      s'.reads ≤ s.reads + 100 * 2 ^ minorShift ∧ s'.held = s.held ∧
      ∀ m, s'.part m ≠ s.part m → s.currentMinor >>> minorShift <<< minorShift < m ∧
        m >>> minorShift = s.currentMinor >>> minorShift := by
  have hsplit := Nat.div_add_mod' s.currentMinor (2 ^ minorShift)
  rw [low, Nat.one_shiftLeft, Nat.and_two_pow_sub_one_eq_mod] at h
  simp only [Nat.shiftRight_eq_div_pow, Nat.shiftLeft_eq]
  generalize hk : s.currentMinor / 2 ^ minorShift = k at hsplit ⊢
  obtain ⟨s', hrun, hfills, hreads⟩ := @ends_scan minorShift (k * 2 ^ minorShift) sectorSize
    (s.part dev) (s.part dev).startSect { s with loopct := 0 } _ (Nat.dvd_mul_left ..) rfl disk fuel
    dev ⟨by dsimp only; omega, by dsimp only; omega, Nat.zero_le _⟩
    (by unfold Scan.progress; dsimp only; omega)
  refine ⟨s', hrun, ?_, hfills.held, fun m hm => ?_⟩
  · unfold Scan.progress at hreads
    dsimp only at hreads
    omega
  · obtain ⟨habove, hbelow⟩ := not_not.1 fun hout => hm (hfills.part m hout)
    refine ⟨habove, Nat.div_eq_of_lt_le habove.le ?_⟩
    rwa [Nat.succ_mul]

/-- A table whose second entry leads back to it. -/
def cyclic : Table := ⟨0xaa55, fun i => if i = 1 then ⟨0x05, 0, 1⟩ else ⟨0, 0, 0⟩⟩

theorem extendedPartition_ends_cyclic :
    ∃ s', extendedPartition 4 1 (fun _ _ => some cyclic) 1601 1 ⟨fun _ => ⟨63, 1000⟩, 5, 0, 0, 0⟩ =
      some s' ∧ s'.reads ≤ 1600 ∧ s'.held = 0 := by
  obtain ⟨s', hrun, hreads, hheld, -⟩ := extendedPartition_ends 4 1 (fun _ _ => some cyclic) 1601 1
    ⟨fun _ => ⟨63, 1000⟩, 5, 0, 0, 0⟩ (by decide) (by decide)
  exact ⟨s', hrun, hreads, hheld⟩

end PsxLinux.Partitions
