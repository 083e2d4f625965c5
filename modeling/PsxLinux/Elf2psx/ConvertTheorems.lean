import PsxLinux.Elf2psx.Convert
import PsxLinux.Lib.Bits
import Mathlib.Data.List.Find
import Mathlib.Tactic.IntervalCases

/-!
# What a converted image holds

`ImageOk elf out` is what an image of `elf` should be, with every sum computed without
wrap-around. The tool's own sums are 32-bit, and `main_image_ok_iff` says exactly when that
shows: an image the tool returned is right if and only if no loaded segment reaches past the
end of the 32-bit address space.
-/

namespace PsxLinux.Elf2psx

open Lib List UInt32 File

/-! ## The specification -/

/-- The segments that are copied. -/
def Phdr.loads (h : Phdr) : Prop := h.type = ptLoad ∧ 0 < h.filesz

instance (h : Phdr) : Decidable h.loads := inferInstanceAs (Decidable (_ ∧ _))

/-- `vaddr + filesz`, without wrap-around. -/
def Phdr.stop (h : Phdr) : ℕ := h.vaddr.toNat + h.filesz.toNat

/-- The segment holds the byte for this address. -/
def Phdr.covers (h : Phdr) (a : ℕ) : Bool :=
  decide (h.type = ptLoad ∧ h.vaddr.toNat ≤ a ∧ a < h.stop)

/-- The last segment in table order that holds the byte for this address. -/
def lastCovering (hdrs : List Phdr) (a : ℕ) : Option Phdr :=
  hdrs.reverse.find? fun h => h.covers a

def roundUp (n : ℕ) : ℕ := (n + 0x7ff) / 0x800 * 0x800

/-- `psxh.ftext`, read back from the output. -/
def ftextOf (out : File) : ℕ := (out.u32 0x18).toNat

/-- `psxh.filesz`, read back from the output. -/
def fileszOf (out : File) : ℕ := (out.u32 0x1c).toNat

/-- The image of an ELF file. -/
structure ImageOk (elf out : File) : Prop where
  size : out.size = 0x800 + fileszOf out
  ftext : IsLeast {a | ∃ h ∈ phdrs elf, h.loads ∧ a = h.vaddr.toNat} (ftextOf out)
  pages : 0x800 ∣ fileszOf out
  extent : ∃ e, IsGreatest {a | ∃ h ∈ phdrs elf, h.loads ∧ a = h.stop} e ∧
    fileszOf out = roundUp (e - ftextOf out)
  bytes : ∀ a, ftextOf out ≤ a → a < ftextOf out + fileszOf out →
    out.byte (0x800 + (a - ftextOf out)) =
      match lastCovering (phdrs elf) a with
      | some h => elf.byte (h.offset.toNat + (a - h.vaddr.toNat))
      | none => 0

def NoWrap (hdrs : List Phdr) : Prop := ∀ h ∈ hdrs, h.loads → h.stop < 2 ^ 32

lemma loads_of_covers {h : Phdr} {a : ℕ} (hc : h.covers a) : h.loads := by
  obtain ⟨ht, hle, hlt⟩ := of_decide_eq_true hc
  unfold Phdr.stop at hlt
  refine ⟨ht, lt_iff_toNat_lt.mpr ?_⟩
  show 0 < h.filesz.toNat
  omega

/-! ## Masks -/

lemma toNat_and_page (x : UInt32) : (x &&& 0x7ff).toNat = x.toNat % 0x800 := by
  exact Nat.and_two_pow_sub_one_eq_mod x.toNat 11

lemma toNat_and_not_page (x : UInt32) : (x &&& ~~~ 0x7ff).toNat = x.toNat / 0x800 * 0x800 := by
  have hmask : (~~~ 0x7ff : UInt32).toNat = 2 ^ 32 - 2 ^ 11 := by decide
  rw [UInt32.toNat_and, hmask]
  exact and_high_mask x.toNat_lt (by omega)

/-! ## The first pass -/

/-- The range found so far: `ftext` is below every loaded segment and is the start of one
(or still the initial value); `edata` is above every 32-bit end. -/
structure RangeOk (hdrs : List Phdr) (r : Range) : Prop where
  ftext_le : ∀ h ∈ hdrs, h.loads → r.ftext ≤ h.vaddr
  ftext_mem : r.ftext = 0xffffffff ∨ ∃ h ∈ hdrs, h.loads ∧ r.ftext = h.vaddr
  le_edata : ∀ h ∈ hdrs, h.loads → h.vaddr + h.filesz ≤ r.edata
  edata_mem : r.edata = 0 ∨ ∃ h ∈ hdrs, h.loads ∧ r.edata = h.vaddr + h.filesz

lemma extend_of_loads {r : Range} {h : Phdr} (hl : h.loads) :
    ((r.extend h).ftext ≤ r.ftext ∧ (r.extend h).ftext ≤ h.vaddr ∧
      ((r.extend h).ftext = r.ftext ∨ (r.extend h).ftext = h.vaddr)) ∧
    r.edata ≤ (r.extend h).edata ∧ h.vaddr + h.filesz ≤ (r.extend h).edata ∧
      ((r.extend h).edata = r.edata ∨ (r.extend h).edata = h.vaddr + h.filesz) := by
  have hext : r.extend h = ⟨if h.vaddr < r.ftext then h.vaddr else r.ftext,
      if r.edata < h.vaddr + h.filesz then h.vaddr + h.filesz else r.edata⟩ := if_pos hl
  rw [hext]
  constructor
  · by_cases hv : h.vaddr < r.ftext
    · simp only [hv, if_true]
      exact ⟨UInt32.le_of_lt hv, UInt32.le_refl _, .inr trivial⟩
    · simp only [hv, if_false]
      exact ⟨UInt32.le_refl _, UInt32.not_lt.mp hv, .inl trivial⟩
  · by_cases hv : r.edata < h.vaddr + h.filesz
    · simp only [hv, if_true]
      exact ⟨UInt32.le_of_lt hv, UInt32.le_refl _, .inr trivial⟩
    · simp only [hv, if_false]
      exact ⟨UInt32.le_refl _, UInt32.not_lt.mp hv, .inl trivial⟩

variable {hdrs : List Phdr}
variable {filesz : UInt32}

lemma RangeOk.extend {r : Range} (ok : RangeOk hdrs r) (h : Phdr) :
    RangeOk (hdrs ++ [h]) (r.extend h) := by
  have hmono : ∀ P : Phdr → Prop, (∃ g ∈ hdrs, g.loads ∧ P g) → ∃ g ∈ hdrs ++ [h], g.loads ∧ P g :=
    fun _ ⟨g, hg, hp⟩ => ⟨g, mem_append_left _ hg, hp⟩
  by_cases hl : h.loads
  · obtain ⟨⟨hf₁, hf₂, hf⟩, he₁, he₂, he⟩ := extend_of_loads hl
    constructor
    · intro g hg hgl
      rcases mem_append.mp hg with hg | hg
      · exact UInt32.le_trans hf₁ (ok.ftext_le g hg hgl)
      · rw [mem_singleton.mp hg]; exact hf₂
    · rcases hf with hf | hf
      · rw [hf]; exact ok.ftext_mem.imp_right (hmono _)
      · exact .inr ⟨h, by simp, hl, hf⟩
    · intro g hg hgl
      rcases mem_append.mp hg with hg | hg
      · exact UInt32.le_trans (ok.le_edata g hg hgl) he₁
      · rw [mem_singleton.mp hg]; exact he₂
    · rcases he with he | he
      · rw [he]; exact ok.edata_mem.imp_right (hmono _)
      · exact .inr ⟨h, by simp, hl, he⟩
  · have hext : r.extend h = r := if_neg hl
    have hback : ∀ g ∈ hdrs ++ [h], g.loads → g ∈ hdrs := by
      intro g hg hgl
      rcases mem_append.mp hg with hg | hg
      · exact hg
      · rw [mem_singleton.mp hg] at hgl
        exact absurd hgl hl
    rw [hext]
    exact ⟨fun g hg hgl => ok.ftext_le g (hback g hg hgl) hgl, ok.ftext_mem.imp_right (hmono _),
      fun g hg hgl => ok.le_edata g (hback g hg hgl) hgl, ok.edata_mem.imp_right (hmono _)⟩

lemma findRange_ok (hdrs : List Phdr) : RangeOk hdrs (findRange hdrs) := by
  have hloop : ∀ (todo done : List Phdr) (r : Range), RangeOk done r →
      RangeOk (done ++ todo) (todo.foldl Range.extend r) := by
    intro todo
    induction todo with
    | nil => intro done r ok; simpa using ok
    | cons h todo ih =>
      intro done r ok
      have := ih (done ++ [h]) (r.extend h) (ok.extend h)
      rwa [append_assoc] at this
  refine hloop hdrs [] _ ⟨?_, .inl rfl, ?_, .inl rfl⟩
  · intro g hg; simp at hg
  · intro g hg; simp at hg

/-! ## The zero fill -/

variable {env : Env}

/-- The loop fills the file with zeros up to `filesz` bytes past the header. -/
lemma zeroFill_ok (hmul : filesz.toNat % 0x800 = 0) (hle : filesz.toNat ≤ 0x80200000) :
    ∀ (fuel : ℕ) (i : UInt32) (n pos : ℕ) (psx : File) (n' : ℕ) (psx' : File),
      i.toNat % 0x800 = 0 → i.toNat ≤ filesz.toNat → pos = 0x800 + i.toNat → psx.size = pos →
      (∀ j, pos ≤ j → psx.byte j = 0) →
      zeroFill env filesz fuel i n pos psx = .ok (n', psx') →
      psx'.size = 0x800 + filesz.toNat ∧ ∀ j, psx'.byte j = psx.byte j := by
  intro fuel
  induction fuel with
  | zero =>
    intro i n pos psx n' psx' _ _ _ _ _ h
    simp [zeroFill] at h
  | succ fuel ih =>
    intro i n pos psx n' psx' hi hile hpos hsize hzero h
    rw [zeroFill] at h
    split_ifs at h with hlt
    · have hlt' : i.toNat < filesz.toNat := lt_iff_toNat_lt.mp hlt
      have hi' : (i + 0x800).toNat = i.toNat + 0x800 := by
        show (i.toNat + 0x800) % 2 ^ 32 = _
        omega
      have hsize' : (psx.write ⟨pos, 0x800, fun _ => 0⟩).size = pos + 0x800 := by
        show max psx.size (pos + 0x800) = _
        omega
      -- writing zeros past the end changes no byte
      have hbyte : ∀ j, (psx.write ⟨pos, 0x800, fun _ => 0⟩).byte j = psx.byte j := by
        intro j
        simp only [write, File.Write.covers, decide_eq_true_eq]
        split_ifs with hc
        · exact (hzero j hc.1).symm
        · rfl
      have hrest := ih (i + 0x800) (n + 1) (pos + 0x800) _ n' psx' (by omega) (by omega)
        (by omega) hsize' (fun j hj => by rw [hbyte]; exact hzero j (by omega)) h
      exact ⟨hrest.1, fun j => by rw [hrest.2, hbyte]⟩
    · cases h
    · have hge := UInt32.le_iff_toNat_le.mp (UInt32.not_lt.mp hlt)
      cases h
      exact ⟨by omega, fun j => rfl⟩

/-! ## The second pass -/

/-- The write of one segment. -/
def segmentWrite (elf : File) (ftext : UInt32) (h : Phdr) : File.Write where
  pos := (h.vaddr - ftext + 0x800).toNat
  len := h.filesz.toNat
  src := fun i => elf.byte (h.offset.toNat + i)

/-- The writes of all segments. -/
def segmentWrites (elf : File) (ftext : UInt32) (hdrs : List Phdr) : List File.Write :=
  (hdrs.filter fun h => decide h.loads).map (segmentWrite elf ftext)

/-- A second pass that succeeds has written every segment, and every segment passed the
32-bit range check. -/
lemma applyLoads_ok {elf : File} {ftext : UInt32} :
    ∀ (hdrs : List Phdr) (n : ℕ) (psx out : File),
      applyLoads env (fun _ => elf) ftext filesz hdrs n psx = .ok out →
      out = psx.writes (segmentWrites elf ftext hdrs) ∧
        ∀ h ∈ hdrs, h.loads → h.vaddr - ftext < filesz ∧ h.vaddr - ftext + h.filesz ≤ filesz := by
  intro hdrs
  induction hdrs with
  | nil =>
    intro n psx out h
    obtain rfl : psx = out := by simpa [applyLoads] using h
    exact ⟨rfl, by simp⟩
  | cons g hdrs ih =>
    intro n psx out h
    -- a header that loads nothing is skipped
    have hskip (hl : ¬ g.loads)
        (h : applyLoads env (fun _ => elf) ftext filesz hdrs n psx = .ok out) :
        out = psx.writes (segmentWrites elf ftext (g :: hdrs)) ∧ ∀ h ∈ g :: hdrs, h.loads →
          h.vaddr - ftext < filesz ∧ h.vaddr - ftext + h.filesz ≤ filesz := by
      obtain ⟨hout, hall⟩ := ih _ _ _ h
      refine ⟨by rw [hout]; simp [segmentWrites, hl], forall_mem_cons.mpr ⟨?_, hall⟩⟩
      exact fun hl' => absurd hl' hl
    rw [applyLoads] at h
    simp only at h
    split_ifs at h with ht h0 hr hs hw
    · exact hskip (fun hl => ht hl.1) h
    · exact hskip (fun hl => UInt32.pos_iff_ne_zero.mp hl.2 h0) h
    · cases h
    · cases h
    · have hl : g.loads := ⟨not_not.mp ht, UInt32.pos_iff_ne_zero.mpr h0⟩
      obtain ⟨hout, hall⟩ := ih _ _ _ h
      refine ⟨?_, forall_mem_cons.mpr ⟨fun _ => ?_, hall⟩⟩
      · rw [hout]
        simp [segmentWrites, hl, writes, segmentWrite]
      · rw [not_or] at hr
        exact ⟨UInt32.not_le.mp hr.1, UInt32.not_lt.mp hr.2⟩
    · cases h

/-! ## A run that returns 0 -/

abbrev rangeOf (elf : File) : Range := findRange (phdrs elf)

abbrev headerOf (region : Region) (elf : File) : PsxHeader :=
  psxHeader region (readEhdr elf) (rangeOf elf)

/-- Everything a successful run went through. -/
structure Converted (region : Region) (elf out : File) : Prop where
  range : checkRange (rangeOf elf) = .ok ()
  fill : ∃ env n psx, zeroFill env (headerOf region elf).filesz
      ((headerOf region elf).filesz.toNat + 1) 0 1 0x800
      (empty.write ⟨0, 0x800, (headerOf region elf).byte⟩) = .ok (n, psx) ∧
    applyLoads env (fun _ => elf) (headerOf region elf).ftext
      (headerOf region elf).filesz (phdrs elf) n psx = .ok out

lemma bind_ok {α β : Type} {x : Except Stop α} {f : α → Except Stop β} {b : β}
    (h : (x >>= f) = .ok b) : ∃ a, x = .ok a ∧ f a = .ok b := by
  cases x with
  | error e => cases h
  | ok a => exact ⟨a, rfl, h⟩

lemma main_converted {argv : List String} {region : Region} {fnameElf fnamePsx : String}
    {elf out : File} (hargs : readArguments argv = .ok (region, fnameElf, fnamePsx))
    (helf : env.files fnameElf = some elf) (hdistinct : env.sameFile fnameElf fnamePsx = false)
    (hclose : ∀ psx, env.close psx = psx) (h : main env argv = .ok out) :
    Converted region elf out := by
  have hread : env.elfAt fnameElf fnamePsx elf = fun _ => elf := by
    ext1 n
    simp [Env.elfAt, hdistinct]
  obtain ⟨⟨region', fe, fp⟩, ha, h⟩ := bind_ok h
  obtain ⟨rfl, rfl, rfl⟩ : region = region' ∧ fnameElf = fe ∧ fnamePsx = fp := by
    simpa using hargs.symm.trans ha
  simp only [helf] at h
  obtain ⟨-, -, h⟩ := bind_ok h
  obtain ⟨⟨⟩, hrange, h⟩ := bind_ok h
  by_cases hc : env.creates fnamePsx
  · by_cases hw : env.writes 0
    · simp only [hc, hw] at h
      obtain ⟨⟨n, psx⟩, hz, h⟩ := bind_ok h
      obtain ⟨image, himage, h⟩ := bind_ok h
      obtain rfl : env.close image = out := Except.ok.inj h
      rw [hread] at himage
      rw [hclose]
      exact ⟨hrange, env, n, psx, hz, himage⟩
    · simp [hc, hw, fail] at h
  · simp [hc, fail] at h

/-- The checks on the range, in numbers. -/
structure RangeFacts (hdrs : List Phdr) (r : Range) : Prop where
  le : r.ftext.toNat ≤ r.edata.toNat
  late : r.edata.toNat ≤ 0x80200000
  aligned : r.ftext.toNat % 0x800 = 0
  aedata : r.aedata.toNat = roundUp r.edata.toNat
  filesz : (r.aedata - r.ftext).toNat = roundUp r.edata.toNat - r.ftext.toNat
  ftext_mem : ∃ h ∈ hdrs, h.loads ∧ r.ftext = h.vaddr

lemma rangeFacts (hc : checkRange (findRange hdrs) = .ok ()) :
    RangeFacts hdrs (findRange hdrs) := by
  have hok := findRange_ok hdrs
  generalize findRange hdrs = r at hc hok ⊢
  unfold checkRange at hc
  by_cases h1 : r.edata < r.ftext
  · simp [h1, fail] at hc
  by_cases h2 : 0x80200000 < r.edata
  · simp [h1, h2, fail] at hc
  by_cases h3 : r.ftext &&& 0x7ff ≠ 0
  · simp [h1, h2, h3, fail] at hc
  have hle : r.ftext.toNat ≤ r.edata.toNat := UInt32.le_iff_toNat_le.mp (UInt32.not_lt.mp h1)
  have hlate : r.edata.toNat ≤ 0x80200000 := UInt32.le_iff_toNat_le.mp (UInt32.not_lt.mp h2)
  have hal : r.ftext.toNat % 0x800 = 0 := by
    rw [← toNat_and_page, not_not.mp h3]
    rfl
  have hae : r.aedata.toNat = roundUp r.edata.toNat := by
    rw [Range.aedata, toNat_and_not_page]
    show (r.edata.toNat + 0x7ff) % 2 ^ 32 / 0x800 * 0x800 = _
    rw [Nat.mod_eq_of_lt (by omega), roundUp]
  have hroundUp : r.edata.toNat ≤ roundUp r.edata.toNat := by unfold roundUp; omega
  refine ⟨hle, hlate, hal, hae, ?_, ?_⟩
  · rw [UInt32.toNat_sub_of_le _ _ (UInt32.le_iff_toNat_le.mpr (by omega)), hae]
  · rcases hok.ftext_mem with hi | hmem
    · rw [hi] at hle
      have : (0xffffffff : UInt32).toNat = 0xffffffff := rfl
      omega
    · exact hmem

/-- The image has whole pages, and is not too long. -/
lemma RangeFacts.pages {r : Range} (h : RangeFacts hdrs r) :
    (r.aedata - r.ftext).toNat % 0x800 = 0 ∧ (r.aedata - r.ftext).toNat ≤ 0x80200000 := by
  have hlate := h.late
  have hal := h.aligned
  rw [h.filesz]
  unfold roundUp
  omega

section Converted

variable {region : Region} {elf out : File}

lemma rangeOf_ok (elf : File) : RangeOk (phdrs elf) (rangeOf elf) := findRange_ok _

section

variable (h : Converted region elf out)
include h

lemma Converted.facts : RangeFacts (phdrs elf) (rangeOf elf) :=
  rangeFacts h.range

/-- What the output of a successful run is: the header, zeros, and the segments written over
them. -/
lemma Converted.output :
    ∃ psx : File, out = psx.writes (segmentWrites elf (rangeOf elf).ftext (phdrs elf)) ∧
      psx.size = 0x800 + ((rangeOf elf).aedata - (rangeOf elf).ftext).toNat ∧
      (∀ j, psx.byte j = if j < 0x800 then (headerOf region elf).byte j else 0) ∧
      ∀ p ∈ phdrs elf, p.loads →
        p.vaddr - (rangeOf elf).ftext < (rangeOf elf).aedata - (rangeOf elf).ftext := by
  obtain ⟨env, n, psx, hz, ha⟩ := h.fill
  have hf := h.facts
  have hsz := hf.pages
  obtain ⟨hsize, hbyte⟩ := zeroFill_ok hsz.1 hsz.2 _ _ _ _ _ _ _ rfl (Nat.zero_le _) rfl rfl
    (fun j hj => by
      have hc : ¬ (0 ≤ j ∧ j < 0 + 0x800) := by omega
      simp only [write, File.Write.covers, decide_eq_true_eq, if_neg hc]
      rfl) hz
  obtain ⟨hout, hall⟩ := applyLoads_ok _ _ _ _ ha
  refine ⟨psx, hout, hsize, fun j => ?_, fun p hp hl => (hall p hp hl).1⟩
  rw [hbyte]
  by_cases hj : j < 0x800
  · have hc : 0 ≤ j ∧ j < 0 + 0x800 := by omega
    simp only [write, File.Write.covers, decide_eq_true_eq, if_pos hc, if_pos hj]
    rfl
  · have hc : ¬ (0 ≤ j ∧ j < 0 + 0x800) := by omega
    simp only [write, File.Write.covers, decide_eq_true_eq, if_neg hc, if_neg hj]
    rfl

/-- A segment goes to its distance from `ftext`, past the header. -/
lemma Converted.pos_eq {p : Phdr} (hp : p ∈ phdrs elf)
    (hl : p.loads) : (rangeOf elf).ftext.toNat ≤ p.vaddr.toNat ∧
      (segmentWrite elf (rangeOf elf).ftext p).pos =
        0x800 + (p.vaddr.toNat - (rangeOf elf).ftext.toNat) := by
  have hle := (rangeOf_ok elf).ftext_le p hp hl
  have hf := h.facts
  obtain ⟨-, -, -, -, hlt⟩ := h.output
  have hlt' := lt_iff_toNat_lt.mp (hlt p hp hl)
  have hsub : (p.vaddr - (rangeOf elf).ftext).toNat =
      p.vaddr.toNat - (rangeOf elf).ftext.toNat := UInt32.toNat_sub_of_le _ _ hle
  have hroundUp : roundUp (rangeOf elf).edata.toNat ≤ 0x80200000 := by
    have := hf.late
    unfold roundUp
    omega
  rw [hf.filesz] at hlt'
  refine ⟨le_iff_toNat_le.mp hle, ?_⟩
  show (p.vaddr - (rangeOf elf).ftext + 0x800).toNat = _
  rw [UInt32.toNat_add, hsub]
  show (p.vaddr.toNat - (rangeOf elf).ftext.toNat + 0x800) % 2 ^ 32 = _
  omega

lemma Converted.header {j : ℕ} (hj : j < 0x800) : out.byte j = (headerOf region elf).byte j := by
  obtain ⟨psx, rfl, -, hbyte, -⟩ := h.output
  rw [byte_writes]
  have hnone : (segmentWrites elf (rangeOf elf).ftext (phdrs elf)).reverse.find?
      (fun w => w.covers j) = none := by
    rw [find?_eq_none]
    intro w hw
    obtain ⟨p, hp, rfl⟩ := mem_map.mp (mem_reverse.mp hw)
    rw [mem_filter, decide_eq_true_eq] at hp
    have hpos := (h.pos_eq hp.1 hp.2).2
    simp only [File.Write.covers, decide_eq_true_eq]
    omega
  rw [hnone]
  simp only [hbyte, if_pos hj]

lemma Converted.ftextOf_eq : ftextOf out = (rangeOf elf).ftext.toNat := by
  have : out.u32 0x18 = (rangeOf elf).ftext := by
    refine u32_of_le32 fun i hi => ?_
    rw [h.header (by omega)]
    interval_cases i <;> rfl
  rw [ftextOf, this]

lemma Converted.fileszOf_eq :
    fileszOf out = roundUp (rangeOf elf).edata.toNat - (rangeOf elf).ftext.toNat := by
  have : out.u32 0x1c = (rangeOf elf).aedata - (rangeOf elf).ftext := by
    refine u32_of_le32 fun i hi => ?_
    rw [h.header (by omega)]
    interval_cases i <;> rfl
  rw [fileszOf, this, h.facts.filesz]

/-! ## The image -/

lemma isGreatest_edata (hn : NoWrap (phdrs elf)) :
    IsGreatest {a | ∃ p ∈ phdrs elf, p.loads ∧ a = p.stop} (rangeOf elf).edata.toNat := by
  have hok := rangeOf_ok elf
  have hsum : ∀ p ∈ phdrs elf, p.loads → (p.vaddr + p.filesz).toNat = p.stop := by
    intro p hp hl
    rw [UInt32.toNat_add, ← Phdr.stop, Nat.mod_eq_of_lt (hn p hp hl)]
  constructor
  · rcases hok.edata_mem with h0 | ⟨p, hp, hl, he⟩
    · -- an `edata` of 0 would be below the end of the segment at `ftext`
      obtain ⟨p, hp, hl, -⟩ := h.facts.ftext_mem
      have hle := le_iff_toNat_le.mp (hok.le_edata p hp hl)
      have hpos := lt_iff_toNat_lt.mp hl.2
      rw [hsum p hp hl, h0] at hle
      unfold Phdr.stop at hle
      omega
    · exact ⟨p, hp, hl, by rw [he, hsum p hp hl]⟩
  · rintro a ⟨p, hp, hl, rfl⟩
    rw [← hsum p hp hl]
    exact le_iff_toNat_le.mp (hok.le_edata p hp hl)

/-- The write that covers an address of the image is that of the last covering segment. -/
lemma find_segmentWrites {a : ℕ} (ha : (rangeOf elf).ftext.toNat ≤ a) :
    (segmentWrites elf (rangeOf elf).ftext (phdrs elf)).reverse.find?
        (fun w => w.covers (0x800 + (a - (rangeOf elf).ftext.toNat))) =
      (lastCovering (phdrs elf) a).map (segmentWrite elf (rangeOf elf).ftext) := by
  have hiff : ∀ p ∈ phdrs elf, (decide p.loads && (segmentWrite elf (rangeOf elf).ftext
      p).covers (0x800 + (a - (rangeOf elf).ftext.toNat))) = p.covers a := by
    intro p hp
    by_cases hl : p.loads
    · obtain ⟨hle, hpos⟩ := h.pos_eq hp hl
      have hlen : (segmentWrite elf (rangeOf elf).ftext p).len = p.filesz.toNat := rfl
      rw [Bool.eq_iff_iff]
      simp only [hl, decide_true, Bool.true_and, File.Write.covers, Phdr.covers, Phdr.stop,
        decide_eq_true_eq, hpos, hlen, hl.1, true_and]
      omega
    · have hnot : p.covers a = false := Bool.eq_false_iff.mpr (mt loads_of_covers hl)
      simp [hl, hnot]
  rw [segmentWrites, ← map_reverse, find?_map, ← filter_reverse, find?_filter, lastCovering]
  congr 1
  refine find?_congr ?_
  intro p hp
  rw [← hiff p (mem_reverse.mp hp)]
  simp only [Function.comp_apply, Bool.decide_and, Bool.decide_eq_true]

lemma imageOk_of_noWrap (hn : NoWrap (phdrs elf)) : ImageOk elf out := by
  have hf := h.facts
  have hok := rangeOf_ok elf
  have hal := hf.aligned
  have hgreat := isGreatest_edata h hn
  obtain ⟨psx, hout, hsize, hbyte, -⟩ := h.output
  rw [hf.filesz] at hsize
  -- every segment ends inside the zero-filled space
  have hinside : ∀ w ∈ segmentWrites elf (rangeOf elf).ftext (phdrs elf),
      w.pos + w.len ≤ psx.size := by
    intro w hw
    obtain ⟨p, hp, rfl⟩ := mem_map.mp hw
    rw [mem_filter, decide_eq_true_eq] at hp
    obtain ⟨hv, hpos⟩ := h.pos_eq hp.1 hp.2
    have hend : p.stop ≤ (rangeOf elf).edata.toNat := hgreat.2 ⟨p, hp.1, hp.2, rfl⟩
    have hlen : (segmentWrite elf (rangeOf elf).ftext p).len = p.filesz.toNat := rfl
    rw [hsize]
    unfold Phdr.stop at hend
    unfold roundUp
    omega
  constructor
  · rw [hout, size_writes _ _ hinside, hsize, ← hout, h.fileszOf_eq]
  · rw [h.ftextOf_eq]
    constructor
    · obtain ⟨p, hp, hl, he⟩ := hf.ftext_mem
      exact ⟨p, hp, hl, by rw [he]⟩
    · rintro a ⟨p, hp, hl, rfl⟩
      exact le_iff_toNat_le.mp (hok.ftext_le p hp hl)
  · rw [h.fileszOf_eq]
    unfold roundUp
    omega
  · refine ⟨_, hgreat, ?_⟩
    rw [h.fileszOf_eq, h.ftextOf_eq]
    unfold roundUp
    omega
  · intro a ha _
    rw [h.ftextOf_eq] at ha ⊢
    rw [hout, byte_writes, find_segmentWrites h ha]
    cases hc : lastCovering (phdrs elf) a with
    | none =>
      show psx.byte _ = 0
      rw [hbyte, if_neg (by omega)]
    | some p =>
      have hcov := find?_some hc
      have hmem : p ∈ phdrs elf := mem_reverse.mp (mem_of_find?_eq_some hc)
      obtain ⟨hv, hpos⟩ := h.pos_eq hmem (loads_of_covers hcov)
      have hdist : 0x800 + (a - (rangeOf elf).ftext.toNat) -
          (segmentWrite elf (rangeOf elf).ftext p).pos = a - p.vaddr.toNat := by
        omega
      show elf.byte (p.offset.toNat + (0x800 + (a - (rangeOf elf).ftext.toNat) -
        (segmentWrite elf (rangeOf elf).ftext p).pos)) = _
      rw [hdist]

/-- The extent that the specification asks for does not fit when a segment wraps. -/
lemma noWrap_of_imageOk (hi : ImageOk elf out) : NoWrap (phdrs elf) := by
  intro p hp hl
  obtain ⟨e, hgreat, hsz⟩ := hi.extent
  have hend : p.stop ≤ e := hgreat.2 ⟨p, hp, hl, rfl⟩
  have hf := h.facts
  have hlate := hf.late
  have hle := hf.le
  rw [h.fileszOf_eq, h.ftextOf_eq] at hsz
  unfold roundUp at hsz
  omega

end

end Converted

/-- **When the image is right.** For every run of `main` that returns 0, on any ELF file with
any program headers that is not the output file too, if the last flush writes what is buffered,
the output is the image of that file if and only if no `PT_LOAD` header with `filesz > 0` has
`vaddr + filesz` past the 32-bit address space. -/
theorem main_image_ok_iff {env : Env} {argv : List String} {region : Region}
    {fnameElf fnamePsx : String} {elf out : File}
    (hargs : readArguments argv = .ok (region, fnameElf, fnamePsx))
    (helf : env.files fnameElf = some elf) (hdistinct : env.sameFile fnameElf fnamePsx = false)
    (hclose : ∀ psx, env.close psx = psx) (h : main env argv = .ok out) :
    ImageOk elf out ↔ NoWrap (phdrs elf) := by
  have hconv := main_converted hargs helf hdistinct hclose h
  exact ⟨noWrap_of_imageOk hconv, imageOk_of_noWrap hconv⟩

/-! ## Two ELF files -/

def words (ws : List UInt32) : List UInt8 := ws.flatMap fun w => (range 4).map (le32 w)

/-- A MIPS executable with the given program headers right after its ELF header, followed by
zeros up to the given size. -/
def sampleElf (size : ℕ) (hdrs : List Phdr) : File where
  size := size
  byte := fun i =>
    ([0x7f, 0x45, 0x4c, 0x46, 1, 1, 1, 0, 0, 0, 0, 0, 0, 0, 0, 0, 2, 0, 8, 0] ++
      words [1, 0x80010000, 52, 0, 0] ++ [52, 0, 32, 0, UInt8.ofNat hdrs.length, 0, 0, 0, 0, 0, 0, 0] ++
      hdrs.flatMap fun h : Phdr => words [h.type, h.offset, h.vaddr, 0, h.filesz, 0, 0, 0]).getD i 0

/-- A system on which everything can be opened and written. -/
def sampleEnv (elf : File) : Env where
  files := fun _ => some elf
  creates := fun _ => true
  writes := fun _ => true
  sameFile := fun a b => a == b
  overwritten := fun _ => File.empty
  close := id

def sampleArgv : List String := ["elf2psx", "-j", "in.elf", "out.exe"]

/-- The second segment lies inside the first and ends just below 4 GB past its start. -/
def wrappingElf : File :=
  sampleElf 0x100000000 [⟨1, 0, 0x80010000, 0x1000⟩, ⟨1, 0, 0x80010800, 0xfffff900⟩]

/-- The image of a segment that wraps is longer than its header says. -/
theorem wrapping_image_too_long :
    ∃ region fnameElf fnamePsx out,
      readArguments sampleArgv = .ok (region, fnameElf, fnamePsx) ∧
      (sampleEnv wrappingElf).files fnameElf = some wrappingElf ∧
      (sampleEnv wrappingElf).sameFile fnameElf fnamePsx = false ∧
      (∀ psx, (sampleEnv wrappingElf).close psx = psx) ∧
      main (sampleEnv wrappingElf) sampleArgv = .ok out ∧ ¬ ImageOk wrappingElf out := by
  have hlong : (match main (sampleEnv wrappingElf) sampleArgv with
      | .ok out => decide (out.size = 0x800 + fileszOf out)
      | .error _ => true) = false := by decide +kernel
  cases h : main (sampleEnv wrappingElf) sampleArgv with
  | error e => simp [h] at hlong
  | ok out =>
    simp only [h, decide_eq_false_iff_not] at hlong
    exact ⟨_, _, _, out, rfl, rfl, by decide, fun _ => rfl, rfl, fun hi => hlong hi.size⟩

/-- Two segments that overlap and come in the wrong order. -/
def overlappingElf : File :=
  sampleElf 0x2000 [⟨1, 0x100, 0x80010800, 0x900⟩, ⟨1, 0, 0x80010000, 0xa00⟩]

theorem main_image_ok_iff_overlapping :
    ∃ out, main (sampleEnv overlappingElf) sampleArgv = .ok out ∧ ImageOk overlappingElf out := by
  have hok : (match main (sampleEnv overlappingElf) sampleArgv with
      | .ok _ => true
      | .error _ => false) = true := by decide +kernel
  cases h : main (sampleEnv overlappingElf) sampleArgv with
  | error e => simp [h] at hok
  | ok out =>
    have hargs : readArguments sampleArgv = .ok (.ntscJapan, "in.elf", "out.exe") := rfl
    have hn : NoWrap (phdrs overlappingElf) := by unfold NoWrap; decide +kernel
    exact ⟨out, rfl, (main_image_ok_iff hargs rfl (by decide) (fun _ => rfl) h).mpr hn⟩

end PsxLinux.Elf2psx
