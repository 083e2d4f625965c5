import PsxLinux.Mmap.RunTheorems
import PsxLinux.Flat.Reloc

/-!
# What callers get from the mappings

`do_munmap` drops the mapping at the address and nothing else, but its result is `-EINVAL` in any case,
so that a caller is told of an error exactly where there was none (`unmaps_iff`).

`do_mmap_pgoff` passes its length on to `kmalloc`, whose `BUG()` is reached by every length above that of
the largest general cache for which the two descriptors could be allocated (`serves_iff`). Nothing on
the way from a system call or from the header of a flat binary bounds the length.
-/

namespace PsxLinux.Mmap

open Lib Option Sys

variable {M : Type} [DecidableEq M] {s s' : Sys M} {mm : M} {addr : Ptr} {m : Args} {ret : ℤ}

def Sys.Starts (s : Sys M) (mm : M) (addr : Ptr) : Prop := ∃ t ∈ s.tblocks mm, (s.node t).kblock = addr

/-- What `do_munmap` should do: the mapping at the address is gone, with its blocks and its accounts, and
the result is 0; without such a mapping the result is an error and nothing changes. -/
def Unmaps (s : Sys M) (mm : M) (addr : Ptr) : Prop :=
  (s.Starts mm addr → (s.doMunmap mm addr).2 = 0 ∧ ∃ pre t rest, s.tblocks mm = pre ++ t :: rest ∧
      (s.node t).kblock = addr ∧ Dropped s (s.doMunmap mm addr).1 mm pre t rest) ∧
    (¬ s.Starts mm addr → (s.doMunmap mm addr).2 < 0 ∧ (s.doMunmap mm addr).1 = s)

lemma doMunmap_snd (s : Sys M) (mm : M) (addr : Ptr) : (s.doMunmap mm addr).2 = -EINVAL := by
  unfold doMunmap
  split <;> rfl

/-- **Unmapping.** In every state that calls lead to, `do_munmap` does what it should exactly if no mapping
starts at the address. Where one does, it is taken out as it should be, and only the result is wrong. -/
theorem unmaps_iff [Fintype M] {rblockOf : Ptr → Ptr} {rblock : Ptr → Rblock} {as : List (Act M)}
    {es : List ℤ} (hrun : Exec step anyStep (initial rblockOf rblock : Sys M) as es s) (mm : M)
    (addr : Ptr) :
    (Unmaps s mm addr ↔ ¬ s.Starts mm addr) ∧
      (s.Starts mm addr → (s.doMunmap mm addr).2 = -EINVAL ∧ ∃ pre t rest,
        s.tblocks mm = pre ++ t :: rest ∧ (s.node t).kblock = addr ∧
          Dropped s (s.doMunmap mm addr).1 mm pre t rest) := by
  have hret := doMunmap_snd s mm addr
  rcases (inv_run hrun).doMunmap_cases mm addr with ⟨heq, hno⟩ | hdropped
  · have hnot : ¬ s.Starts mm addr := fun ⟨t, ht, hk⟩ => hno t ht hk
    refine ⟨iff_of_true ⟨fun h => absurd h hnot, fun _ => ⟨?_, heq⟩⟩ hnot, fun h => absurd h hnot⟩
    rw [hret]
    decide
  · have hstarts : s.Starts mm addr := by
      obtain ⟨pre, t, rest, hmm, hk, -⟩ := hdropped
      exact ⟨t, by simp [hmm], hk⟩
    refine ⟨iff_of_false (fun h => ?_) (not_not.2 hstarts), fun _ => ⟨hret, hdropped⟩⟩
    have hzero := (h.1 hstarts).1
    rw [hret] at hzero
    exact absurd hzero (by decide)

lemma exists_mapped : ∃ s es,
    Exec step anyStep (initial (fun _ => 0) (fun _ => ⟨0, 0, 0⟩) : Sys Unit)
      [.mmap () ⟨none, 100, false, false, false, some 1, some 2, some 3⟩] es s ∧
    es = [3] ∧ s.tblocks () = [1] ∧ (s.node 1).kblock = 3 :=
  Exec.exists_of_decide _ (by decide +kernel) fun _ _ _ => id

/-- Nothing is mapped behind the one mapping. -/
theorem unmaps_iff_mapped : ∃ s es,
    Exec step anyStep (initial (fun _ => 0) (fun _ => ⟨0, 0, 0⟩) : Sys Unit)
      [.mmap () ⟨none, 100, false, false, false, some 1, some 2, some 3⟩] es s ∧ Unmaps s () 4 := by
  obtain ⟨s, es, hrun, -, hlist, hk⟩ := exists_mapped
  refine ⟨s, es, hrun, (unmaps_iff hrun () 4).1.2 ?_⟩
  rintro ⟨t, ht, h⟩
  rw [hlist, List.mem_singleton] at ht
  rw [ht, hk] at h
  cases h

/-- What was mapped is unmapped, and an error is reported. -/
theorem mapped_unmap_fails : ∃ s es,
    Exec step anyStep (initial (fun _ => 0) (fun _ => ⟨0, 0, 0⟩) : Sys Unit)
      [.mmap () ⟨none, 100, false, false, false, some 1, some 2, some 3⟩] es s ∧
    es = [3] ∧ (s.doMunmap () 3).2 = -EINVAL ∧ ¬ Unmaps s () 3 := by
  obtain ⟨s, es, hrun, hes, hlist, hk⟩ := exists_mapped
  refine ⟨s, es, hrun, hes, doMunmap_snd .., fun h => ?_⟩
  have hzero := (h.1 ⟨1, by rw [hlist]; exact List.mem_singleton_self 1, hk⟩).1
  rw [doMunmap_snd] at hzero
  exact absurd hzero (by decide)

/-! ## Lengths -/

/-- The `BUG()` of `kmalloc`: no general cache is large enough. -/
def tooBig (size : Word) : Bool := (cacheSizes.find? (size ≤ ·)).isNone

/-- One of the calls of `kmalloc` in `do_mmap_pgoff` runs into it. -/
def Sys.mmapBug (s : Sys M) (m : Args) : Bool :=
  m.refused.isNone && (tooBig sizeofTblock ||
    (s.kmalloc sizeofTblock m.tblock).any fun (s, tblock) => tblock ≠ 0 && (tooBig sizeofRblock ||
      (s.kmalloc sizeofRblock m.rblock).any fun (_, rblock) => rblock ≠ 0 && tooBig m.len))

/-- The call that ended so did not run into the `BUG()`. Its result is an error, what the file's own
operation answered, or memory of at least the length. -/
def Serves (s : Sys M) (m : Args) (s' : Sys M) (ret : ℤ) : Prop :=
  s.mmapBug m = false ∧ (ret < 0 ∨ m.refused = some ret ∨ ∃ k : Ptr, ret = k ∧ m.len ≤ s'.ksize k)

/-- The calls of `load_flat_binary`: the whole program, and for one that is executed in place its data,
bss and stack. -/
def flatArgs (h : Flat.FlatHdr) (ram : Bool) (file : File) (tblock rblock result : Option Ptr) : Args :=
  ⟨some file, h.codeLen + h.dataLen + h.bssLen + h.stackLen, ram, false, false, tblock, rblock, result⟩

def flatRomArgs (h : Flat.FlatHdr) (tblock rblock result : Option Ptr) : Args :=
  ⟨none, h.dataLen + h.bssLen + h.stackLen, true, false, false, tblock, rblock, result⟩

lemma tooBig_iff (size : Word) : tooBig size ↔ ¬ size ≤ 131072 := by
  have hmax : ∀ x ∈ cacheSizes, x ≤ 131072 := by simp [cacheSizes]
  rw [tooBig, isNone_iff_eq_none, List.find?_eq_none]
  refine ⟨fun h hle => h 131072 (by decide +kernel) (decide_eq_true hle), fun h x hx hle => h ?_⟩
  exact BitVec.le_trans (of_decide_eq_true hle) (hmax x hx)

lemma object_none {size : Word} {object : Option Ptr} (hsize : tooBig size = false)
    (hno : ¬ ((cacheSizes.find? (size ≤ ·)).isSome ∧ object.isSome)) : ¬ object.isSome := by
  rw [tooBig, isNone_eq_false_iff] at hsize
  exact fun h => hno ⟨hsize, h⟩

lemma serves_copy (href : m.refused = none) (hs : s.copy mm m = some (s', ret)) :
    Serves s m s' ret ↔ (m.tblock.isSome → m.rblock.isSome → m.len ≤ 131072) := by
  simp only [copy, bind_eq_bind, bind_eq_some_iff, Prod.exists] at hs
  obtain ⟨s₁, t, hs₁, hs⟩ := hs
  have hdescr : tooBig sizeofTblock = false ∧ tooBig sizeofRblock = false := by decide
  rcases kmalloc_cases hs₁ with ⟨-, rfl, hno⟩ | ⟨ct, -, htb, ht₀, -, -⟩
  · cases hs
    refine iff_of_true ⟨by simp [mmapBug, hs₁, hdescr], .inl (by decide)⟩ fun h => ?_
    exact absurd h (object_none hdescr.1 hno)
  rw [if_neg ht₀] at hs
  simp only [bind_eq_some_iff, Prod.exists] at hs
  obtain ⟨s₂, r, hs₂, hs⟩ := hs
  rcases kmalloc_cases hs₂ with ⟨-, rfl, hno⟩ | ⟨cr, -, hrb, hr₀, -, -⟩
  · cases hs
    refine iff_of_true ⟨by simp [mmapBug, hs₁, hs₂, hdescr], .inl (by decide)⟩ fun _ h => ?_
    exact absurd h (object_none hdescr.2 hno)
  rw [if_neg hr₀] at hs
  simp only [bind_eq_some_iff, Prod.exists] at hs
  obtain ⟨s₃, k, hs₃, hs⟩ := hs
  have hbug : s.mmapBug m = tooBig m.len := by
    simp [mmapBug, href, hs₁, hs₂, hdescr, ht₀, hr₀]
  have hlen : (m.tblock.isSome → m.rblock.isSome → m.len ≤ 131072) ↔ tooBig m.len = false := by
    rw [htb, hrb, ← Bool.not_eq_true, tooBig_iff]
    simp
  rw [hlen, Serves, hbug]
  refine and_iff_left_of_imp fun _ => ?_
  rcases kmalloc_cases hs₃ with ⟨-, rfl, -⟩ | ⟨ck, hck, -, hk₀, -, rfl⟩
  · cases hs
    exact .inl (by decide)
  have hfits : m.len ≤ ck := by simpa using List.find?_some hck
  rw [if_neg hk₀] at hs
  cases hfile : m.file with
  | none =>
    simp only [hfile] at hs
    cases hs
    exact .inr (.inr ⟨k, rfl, by simpa [ksize, link, count] using hfits⟩)
  | some file =>
    simp only [hfile] at hs
    split_ifs at hs with hread
    · cases hs
      exact .inl hread
    · cases hs
      exact .inr (.inr ⟨k, rfl, by simpa [ksize, link, count] using hfits⟩)

/-- **Lengths.** A call does not run into the `BUG()` of `kmalloc`, and returns an error or memory of the
length, exactly if its length is at most that of the largest cache or it ends before it asks for the
memory. The lengths for a flat binary are any 32-bit words. -/
theorem serves_iff (hs : s.doMmapPgoff mm m = some (s', ret)) :
    (Serves s m s' ret ↔ (m.refused = none → m.tblock.isSome → m.rblock.isSome → m.len ≤ 131072)) ∧
    ∀ (h : Flat.FlatHdr) (ram : Bool) (file : File) (tblock rblock result : Option Ptr),
      (flatArgs h ram file tblock rblock result).len = h.bssEnd + h.stackSize ∧
      (flatRomArgs h tblock rblock result).len = h.bssEnd + h.stackSize - h.dataStart := by
  refine ⟨?_, fun h ram file tblock rblock result => ⟨?_, ?_⟩⟩
  · unfold doMmapPgoff at hs
    cases href : m.refused with
    | some r =>
      simp only [href] at hs
      cases hs
      exact iff_of_true ⟨by simp [mmapBug, href], .inr (.inl href)⟩ nofun
    | none =>
      simp only [href] at hs
      rw [serves_copy href hs]
      simp
  · simp only [flatArgs, Flat.FlatHdr.codeLen, Flat.FlatHdr.dataLen, Flat.FlatHdr.bssLen,
      Flat.FlatHdr.stackLen]
    bv_omega
  · simp only [flatRomArgs, Flat.FlatHdr.dataLen, Flat.FlatHdr.bssLen, Flat.FlatHdr.stackLen]
    bv_omega

/-- A mapping of 100 bytes. -/
theorem serves_iff_small : ∃ s' ret, (initial (fun _ => 0) (fun _ => ⟨0, 0, 0⟩) : Sys Unit).doMmapPgoff ()
      ⟨none, 100, false, false, false, some 1, some 2, some 3⟩ = some (s', ret) ∧
    Serves (initial (fun _ => 0) (fun _ => ⟨0, 0, 0⟩))
      ⟨none, 100, false, false, false, some 1, some 2, some 3⟩ s' ret := by
  obtain ⟨⟨s', ret⟩, hs⟩ := isSome_iff_exists.1 (show
    ((initial (fun _ => 0) (fun _ => ⟨0, 0, 0⟩) : Sys Unit).doMmapPgoff ()
      ⟨none, 100, false, false, false, some 1, some 2, some 3⟩).isSome by decide +kernel)
  exact ⟨s', ret, hs, (serves_iff hs).1.2 (by decide +kernel)⟩

/-- A program that maps a byte more than 128 KB. -/
theorem large_mapping_bug :
    (initial (fun _ => 0) (fun _ => ⟨0, 0, 0⟩) : Sys Unit).mmapBug
      ⟨none, 131073, false, false, false, some 1, some 2, some 3⟩ := by
  decide +kernel

end PsxLinux.Mmap
