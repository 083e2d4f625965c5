import PsxLinux.Mmap.NommuTheorems
import Mathlib.Data.List.TakeWhile

/-!
# Runs of mappings

Each call is a sequence of mappings made or dropped, so that the accounts are kept over every run
without a failed read. One failed read is enough to lose them.
-/

namespace PsxLinux.Mmap

open Lib Function

variable {M : Type} [Fintype M] [DecidableEq M]
variable {s s' : Sys M} {mm : M} {t : Ptr}

/-! ## Calls -/

/-- A call that keeps the blocks owned and the counters as far from the lists as they were. -/
structure Steady (s s' : Sys M) : Prop where
  inv : Inv s'
  drift : s'.askedDrift = s.askedDrift ∧ s'.realDrift = s.realDrift

omit [DecidableEq M] in
lemma Steady.trans {s'' : Sys M} (h₁ : Steady s s') (h₂ : Steady s' s'') : Steady s s'' :=
  ⟨h₂.inv, h₂.drift.1.trans h₁.drift.1, h₂.drift.2.trans h₁.drift.2⟩

lemma Inv.steady_dropped {pre rest : List Ptr} (h : Inv s) (hmm : s.tblocks mm = pre ++ t :: rest)
    (hd : Dropped s s' mm pre t rest) : Steady s s' :=
  ⟨h.dropped hmm hd, h.dropped_drift hmm hd⟩

/-- **`do_munmap`** takes out the mapping at the address, or does nothing where there is none. -/
theorem Inv.doMunmap_cases (h : Inv s) (mm : M) (addr : Ptr) :
    ((s.doMunmap mm addr).1 = s ∧ ∀ t ∈ s.tblocks mm, (s.node t).kblock ≠ addr) ∨
    ∃ pre t rest, s.tblocks mm = pre ++ t :: rest ∧ (s.node t).kblock = addr ∧
      Dropped s (s.doMunmap mm addr).1 mm pre t rest := by
  have hpasses : ∀ t ∈ s.tblocks mm, s.passes addr t ↔ (s.node t).kblock ≠ addr := by
    intro t ht
    simp [Sys.passes, Sys.node, (h.linked_of_mem ht).nonzero.1]
  unfold Sys.doMunmap
  cases hdrop : (s.tblocks mm).dropWhile (s.passes addr) with
  | nil =>
    refine .inl ⟨rfl, fun t ht => ?_⟩
    rw [← hpasses t ht]
    exact List.dropWhile_eq_nil_iff.1 hdrop t ht
  | cons t rest =>
    have hmm : s.tblocks mm = (s.tblocks mm).takeWhile (s.passes addr) ++ t :: rest := by
      rw [← hdrop, List.takeWhile_append_dropWhile]
    have hmem : t ∈ s.tblocks mm := by
      rw [hmm]
      simp
    have hstop : ¬ s.passes addr t := by
      simpa [hdrop] using List.head?_dropWhile_not (s.passes addr) (s.tblocks mm)
    rw [hpasses t hmem, not_not] at hstop
    exact .inr ⟨_, t, rest, hmm, hstop, Mmap.dropped (h.linked_of_mem hmem) _ _ fun _ _ => rfl⟩

lemma Inv.doMunmap (h : Inv s) (mm : M) (addr : Ptr) : Steady s (s.doMunmap mm addr).1 := by
  rcases h.doMunmap_cases mm addr with ⟨heq, -⟩ | ⟨pre, t, rest, hmm, -, hd⟩
  · rw [heq]
    exact ⟨h, rfl, rfl⟩
  · exact h.steady_dropped hmm hd

lemma Inv.exitLoop (h : Inv s) (l : List Ptr) (hmm : s.tblocks mm = l) :
    Steady s (exitLoop mm l s) ∧ (Mmap.exitLoop mm l s).tblocks = update s.tblocks mm [] := by
  induction l generalizing s with
  | nil =>
    refine ⟨⟨h, rfl, rfl⟩, ?_⟩
    change s.tblocks = _
    rw [← hmm, update_eq_self]
  | cons t rest ih =>
    have hmem : t ∈ s.tblocks mm := by
      rw [hmm]
      simp
    have hlinked := h.linked_of_mem hmem
    have hd := @Mmap.dropped _ _ mm _ _ _ hlinked [] rest fun t' ht' =>
      update_of_ne ht' 0 (s.putRblock t).rblockOf
    have hfirst := h.steady_dropped hmm hd
    rw [Mmap.exitLoop, if_pos hlinked.nonzero.1]
    obtain ⟨hrest, hempty⟩ := ih hfirst.inv (by
      rw [hd.tblocks, update_self]
      rfl)
    refine ⟨hfirst.trans hrest, hempty.trans ?_⟩
    rw [hd.tblocks, update_idem]

/-- **One call.** The blocks stay owned. The counters move with the lists, unless a read fails. -/
theorem Inv.step (h : Inv s) {a : Act M} {es : List ℤ} (hs : step s a = some (s', es)) : Inv s' ∧
    (¬ a.ReadFails → s'.askedDrift = s.askedDrift ∧ s'.realDrift = s.realDrift) ∧
    (a.ReadFails → ∃ ck ∈ cacheSizes, s'.realDrift = s.realDrift + ck) := by
  cases a with
  | mmap mm m =>
    simp only [Mmap.step, Option.map_eq_some_iff, Prod.mk.injEq, Prod.exists] at hs
    obtain ⟨s₁, ret, hs, rfl, -⟩ := hs
    unfold Sys.doMmapPgoff at hs
    cases href : m.refused with
    | some ret =>
      simp only [href] at hs
      cases hs
      refine ⟨h, fun _ => ⟨rfl, rfl⟩, fun hfails => ?_⟩
      rw [Act.ReadFails, href] at hfails
      exact absurd hfails.1 (by simp)
    | none =>
      simp only [href] at hs
      cases h.copied hs with
      | noMemory hframe ha hr hno =>
        refine ⟨h.frame hframe, fun _ => hframe.drift ha hr, fun hfails => ?_⟩
        obtain ⟨-, h₁, h₂, h₃, h₄, -⟩ := hfails
        exact absurd ⟨h₁, h₂, h₃, h₄⟩ hno
      | unread ck hframe ha hr hck hall =>
        obtain ⟨h₁, h₂, h₃, h₄⟩ := hall
        refine ⟨h.frame hframe, fun hok => absurd ⟨href, by simp [hck], h₁, h₂, h₃, h₄⟩ hok,
          fun _ => ⟨ck, List.mem_of_find?_eq_some hck, ?_⟩⟩
        unfold Sys.realDrift
        rw [hr, hframe.linked.2]
        ring
      | linked t r k ct cr ck hfresh heq hread =>
        rw [heq]
        exact ⟨h.linked hfresh ct cr ck m.len, fun _ => h.linked_drift hfresh ct cr ck m.len,
          fun hfails => absurd hfails.2.2.2.2.2 hread⟩
  | munmap mm addr =>
    cases hs
    have hsteady := h.doMunmap mm addr
    exact ⟨hsteady.inv, fun _ => hsteady.drift, fun hfails => absurd hfails id⟩
  | exit mm =>
    cases hs
    have hsteady := (h.exitLoop (s.tblocks mm) rfl).1
    exact ⟨hsteady.inv, fun _ => hsteady.drift, fun hfails => absurd hfails id⟩

/-! ## Runs -/

variable {rblockOf : Ptr → Ptr} {rblock : Ptr → Rblock} {as : List (Act M)} {es : List ℤ}

omit [DecidableEq M] in
lemma inv_initial : Inv (initial rblockOf rblock : Sys M) := by
  refine ⟨rfl, fun p => ?_, fun _ _ ht => absurd ht (by simp [initial]), rfl⟩
  exact tally_eq_zero fun _ => rfl

lemma inv_run (h : Exec step anyStep (initial rblockOf rblock : Sys M) as es s) : Inv s :=
  h.invariant_state inv_initial fun _ _ _ _ hinv _ hs => (hinv.step hs).1

omit [DecidableEq M] in
lemma balanced_of_empty (h : ∀ mm, s.tblocks mm = []) :
    Balanced s ↔ s.askedalloc = 0 ∧ s.realalloc = 0 := by
  have hnodes : ∀ mm, s.nodes mm = [] := by
    intro mm
    unfold Sys.nodes
    rw [h mm, List.map_nil]
  have hasked : s.linkedAsked = 0 := tally_eq_zero fun mm => by rw [hnodes mm]; rfl
  have hreal : s.linkedReal = 0 := tally_eq_zero fun mm => by rw [hnodes mm]; rfl
  unfold Balanced
  rw [hasked, hreal]

lemma balanced_run (h : Exec step (fun _ a => ¬ a.ReadFails) (initial rblockOf rblock : Sys M) as es s) :
    Balanced s := by
  have hboth : Inv s ∧ Balanced s := by
    refine h.invariant_state (P := fun s => Inv s ∧ Balanced s) ⟨inv_initial, ?_⟩
      fun t a u fs ⟨hinv, hbal⟩ hok hs => ?_
    · rw [balanced_of_empty fun _ => rfl]
      exact ⟨rfl, rfl⟩
    · obtain ⟨hinv', hkeep, -⟩ := hinv.step hs
      refine ⟨hinv', ?_⟩
      rw [balanced_iff] at hbal ⊢
      rw [(hkeep hok).1, (hkeep hok).2]
      exact hbal
  exact hboth.2

lemma Inv.tblocks_step (h : Inv s) {a : Act M} (hs : Mmap.step s a = some (s', es)) {f : M → Bool}
    (hf : ∀ mm, f mm = false → s.tblocks mm = []) (mm' : M) (hmm' : mapped f a mm' = false) :
    s'.tblocks mm' = [] := by
  cases a with
  | mmap mm m =>
    simp only [Mmap.step, Option.map_eq_some_iff, Prod.exists] at hs
    obtain ⟨s₁, ret, hs, rfl, -⟩ := hs
    have hne : mm' ≠ mm := by
      intro heq
      rw [heq, mapped] at hmm'
      exact absurd hmm' (by simp)
    rw [mapped, update_of_ne hne] at hmm'
    unfold Sys.doMmapPgoff at hs
    cases href : m.refused with
    | some ret =>
      simp only [href, Option.some.injEq, Prod.mk.injEq] at hs
      rw [← hs.1]
      exact hf mm' hmm'
    | none =>
      simp only [href] at hs
      cases h.copied hs with
      | noMemory hframe => rw [hframe.tblocks]; exact hf mm' hmm'
      | unread _ hframe => rw [hframe.tblocks]; exact hf mm' hmm'
      | linked t r k ct cr ck _ heq =>
        rw [heq]
        exact (update_of_ne hne _ _).trans (hf mm' hmm')
  | munmap mm addr =>
    simp only [Mmap.step, Option.some.injEq, Prod.mk.injEq] at hs
    rw [← hs.1]
    have hempty := hf mm' hmm'
    rcases h.doMunmap_cases mm addr with ⟨heq, -⟩ | ⟨pre, t, rest, hmm, -, hd⟩
    · rw [heq]
      exact hempty
    · have hne : mm' ≠ mm := by
        rintro rfl
        rw [hempty] at hmm
        simp at hmm
      rw [hd.tblocks, update_of_ne hne]
      exact hempty
  | exit mm =>
    simp only [Mmap.step, Option.some.injEq, Prod.mk.injEq] at hs
    rw [← hs.1, Sys.exitMmap, (h.exitLoop _ rfl).2]
    by_cases heq : mm' = mm
    · rw [heq, update_self]
    · rw [mapped, update_of_ne heq] at hmm'
      rw [update_of_ne heq]
      exact hf mm' hmm'

/-- An address space without a mapping since its last exit has none. -/
lemma unmapped_run (h : Exec step anyStep (initial rblockOf rblock : Sys M) as es s) :
    ∀ mm, as.foldl mapped (fun _ => false) mm = false → s.tblocks mm = [] := by
  have hboth : Inv s ∧ ∀ mm, as.foldl mapped (fun _ => false) mm = false → s.tblocks mm = [] := by
    refine h.invariant_foldl
      (P := fun s (f : M → Bool) _ => Inv s ∧ ∀ mm, f mm = false → s.tblocks mm = [])
      ⟨inv_initial, fun _ _ => rfl⟩ fun s f _ a s' fs ⟨hinv, hf⟩ _ hs => ?_
    exact ⟨(hinv.step hs).1, hinv.tblocks_step hs hf⟩
  exact hboth.2

/-- **The accounts of the mappings.** In every run each allocated block is in exactly one list once and
nothing else is freed. The counters agree with the lists as long as no read fails, and are zero once
every address space has exited. A call after which they do not agree is one whose read fails. -/
theorem mapping_accounts (h : Exec step anyStep (initial rblockOf rblock : Sys M) as es s) :
    Owned s ∧ s.wild = false ∧
    ((∀ a ∈ as, ¬ a.ReadFails) → Balanced s ∧
      ((∀ mm, as.foldl mapped (fun _ => false) mm = false) → s.askedalloc = 0 ∧ s.realalloc = 0)) ∧
    ∀ a s' fs, step s a = some (s', fs) → Balanced s → (Balanced s' ↔ ¬ a.ReadFails) := by
  have hinv := inv_run h
  refine ⟨hinv.owned, hinv.tame, fun hok => ?_, fun a s' fs hs hbal => ?_⟩
  · have hbal := balanced_run ((h.and_of_forall_mem hok).mono fun _ _ hboth => hboth.2)
    refine ⟨hbal, fun hexited => ?_⟩
    exact (balanced_of_empty fun mm => unmapped_run h mm (hexited mm)).mp hbal
  · obtain ⟨-, hkeep, hdrift⟩ := hinv.step hs
    rw [balanced_iff] at hbal ⊢
    constructor
    · intro hbal' hfails
      obtain ⟨ck, hck, heq⟩ := hdrift hfails
      rw [hbal'.2, hbal.2, zero_add] at heq
      rw [← heq] at hck
      exact absurd hck (by decide)
    · intro hok
      rw [(hkeep hok).1, (hkeep hok).2]
      exact hbal

/-- Two address spaces with a mapping each, one of a file: the first one is dropped, the other one
exits. -/
theorem mapping_accounts_two_spaces : ∃ s es,
    Exec step anyStep (initial (fun _ => 0) (fun _ => ⟨0, 0, 0⟩) : Sys Bool)
      [.mmap true ⟨none, 100, false, false, false, some 1, some 2, some 3⟩,
        .mmap false ⟨some ⟨true, some (-89, 0), 5⟩, 40, false, false, false, some 4, some 5, some 6⟩,
        .munmap true 3, .exit true, .exit false] es s ∧
    es = [3, 6, -22] ∧ s.askedalloc = 0 ∧ s.realalloc = 0 := by
  refine Exec.exists_of_decide (fun _ es => es = [3, 6, -22]) (by decide +kernel)
    fun s es hrun hend => ?_
  obtain ⟨-, -, hbal, -⟩ := mapping_accounts hrun
  exact ⟨hend, (hbal (by decide +kernel)).2 (by decide)⟩

/-- A mapping whose read fails leaves its memory counted, although all its blocks are freed. -/
theorem failed_read_stays_counted : ∃ es s,
    Exec step anyStep (initial (fun _ => 0) (fun _ => ⟨0, 0, 0⟩) : Sys Unit)
      [.mmap () ⟨some ⟨true, some (-89, 0), -5⟩, 100, false, false, false, some 1, some 2, some 3⟩,
        .exit ()] es s ∧
    (∀ mm, s.tblocks mm = []) ∧ s.askedalloc = 100 ∧ s.realalloc = 128 ∧ ¬ Balanced s := by
  refine exists_comm.1 (Exec.exists_of_decide
    (fun s _ => s.tblocks () = [] ∧ s.askedalloc = 100 ∧ s.realalloc = 128) (by decide +kernel) ?_)
  intro s es _ ⟨hempty, hasked, hreal⟩
  refine ⟨fun _ => hempty, hasked, hreal, ?_⟩
  rw [balanced_of_empty fun _ => hempty, hasked]
  exact fun h => absurd h.1 (by decide)

end PsxLinux.Mmap
