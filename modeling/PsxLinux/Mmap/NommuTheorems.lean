import PsxLinux.Mmap.Nommu
import Mathlib.Tactic.Ring

/-!
# The accounts of the mappings

Every call keeps the blocks owned by exactly one list (`Inv`). The difference between a counter and the
sum over the lists is the same after every call but one: a mapping that could not read its file has
counted memory that it gives back.
-/

namespace PsxLinux.Mmap

open Lib Function List Sys

variable {M : Type} {s s' : Sys M} {mm : M} {p t : Ptr} {n : Node} {l : List Node}
variable {r k t' : Ptr} {heap : Ptr → Option Word}

lemma occurrences_cons : occurrences p (n :: l) = n.blocks.count p + occurrences p l := by
  unfold occurrences
  rw [flatMap_cons, count_append]

lemma occurrences_append (l₁ l₂ : List Node) :
    occurrences p (l₁ ++ l₂) = occurrences p l₁ + occurrences p l₂ := by
  unfold occurrences
  rw [flatMap_append, count_append]

lemma occurrences_pos (hn : n ∈ l) (hp : p ∈ n.blocks) : 0 < occurrences p l :=
  count_pos_iff.mpr (mem_flatMap.mpr ⟨n, hn, hp⟩)

lemma node_mem (ht : t ∈ s.tblocks mm) : s.node t ∈ s.nodes mm := mem_map_of_mem ht

/-- The descriptors of the linked tblocks are as before. -/
structure Frame (s s' : Sys M) : Prop where
  tblocks : s'.tblocks = s.tblocks
  heap : s'.heap = s.heap
  wild : s'.wild = s.wild
  rblock : ∀ mm, ∀ t ∈ s.tblocks mm, s'.rblockOf t = s.rblockOf t ∧
    s'.rblock (s.rblockOf t) = s.rblock (s.rblockOf t)

lemma Frame.nodes (h : Frame s s') : s'.nodes = s.nodes := by
  funext mm
  unfold Sys.nodes
  rw [h.tblocks]
  apply map_congr_left
  intro t ht
  obtain ⟨h₁, h₂⟩ := h.rblock mm t ht
  unfold node
  rw [h₁, h₂]

/-- `kmalloc` fails and changes nothing, or hands out an object that was free. -/
lemma kmalloc_cases {size : Word} {object : Option Ptr} (h : s.kmalloc size object = some (s', p)) :
    (s' = s ∧ p = 0 ∧ ¬ ((cacheSizes.find? (size ≤ ·)).isSome ∧ object.isSome)) ∨
    ∃ csize, cacheSizes.find? (size ≤ ·) = some csize ∧ object = some p ∧ p ≠ 0 ∧
      s.heap p = none ∧ s' = { s with heap := update s.heap p (some csize) } := by
  unfold kmalloc at h
  cases hfind : cacheSizes.find? (size ≤ ·) with
  | none =>
    simp only [hfind, Option.some.injEq, Prod.mk.injEq] at h
    exact .inl ⟨h.1.symm, h.2.symm, by simp⟩
  | some csize =>
    cases object with
    | none =>
      simp only [hfind, Option.some.injEq, Prod.mk.injEq] at h
      exact .inl ⟨h.1.symm, h.2.symm, by simp⟩
    | some q =>
      simp only [hfind] at h
      split_ifs at h with hfree
      cases h
      exact .inr ⟨csize, rfl, rfl, hfree.1, hfree.2, rfl⟩

/-! ## The blocks of a mapping -/

lemma fresh_update {q : Ptr} {c : Word}
    (h : update heap p (some c) q = none) : q ≠ p ∧ heap q = none := by
  by_cases hq : q = p
  · subst hq
    exact absurd h (by simp)
  · rw [update_of_ne hq] at h
    exact ⟨hq, h⟩

lemma update_free (c : Word) (h : heap p = none) :
    update (update heap p (some c)) p none = heap := by
  rw [update_idem, ← h, update_eq_self]

/-- The three blocks of a new mapping: none of them was in use. -/
structure Fresh (s : Sys M) (t r k : Ptr) : Prop where
  nonzero : t ≠ 0 ∧ r ≠ 0 ∧ k ≠ 0
  ne : r ≠ t ∧ k ≠ t ∧ k ≠ r
  free : s.heap t = none ∧ s.heap r = none ∧ s.heap k = none

/-- A new mapping, before its descriptors are counted and linked. -/
def Sys.filled (s : Sys M) (t r k : Ptr) (ct cr ck len : Word) : Sys M :=
  { s with
    heap := update (update (update s.heap t (some ct)) r (some cr)) k (some ck)
    rblockOf := update s.rblockOf t r
    rblock := update s.rblock r ⟨len, 1, k⟩
    realalloc := s.realalloc + ck
    askedalloc := s.askedalloc + len }

lemma count_eq (s : Sys M) (t r k : Ptr) (ct cr ck len : Word) :
    ({ s with
        heap := update (update (update s.heap t (some ct)) r (some cr)) k (some ck)
        rblockOf := update s.rblockOf t r } : Sys M).count t k len =
      s.filled t r k ct cr ck len := by
  simp [Sys.count, Sys.filled, Sys.ksize]

/-- A mapping that is given up before it is linked: the blocks are free again, and the counters are
not what they were. -/
lemma filled_freed (h : Fresh s t r k) (hlinked : ∀ mm, ∀ t' ∈ s.tblocks mm,
    t' ≠ t ∧ s.rblockOf t' ≠ r) (ct cr ck len : Word) :
    Frame s ((((s.filled t r k ct cr ck len).kfree k).kfree r).kfree t) := by
  have hk : update (update s.heap t (some ct)) r (some cr) k = none := by
    rw [update_of_ne h.ne.2.2, update_of_ne h.ne.2.1, h.free.2.2]
  have hr : update s.heap t (some ct) r = none := by
    rw [update_of_ne h.ne.1, h.free.2.1]
  refine ⟨rfl, ?_, ?_, fun mm t' ht' => ?_⟩
  · simp only [kfree, filled]
    rw [update_free ck hk, update_free cr hr, update_free ct h.free.1]
  · simp [kfree, filled, update_free ck hk, update_free cr hr]
  · obtain ⟨h₁, h₂⟩ := hlinked mm t' ht'
    simp [kfree, filled, update_of_ne h₁, update_of_ne h₂]

/-- What is known of a linked tblock. -/
structure Linked (s : Sys M) (t : Ptr) : Prop where
  nonzero : s.rblockOf t ≠ 0 ∧ (s.rblock (s.rblockOf t)).kblock ≠ 0
  refcount : (s.rblock (s.rblockOf t)).refcount = 1
  nodup : (s.node t).blocks.Nodup
  live : ∀ p ∈ (s.node t).blocks, (s.heap p).isSome

/-- The memory and the rblock of a linked tblock are given back. -/
lemma putRblock_eq (h : Linked s t) :
    s.putRblock t = { s with
      heap := update (update s.heap (s.node t).kblock none) (s.node t).rblock none
      rblock := update s.rblock (s.rblockOf t)
        { s.rblock (s.rblockOf t) with refcount := 0 }
      realalloc := s.realalloc - s.ksize (s.node t).kblock - s.ksize (s.node t).rblock
      askedalloc := s.askedalloc - (s.node t).size - sizeofRblock } := by
  obtain ⟨⟨hr₀, hk₀⟩, href, hnodup, hlive⟩ := h
  simp only [Node.blocks, node, nodup_cons, mem_cons, not_mem_nil, or_false] at hnodup
  have hk := hlive (s.node t).kblock (by simp [Node.blocks])
  have hr := hlive (s.node t).rblock (by simp [Node.blocks])
  rw [← Option.isNone_eq_false_iff] at hk hr
  simp only [node] at hk hr
  unfold putRblock
  simp only [if_pos hr₀, if_pos hk₀, href]
  simp [kfree, ksize, node, update_of_ne hnodup.2.1, hk, hr]

/-! ## Ownership -/

variable [Fintype M]

/-- What every call keeps. -/
structure Inv (s : Sys M) : Prop where
  null : s.heap 0 = none
  owned : Owned s
  held : ∀ mm, ∀ t ∈ s.tblocks mm, (s.rblock (s.rblockOf t)).refcount = 1
  tame : s.wild = false

/-- A block that is linked is allocated. -/
lemma Inv.live (h : Inv s) (hn : n ∈ s.nodes mm) (hp : p ∈ n.blocks) : (s.heap p).isSome := by
  have hpos := (occurrences_pos hn hp).trans_le (le_tally mm)
  rw [h.owned p] at hpos
  by_contra hnone
  rw [if_neg hnone] at hpos
  exact lt_irrefl 0 hpos

lemma Inv.ne_of_free (h : Inv s) (hn : n ∈ s.nodes mm) (hp : p ∈ n.blocks) {q : Ptr}
    (hq : s.heap q = none) : p ≠ q := by
  rintro rfl
  have hlive := h.live hn hp
  rw [hq] at hlive
  exact absurd hlive (by simp)

/-- A free block is linked nowhere. -/
lemma Inv.not_mem (h : Inv s) (hp : s.heap p = none) (ht : t ∈ s.tblocks mm) :
    p ∉ (s.node t).blocks :=
  fun hmem => h.ne_of_free (node_mem ht) hmem hp rfl

/-- New blocks are not those of a list. -/
lemma Inv.apart (h : Inv s) (hf : Fresh s t r k) (ht' : t' ∈ s.tblocks mm) :
    t' ≠ t ∧ s.rblockOf t' ≠ r := by
  constructor
  · rintro rfl
    exact h.not_mem hf.free.1 ht' (.head _)
  · rintro rfl
    exact h.not_mem hf.free.2.1 ht' (.tail _ (.head _))

lemma Inv.linked_of_mem (h : Inv s) (ht : t ∈ s.tblocks mm) : Linked s t := by
  have hnonzero : ∀ p ∈ (s.node t).blocks, p ≠ 0 := fun p hp => h.ne_of_free (node_mem ht) hp h.null
  refine ⟨⟨hnonzero _ (.tail _ (.head _)), hnonzero _ (.tail _ (.tail _ (.head _)))⟩, h.held mm t ht,
    ?_, fun p => h.live (node_mem ht)⟩
  rw [nodup_iff_count_le_one]
  intro p
  obtain ⟨pre, rest, hsplit⟩ := append_of_mem (node_mem ht)
  have hocc : (s.node t).blocks.count p ≤ occurrences p (s.nodes mm) := by
    rw [hsplit, occurrences_append, occurrences_cons]
    omega
  have hle := hocc.trans (le_tally mm)
  rw [h.owned p] at hle
  split_ifs at hle <;> omega

lemma Frame.linked (h : Frame s s') :
    s'.linkedAsked = s.linkedAsked ∧ s'.linkedReal = s.linkedReal := by
  have hksize : s'.ksize = s.ksize := by
    funext p
    unfold ksize
    rw [h.heap]
  unfold linkedAsked linkedReal
  rw [h.nodes, hksize]
  exact ⟨rfl, rfl⟩

/-- What neither the lists nor the heap see keeps the invariant. -/
lemma Inv.frame (h : Inv s) (hf : Frame s s') : Inv s' := by
  refine ⟨by rw [hf.heap]; exact h.null, fun p => ?_, fun mm t ht => ?_, hf.wild.trans h.tame⟩
  · rw [hf.nodes, hf.heap]
    exact h.owned p
  · rw [hf.tblocks] at ht
    obtain ⟨h₁, h₂⟩ := hf.rblock mm t ht
    rw [h₁, h₂]
    exact h.held mm t ht

/-! ## Accounts -/

def Sys.askedDrift (s : Sys M) : Word := s.askedalloc - s.linkedAsked

def Sys.realDrift (s : Sys M) : Word := s.realalloc - s.linkedReal

lemma balanced_iff : Balanced s ↔ s.askedDrift = 0 ∧ s.realDrift = 0 := by
  unfold Balanced askedDrift realDrift
  rw [sub_eq_zero, sub_eq_zero]

lemma real_congr {ksize ksize' : Ptr → Word} {f : M → List Node}
    (h : ∀ mm, ∀ n ∈ f mm, ∀ p ∈ n.blocks, ksize' p = ksize p) :
    tally (fun l => (l.map (Node.real ksize')).sum) f =
      tally (fun l => (l.map (Node.real ksize)).sum) f := by
  apply Finset.sum_congr rfl
  intro mm _
  change ((f mm).map (Node.real ksize')).sum = ((f mm).map (Node.real ksize)).sum
  congr 1
  apply map_congr_left
  intro n hn
  have hn' := h mm n hn
  unfold Node.real
  rw [hn' _ (by simp [Node.blocks]), hn' n.rblock (by simp [Node.blocks]),
    hn' n.kblock (by simp [Node.blocks])]

lemma Frame.drift (h : Frame s s') (ha : s'.askedalloc = s.askedalloc)
    (hr : s'.realalloc = s.realalloc) :
    s'.askedDrift = s.askedDrift ∧ s'.realDrift = s.realDrift := by
  unfold askedDrift realDrift
  rw [h.linked.1, h.linked.2, ha, hr]
  exact ⟨rfl, rfl⟩

/-! ## Mapping -/

variable [DecidableEq M]

/-- How a mapping ends that got past the checks. -/
inductive Copied (s : Sys M) (mm : M) (m : Args) (s' : Sys M) : Prop
  | noMemory : Frame s s' → s'.askedalloc = s.askedalloc → s'.realalloc = s.realalloc →
      ¬ ((cacheSizes.find? (m.len ≤ ·)).isSome ∧ m.tblock.isSome ∧ m.rblock.isSome ∧
        m.result.isSome) → Copied s mm m s'
  | unread (ck : Word) : Frame s s' → s'.askedalloc = s.askedalloc + m.len →
      s'.realalloc = s.realalloc + ck → cacheSizes.find? (m.len ≤ ·) = some ck →
      (m.tblock.isSome ∧ m.rblock.isSome ∧ m.result.isSome ∧
        m.file.any fun file => file.read < 0) → Copied s mm m s'
  | linked (t r k : Ptr) (ct cr ck : Word) : Fresh s t r k →
      s' = (s.filled t r k ct cr ck m.len).link mm t →
      ¬ (m.file.any fun file => file.read < 0) → Copied s mm m s'

/-- The three allocations and the read, each of which may fail. -/
lemma Inv.copied (h : Inv s) {m : Args} {ret : ℤ} (hs : s.copy mm m = some (s', ret)) :
    Copied s mm m s' := by
  simp only [copy, Option.bind_eq_bind, Option.bind_eq_some_iff, Prod.exists] at hs
  obtain ⟨s₁, t, hs₁, hs⟩ := hs
  rcases kmalloc_cases hs₁ with ⟨rfl, rfl, hno⟩ | ⟨ct, -, htb, ht₀, ht, rfl⟩
  · cases hs
    exact .noMemory ⟨rfl, rfl, rfl, fun _ _ _ => ⟨rfl, rfl⟩⟩ rfl rfl fun hall => hno ⟨rfl, hall.2.1⟩
  rw [if_neg ht₀] at hs
  simp only [Option.bind_eq_some_iff, Prod.exists] at hs
  obtain ⟨s₂, r, hs₂, hs⟩ := hs
  -- the tblock is linked nowhere, so that its rblock may be set
  have htlinked : ∀ mm, ∀ t' ∈ s.tblocks mm, t' ≠ t := by
    rintro mm t' ht' rfl
    exact h.not_mem ht ht' (.head _)
  rcases kmalloc_cases hs₂ with ⟨rfl, rfl, hno⟩ | ⟨cr, -, hrb, hr₀, hr, rfl⟩
  · cases hs
    refine .noMemory ⟨rfl, ?_, ?_, fun mm t' ht' => ?_⟩ rfl rfl fun hall => hno ⟨rfl, hall.2.2.1⟩
    · simp [kfree, ← ht]
    · simp [kfree]
    · simp [kfree, update_of_ne (htlinked mm t' ht')]
  rw [if_neg hr₀] at hs
  simp only [Option.bind_eq_some_iff, Prod.exists] at hs
  obtain ⟨s₃, k, hs₃, hs⟩ := hs
  obtain ⟨hrt, hr'⟩ := fresh_update hr
  rcases kmalloc_cases hs₃ with ⟨rfl, rfl, hno⟩ | ⟨ck, hck, hkb, hk₀, hk, rfl⟩
  · cases hs
    refine .noMemory ⟨rfl, ?_, ?_, fun mm t' ht' => ?_⟩ rfl rfl fun hall => hno ⟨hall.1, hall.2.2.2⟩
    · simp only [kfree]
      rw [update_free cr hr, update_free ct ht]
    · simp [kfree, update_free cr hr]
    · simp [kfree, update_of_ne (htlinked mm t' ht')]
  rw [if_neg hk₀] at hs
  obtain ⟨hkr, hk'⟩ := fresh_update hk
  obtain ⟨hkt, hk''⟩ := fresh_update hk'
  have hfresh : Fresh s t r k := ⟨⟨ht₀, hr₀, hk₀⟩, ⟨hrt, hkt, hkr⟩, ht, hr', hk''⟩
  simp only [count_eq] at hs
  cases hfile : m.file with
  | none =>
    simp only [hfile] at hs
    cases hs
    exact .linked t r k ct cr ck hfresh rfl (by simp [hfile])
  | some file =>
    simp only [hfile] at hs
    split_ifs at hs with hread
    · cases hs
      refine .unread ck (filled_freed hfresh (fun mm t' => h.apart hfresh) ct cr ck m.len) rfl rfl hck ?_
      simp [htb, hrb, hkb, hfile, hread]
    · cases hs
      exact .linked t r k ct cr ck hfresh rfl (by simpa [hfile] using hread)

/-! ### A new mapping -/

omit [Fintype M] in
lemma map_update (node : Ptr → Node) (f : M → List Ptr) (l : List Ptr) (mm mm' : M) :
    (update f mm l mm').map node = update (fun m => (f m).map node) mm (l.map node) mm' :=
  apply_update (fun _ l => l.map node) f mm l mm'

omit [Fintype M] in
/-- Linking a block puts its node in front. -/
lemma nodes_linked (hlinked : ∀ mm, ∀ t' ∈ s.tblocks mm,
    t' ≠ t ∧ s.rblockOf t' ≠ r) (k : Ptr) (ct cr ck len : Word) :
    ((s.filled t r k ct cr ck len).link mm t).nodes =
      update s.nodes mm (⟨t, r, k, len⟩ :: s.nodes mm) := by
  have hold : ∀ mm', (s.tblocks mm').map ((s.filled t r k ct cr ck len).link mm t).node =
      s.nodes mm' := by
    intro mm'
    apply map_congr_left
    intro t' ht'
    obtain ⟨h₁, h₂⟩ := hlinked mm' t' ht'
    simp [node, link, filled, update_of_ne h₁, update_of_ne h₂]
  have hnew : ((s.filled t r k ct cr ck len).link mm t).node t = ⟨t, r, k, len⟩ := by
    simp [node, link, filled]
  have htblocks : ((s.filled t r k ct cr ck len).link mm t).tblocks =
      update s.tblocks mm (t :: s.tblocks mm) := rfl
  funext mm'
  unfold nodes
  rw [htblocks, map_update, map_cons, hnew, hold, funext hold]
  rfl

/-- **A mapping is linked.** -/
lemma Inv.linked (h : Inv s) (hf : Fresh s t r k) (ct cr ck len : Word) :
    Inv ((s.filled t r k ct cr ck len).link mm t) := by
  have hapart := fun mm t' (ht' : t' ∈ s.tblocks mm) => h.apart hf ht'
  have hheap : ((s.filled t r k ct cr ck len).link mm t).heap = update (update
      (update s.heap t (some ct)) r (some cr)) k (some ck) := rfl
  obtain ⟨⟨ht₀, hr₀, hk₀⟩, ⟨hrt, hkt, hkr⟩, ht, hr, hk⟩ := hf
  refine ⟨?_, fun p => ?_, fun mm' t' ht' => ?_, h.tame⟩
  · rw [hheap, update_of_ne (Ne.symm hk₀), update_of_ne (Ne.symm hr₀), update_of_ne (Ne.symm ht₀)]
    exact h.null
  · have hupdate := tally_update (w := occurrences p) (f := s.nodes) (i := mm)
      (v := ⟨t, r, k, len⟩ :: s.nodes mm)
    have hone := h.owned p
    have hnodup : [t, r, k].Nodup := by simp [Ne.symm hrt, Ne.symm hkt, Ne.symm hkr]
    have hcount : (Node.blocks ⟨t, r, k, len⟩).count p = if p ∈ [t, r, k] then 1 else 0 := hnodup.count
    rw [nodes_linked hapart, hheap]
    rw [occurrences_cons, hcount] at hupdate
    by_cases hp : p ∈ [t, r, k]
    · -- a new block occurred nowhere
      have hnone : s.heap p = none := by
        simp only [mem_cons, not_mem_nil, or_false] at hp
        rcases hp with rfl | rfl | rfl <;> assumption
      have hsome : (update (update (update s.heap t (some ct)) r (some cr))
          k (some ck) p).isSome := by
        simp only [mem_cons, not_mem_nil, or_false] at hp
        rcases hp with rfl | rfl | rfl <;> simp [update_apply] <;> split_ifs <;> simp
      rw [hnone] at hone
      rw [if_pos hp] at hupdate
      rw [if_pos hsome]
      simp at hone
      omega
    · have hne : p ≠ t ∧ p ≠ r ∧ p ≠ k := by simpa using hp
      rw [if_neg hp] at hupdate
      rw [update_of_ne hne.2.2, update_of_ne hne.2.1, update_of_ne hne.1]
      omega
  · have htblocks : ((s.filled t r k ct cr ck len).link mm t).tblocks =
        update s.tblocks mm (t :: s.tblocks mm) := rfl
    have hmem : t' = t ∨ t' ∈ s.tblocks mm' := by
      rw [htblocks, update_apply] at ht'
      split_ifs at ht' with hmm
      · rw [hmm]
        exact mem_cons.mp ht'
      · exact .inr ht'
    rcases hmem with rfl | hold
    · simp [link, filled]
    · obtain ⟨h₁, h₂⟩ := hapart mm' t' hold
      simp only [link, filled, update_of_ne h₁, update_of_ne h₂]
      exact h.held mm' t' hold

/-- What is counted for the mapping is what it takes. -/
lemma Inv.linked_drift (h : Inv s) (hf : Fresh s t r k) (ct cr ck len : Word) :
    ((s.filled t r k ct cr ck len).link mm t).askedDrift = s.askedDrift ∧
    ((s.filled t r k ct cr ck len).link mm t).realDrift = s.realDrift := by
  have hapart := fun mm t' (ht' : t' ∈ s.tblocks mm) => h.apart hf ht'
  obtain ⟨-, ⟨hrt, hkt, hkr⟩, ht, hr, hk⟩ := hf
  constructor
  · have hupdate := tally_update (w := fun l => (l.map Node.asked).sum) (f := s.nodes) (i := mm)
      (v := ⟨t, r, k, len⟩ :: s.nodes mm)
    unfold askedDrift linkedAsked
    rw [nodes_linked hapart]
    simp only [map_cons, sum_cons] at hupdate
    rw [eq_sub_of_add_eq hupdate]
    simp only [link, filled, Node.asked]
    ring
  · have hupdate := tally_update
      (w := fun l => (l.map (Node.real ((s.filled t r k ct cr ck len).link mm t).ksize)).sum)
      (f := s.nodes) (i := mm) (v := ⟨t, r, k, len⟩ :: s.nodes mm)
    have hsame : ∀ mm, ∀ n ∈ s.nodes mm, ∀ p ∈ n.blocks,
        ((s.filled t r k ct cr ck len).link mm t).ksize p = s.ksize p := by
      intro mm' n hn p hp
      have hne := fun q => h.ne_of_free hn hp (q := q)
      simp [ksize, link, filled, update_of_ne (hne k hk),
        update_of_ne (hne r hr), update_of_ne (hne t ht)]
    unfold realDrift linkedReal
    rw [nodes_linked hapart]
    rw [eq_sub_of_add_eq hupdate, real_congr hsame]
    simp [link, filled, Node.real, ksize, update_of_ne, Ne.symm hrt, Ne.symm hkt, Ne.symm hkr]
    ring

/-! ## Unmapping -/

/-- One mapping is gone from its list, with its blocks and what they counted. -/
structure Dropped (s s' : Sys M) (mm : M) (pre : List Ptr) (t : Ptr) (rest : List Ptr) : Prop where
  tblocks : s'.tblocks = update s.tblocks mm (pre ++ rest)
  heap : ∀ p, s'.heap p = if p ∈ (s.node t).blocks then none else s.heap p
  asked : s'.askedalloc = s.askedalloc - (s.node t).asked
  real : s'.realalloc = s.realalloc - (s.node t).real s.ksize
  wild : s'.wild = s.wild
  rblockOf : ∀ t', t' ≠ t → s'.rblockOf t' = s.rblockOf t'
  rblock : ∀ r, r ≠ s.rblockOf t → s'.rblock r = s.rblock r

omit [Fintype M] in
/-- `do_munmap` and `exit_mmap` take one mapping out. The latter also clears the rblock pointer. -/
lemma dropped {rblockOf : Ptr → Ptr} (h : Linked s t) (pre rest : List Ptr)
    (hrblockOf : ∀ t', t' ≠ t → rblockOf t' = (s.putRblock t).rblockOf t') :
    Dropped s (freeTblock { s.putRblock t with
      rblockOf := rblockOf, tblocks := update (s.putRblock t).tblocks mm (pre ++ rest) } t)
      mm pre t rest := by
  rw [putRblock_eq h] at hrblockOf ⊢
  obtain ⟨-, -, hnodup, hlive⟩ := h
  have ht := hlive t (by simp [Node.blocks, node])
  simp only [Node.blocks, node, nodup_cons, mem_cons, not_mem_nil, or_false, not_or] at hnodup
  have hheap : update (update s.heap (s.node t).kblock none) (s.node t).rblock none t = s.heap t :=
    (update_of_ne hnodup.1.1 _ _).trans (update_of_ne hnodup.1.2 _ _)
  refine ⟨rfl, fun p => ?_, ?_, ?_, ?_, hrblockOf, fun r hr => update_of_ne hr _ _⟩
  · simp only [freeTblock, kfree, update_apply, Node.blocks, node, mem_cons, not_mem_nil, or_false]
    split_ifs <;> simp_all
  · simp only [freeTblock, kfree, Node.asked]
    ring
  · simp only [freeTblock, kfree, Node.real, ksize, hheap]
    simp only [node]
    ring
  · simp only [freeTblock, kfree, hheap]
    simp [Option.isSome_iff_ne_none.mp ht]

section Dropped
variable {pre rest : List Ptr} (hmm : s.tblocks mm = pre ++ t :: rest)
include hmm

omit [Fintype M] [DecidableEq M] in
/-- The list before an unlinking, cut at the block. -/
lemma nodes_split : s.nodes mm = pre.map s.node ++ s.node t :: rest.map s.node := by
  unfold nodes
  rw [hmm, map_append, map_cons]

lemma tally_dropped (p : Ptr) :
    tally (occurrences p) (update s.nodes mm (pre.map s.node ++ rest.map s.node)) +
      (s.node t).blocks.count p = tally (occurrences p) s.nodes := by
  have hupdate := tally_update (w := occurrences p) (f := s.nodes) (i := mm)
    (v := pre.map s.node ++ rest.map s.node)
  rw [nodes_split hmm, occurrences_append, occurrences_append, occurrences_cons] at hupdate
  omega

/-- The blocks of the unlinked node are in no other one. -/
lemma Inv.gone (h : Inv s) {mm' : M} (ht' : t' ∈ update s.tblocks mm (pre ++ rest) mm')
    (hp : p ∈ (s.node t).blocks) :
    p ∉ (s.node t').blocks := by
  intro hmem
  have hmem' : s.node t' ∈ update s.nodes mm (pre.map s.node ++ rest.map s.node) mm' := by
    rw [← map_append]
    exact map_update s.node _ _ mm mm' ▸ mem_map_of_mem ht'
  have hpos := (occurrences_pos hmem' hmem).trans_le (le_tally mm')
  have hcount := count_pos_iff.mpr hp
  have htally := tally_dropped hmm p
  rw [h.owned p] at htally
  split_ifs at htally <;> omega

lemma Inv.other (h : Inv s) {mm' : M} (ht' : t' ∈ update s.tblocks mm (pre ++ rest) mm') :
    t' ≠ t ∧ s.rblockOf t' ≠ s.rblockOf t := by
  constructor
  · rintro rfl
    exact h.gone hmm ht' (.head _) (.head _)
  · intro heq
    have hmem : s.rblockOf t ∈ (s.node t').blocks := heq ▸ .tail _ (.head _)
    exact h.gone hmm ht' (.tail _ (.head _)) hmem

lemma Dropped.nodes (h : Inv s) (hd : Dropped s s' mm pre t rest) :
    s'.nodes = update s.nodes mm (pre.map s.node ++ rest.map s.node) := by
  have hold : ∀ mm', ∀ t' ∈ update s.tblocks mm (pre ++ rest) mm', s'.node t' = s.node t' := by
    intro mm' t' ht'
    obtain ⟨h₁, h₂⟩ := h.other hmm ht'
    unfold node
    rw [hd.rblockOf t' h₁, hd.rblock _ h₂]
  funext mm'
  have hmap : s'.nodes mm' = (update s.tblocks mm (pre ++ rest) mm').map s.node := by
    unfold Sys.nodes
    rw [hd.tblocks]
    exact map_congr_left (hold mm')
  rw [hmap, map_update, map_append]
  rfl

/-- **A mapping is unlinked and freed.** -/
lemma Inv.dropped (h : Inv s) (hd : Dropped s s' mm pre t rest) : Inv s' := by
  have hmem : t ∈ s.tblocks mm := by simp [hmm]
  have hlinked := h.linked_of_mem hmem
  refine ⟨?_, fun p => ?_, fun mm' t' ht' => ?_, hd.wild.trans h.tame⟩
  · rw [hd.heap, h.null, ite_self]
  · have htally := tally_dropped hmm p
    rw [hlinked.nodup.count, h.owned p] at htally
    rw [hd.nodes hmm h, hd.heap]
    by_cases hp : p ∈ (s.node t).blocks
    · rw [if_pos hp, if_pos (hlinked.live p hp)] at htally
      rw [if_pos hp]
      simpa using htally
    · rw [if_neg hp] at htally ⊢
      exact htally
  · rw [hd.tblocks] at ht'
    obtain ⟨h₁, h₂⟩ := h.other hmm ht'
    have hmem' : t' ∈ s.tblocks mm' := by
      rw [update_apply] at ht'
      split_ifs at ht' with heq
      · rw [heq, hmm]
        simp only [mem_append] at ht' ⊢
        tauto
      · exact ht'
    rw [hd.rblockOf t' h₁, hd.rblock _ h₂]
    exact h.held mm' t' hmem'

lemma sum_dropped (g : Node → Word) :
    tally (fun l => (l.map g).sum) (update s.nodes mm (pre.map s.node ++ rest.map s.node)) +
      g (s.node t) = tally (fun l => (l.map g).sum) s.nodes := by
  have hupdate := tally_update (w := fun l : List Node => (l.map g).sum) (f := s.nodes) (i := mm)
    (v := pre.map s.node ++ rest.map s.node)
  rw [nodes_split hmm] at hupdate
  simp only [map_append, map_cons, sum_append, sum_cons] at hupdate
  apply add_right_cancel
  rw [← hupdate]
  ring

/-- What is counted back is what was counted. -/
lemma Inv.dropped_drift (h : Inv s) (hd : Dropped s s' mm pre t rest) :
    s'.askedDrift = s.askedDrift ∧ s'.realDrift = s.realDrift := by
  constructor
  · unfold askedDrift linkedAsked
    rw [hd.nodes hmm h, hd.asked, eq_sub_of_add_eq (sum_dropped hmm _)]
    ring
  · have hsame : ∀ mm', ∀ n ∈ s'.nodes mm', ∀ p ∈ n.blocks, s'.ksize p = s.ksize p := by
      intro mm' n hn p hp
      unfold ksize
      rw [hd.heap, if_neg]
      intro hmem
      have hlive := (h.dropped hmm hd).live hn hp
      rw [hd.heap, if_pos hmem] at hlive
      exact absurd hlive (by simp)
    unfold realDrift linkedReal
    rw [real_congr hsame, hd.nodes hmm h, hd.real, eq_sub_of_add_eq (sum_dropped hmm _)]
    ring

end Dropped

end PsxLinux.Mmap
