import Mathlib.Data.List.Perm.Basic
import Mathlib.Data.List.Nodup

/-!
# Forests of first children and next siblings

The usual way of linking a tree in C: each node has a pointer to its first child and one to its next
sibling. A forest is what such a pointer leads to. `row` is the list of the siblings, `nodes` all nodes
of the forest with what hangs below each, `setKids` replaces what hangs below the nodes that a test
picks, and `erase` cuts those nodes out.
-/

namespace PsxLinux.Lib

open List

inductive Forest (α : Type*)
  | nil
  | node (a : α) (child sibling : Forest α)

namespace Forest

variable {α : Type*} {p : α → Bool} {a b : α} {f c d kids : Forest α}
variable {s : Forest α} {n : α × Forest α}

/-- The siblings. -/
def row : Forest α → List α
  | nil => []
  | node a _ s => a :: s.row

/-- Every node, with the forest below it. -/
def nodes : Forest α → List (α × Forest α)
  | nil => []
  | node a c s => (a, c) :: (c.nodes ++ s.nodes)

/-- What stands in the nodes. -/
def labels : Forest α → List α
  | nil => []
  | node a c s => a :: (c.labels ++ s.labels)

def find? (p : α → Bool) : Forest α → Option (α × Forest α)
  | nil => none
  | node a c s =>
    if p a then some (a, c)
    else match c.find? p with
      | some n => some n
      | none => s.find? p

def setKids (p : α → Bool) : (f kids : Forest α) → Forest α
  | nil, _ => nil
  | node a c s, kids => node a (if p a then kids else c.setKids p kids) (s.setKids p kids)

def erase (p : α → Bool) : Forest α → Forest α
  | nil => nil
  | node a c s => if p a then s.erase p else node a (c.erase p) (s.erase p)

lemma setKids_node : (node a c s).setKids p kids =
    node a (if p a then kids else c.setKids p kids) (s.setKids p kids) := rfl

lemma erase_node :
    (node a c s).erase p = if p a then s.erase p else node a (c.erase p) (s.erase p) := rfl

/-! ## Nodes and labels -/

lemma map_fst_nodes (f : Forest α) : f.nodes.map Prod.fst = f.labels := by
  induction f with
  | nil => rfl
  | node a c s ihc ihs => simp [nodes, labels, ihc, ihs]

lemma mem_labels_iff : a ∈ f.labels ↔ ∃ c, (a, c) ∈ f.nodes := by
  simp [← map_fst_nodes]

lemma mem_labels_of_mem_nodes (h : (a, c) ∈ f.nodes) : a ∈ f.labels :=
  mem_labels_iff.2 ⟨c, h⟩

lemma mem_labels_of_mem_row (h : a ∈ f.row) : a ∈ f.labels := by
  induction f with
  | nil => exact h
  | node b c s _ ihs =>
    rcases mem_cons.1 h with rfl | h
    · exact mem_cons_self
    · exact mem_cons_of_mem _ (mem_append_right _ (ihs h))

/-- What is below a node is in the forest. -/
lemma nodes_trans (h : (a, c) ∈ f.nodes) (h' : (b, d) ∈ c.nodes) : (b, d) ∈ f.nodes := by
  induction f with
  | nil => simp [nodes] at h
  | node a' c' s ihc ihs =>
    simp only [nodes, mem_cons, mem_append] at h ⊢
    rcases h with ⟨rfl, rfl⟩ | h | h
    · exact .inr (.inl h')
    · exact .inr (.inl (ihc h))
    · exact .inr (.inr (ihs h))

lemma find?_spec (h : f.find? p = some (a, c)) : p a ∧ (a, c) ∈ f.nodes := by
  induction f with
  | nil => simp [find?] at h
  | node b d s ihd ihs =>
    simp only [find?] at h
    simp only [nodes, mem_cons, mem_append]
    split_ifs at h with hp
    · obtain ⟨rfl, rfl⟩ := Prod.mk.inj (Option.some.inj h)
      exact ⟨hp, .inl rfl⟩
    · split at h
      · rename_i n hn
        cases h
        exact ⟨(ihd hn).1, .inr (.inl (ihd hn).2)⟩
      · exact ⟨(ihs h).1, .inr (.inr (ihs h).2)⟩

/-! ## Replacing what hangs below a node -/

@[simp] lemma row_setKids (f : Forest α) : (f.setKids p kids).row = f.row := by
  induction f with
  | nil => rfl
  | node a c s _ ihs => simp [setKids, row, ihs]

lemma setKids_of_none (h : ∀ a ∈ f.labels, p a = false) : f.setKids p kids = f := by
  induction f with
  | nil => rfl
  | node a c s ihc ihs =>
    simp only [labels, mem_cons, mem_append, forall_eq_or_imp] at h
    simp only [setKids, h.1, Bool.false_eq_true, if_false]
    rw [ihc fun a ha => h.2 a (.inl ha), ihs fun a ha => h.2 a (.inr ha)]

/-- The nodes after a replacement: the picked ones with their new kids, the nodes of the kids, and the
others with the replacement made below them. -/
lemma mem_nodes_setKids (h : n ∈ (f.setKids p kids).nodes) :
    (p n.1 ∧ n.2 = kids ∧ n.1 ∈ f.labels) ∨ n ∈ kids.nodes ∨
    (∃ c, (n.1, c) ∈ f.nodes ∧ n.2 = c.setKids p kids) := by
  induction f with
  | nil => simp [setKids, nodes] at h
  | node a c s ihc ihs =>
    simp only [setKids, nodes, mem_cons, mem_append] at h
    simp only [nodes, labels, mem_cons, mem_append]
    rcases h with rfl | h | h
    · by_cases hp : p a
      · exact .inl ⟨hp, if_pos hp, .inl rfl⟩
      · exact .inr (.inr ⟨c, .inl rfl, if_neg hp⟩)
    · by_cases hp : p a
      · rw [if_pos hp] at h
        exact .inr (.inl h)
      · rw [if_neg hp] at h
        rcases ihc h with ⟨h₁, h₂, h₃⟩ | h₁ | ⟨d, h₁, h₂⟩
        · exact .inl ⟨h₁, h₂, .inr (.inl h₃)⟩
        · exact .inr (.inl h₁)
        · exact .inr (.inr ⟨d, .inr (.inl h₁), h₂⟩)
    · rcases ihs h with ⟨h₁, h₂, h₃⟩ | h₁ | ⟨d, h₁, h₂⟩
      · exact .inl ⟨h₁, h₂, .inr (.inr h₃)⟩
      · exact .inr (.inl h₁)
      · exact .inr (.inr ⟨d, .inr (.inr h₁), h₂⟩)

/-- Every label stands in the first row or in the row below a node. -/
lemma mem_row_or_below (h : a ∈ f.labels) : a ∈ f.row ∨ ∃ n ∈ f.nodes, a ∈ n.2.row := by
  induction f with
  | nil => simp [labels] at h
  | node b c s ihc ihs =>
    simp only [labels, mem_cons, mem_append] at h
    simp only [row, nodes, mem_cons, mem_append]
    rcases h with rfl | h | h
    · exact .inl (.inl rfl)
    · rcases ihc h with h | ⟨n, hn, h⟩
      · exact .inr ⟨(b, c), .inl rfl, h⟩
      · exact .inr ⟨n, .inr (.inl hn), h⟩
    · rcases ihs h with h | ⟨n, hn, h⟩
      · exact .inl (.inr h)
      · exact .inr ⟨n, .inr (.inr hn), h⟩

/-! ## Cutting out -/

/-- Erasing takes labels out of a row. -/
lemma row_erase (f : Forest α) : (f.erase p).row = f.row.filter fun a => !p a := by
  induction f with
  | nil => rfl
  | node a c s _ ihs =>
    cases hp : p a <;> simp [erase, row, hp, ihs]

lemma erase_of_none (h : ∀ a ∈ f.labels, p a = false) : f.erase p = f := by
  induction f with
  | nil => rfl
  | node a c s ihc ihs =>
    simp only [labels, mem_cons, mem_append, forall_eq_or_imp] at h
    simp only [erase, h.1, Bool.false_eq_true, if_false]
    rw [ihc fun a ha => h.2 a (.inl ha), ihs fun a ha => h.2 a (.inr ha)]

/-- A node that is left was there, perhaps with more below it. -/
lemma mem_nodes_erase (h : n ∈ (f.erase p).nodes) :
    p n.1 = false ∧ ∃ c, (n.1, c) ∈ f.nodes ∧ n.2 = c.erase p := by
  induction f with
  | nil => simp [erase, nodes] at h
  | node a c s ihc ihs =>
    simp only [nodes, mem_cons, mem_append]
    unfold erase at h
    split_ifs at h with hp
    · obtain ⟨h₁, d, h₂, h₃⟩ := ihs h
      exact ⟨h₁, d, .inr (.inr h₂), h₃⟩
    · simp only [nodes, mem_cons, mem_append] at h
      rcases h with rfl | h | h
      · exact ⟨by simpa using hp, c, .inl rfl, rfl⟩
      · obtain ⟨h₁, d, h₂, h₃⟩ := ihc h
        exact ⟨h₁, d, .inr (.inl h₂), h₃⟩
      · obtain ⟨h₁, d, h₂, h₃⟩ := ihs h
        exact ⟨h₁, d, .inr (.inr h₂), h₃⟩

lemma labels_erase_sublist (f : Forest α) : (f.erase p).labels.Sublist f.labels := by
  induction f with
  | nil => exact .refl _
  | node a c s ihc ihs =>
    unfold erase
    split_ifs
    · exact (ihs.trans (sublist_append_right _ _)).cons _
    · exact (ihc.append ihs).cons_cons _

/-- Erasing leaves takes nothing else away. -/
lemma labels_erase_of_leaf (h : ∀ n ∈ f.nodes, p n.1 → n.2 = nil) :
    (f.erase p).labels = f.labels.filter fun a => !p a := by
  induction f with
  | nil => rfl
  | node a c s ihc ihs =>
    simp only [nodes, mem_cons, mem_append, forall_eq_or_imp] at h
    obtain ⟨hleaf, h⟩ := h
    have hs := ihs fun n hn => h n (.inr hn)
    have hc := ihc fun n hn => h n (.inl hn)
    cases hp : p a with
    | true =>
      simp only [hleaf hp, erase, hp, if_true, labels, hs, nil_append]
      rw [filter_cons_of_neg (by simp [hp])]
    | false =>
      simp only [erase, hp, Bool.false_eq_true, if_false, labels, hs, hc]
      rw [filter_cons_of_pos (by simp [hp]), filter_append]

/-! ## Nodes with keys of their own -/

section Keys
variable {ι : Type*} {key : α → ι} {k : ι}

def Keyed (key : α → ι) (f : Forest α) : Prop := (f.labels.map key).Nodup

lemma keyed_node : (node a c s).Keyed key ↔
    key a ∉ c.labels.map key ∧ key a ∉ s.labels.map key ∧ c.Keyed key ∧ s.Keyed key ∧
      ∀ i ∈ c.labels.map key, i ∉ s.labels.map key := by
  unfold Keyed
  simp only [labels, map_cons, map_append, nodup_cons, mem_append, not_or, nodup_append']
  tauto

/-- A key determines its label. -/
lemma Keyed.eq_of_key (h : f.Keyed key) (ha : a ∈ f.labels) (hb : b ∈ f.labels)
    (hkey : key a = key b) : a = b :=
  inj_on_of_nodup_map h ha hb hkey

lemma Keyed.of_mem_nodes (h : f.Keyed key) (hn : (a, c) ∈ f.nodes) : c.Keyed key := by
  induction f with
  | nil => simp [nodes] at hn
  | node b d s ihd ihs =>
    obtain ⟨-, -, hd, hs, -⟩ := keyed_node.1 h
    simp only [nodes, mem_cons, mem_append] at hn
    rcases hn with ⟨rfl, rfl⟩ | hn | hn
    · exact hd
    · exact ihd hd hn
    · exact ihs hs hn

variable [DecidableEq ι]

def hasKey (key : α → ι) (k : ι) (a : α) : Bool := key a = k

lemma hasKey_iff : hasKey key k a ↔ key a = k := decide_eq_true_iff

lemma hasKey_eq_false : hasKey key k a = false ↔ key a ≠ k := decide_eq_false_iff_not

lemma none_of_not_mem (h : k ∉ f.labels.map key) : ∀ a ∈ f.labels, hasKey key k a = false := by
  intro a ha
  rw [hasKey_eq_false]
  rintro rfl
  exact h (mem_map_of_mem ha)

lemma not_hasKey (h : key a ∉ f.labels.map key) (hk : k ∈ f.labels.map key) :
    ¬ hasKey key k a := by
  rw [hasKey_iff]
  rintro rfl
  exact h hk

/-- The key of a node is not met again among its siblings. -/
lemma Keyed.here (h : (node a c s).Keyed key) : ∀ x ∈ s.labels, hasKey key (key a) x = false :=
  none_of_not_mem (keyed_node.1 h).2.1

/-- A key below the first node is met neither there nor among the siblings. -/
lemma Keyed.below (h : (node b c s).Keyed key) (ha : a ∈ c.labels) :
    ¬ hasKey key (key a) b ∧ ∀ x ∈ s.labels, hasKey key (key a) x = false := by
  obtain ⟨hbc, -, -, -, hcs⟩ := keyed_node.1 h
  have hmem := mem_map_of_mem (f := key) ha
  exact ⟨not_hasKey hbc hmem, none_of_not_mem (hcs _ hmem)⟩

/-- A key among the siblings is met neither in the first node nor below it. -/
lemma Keyed.beside (h : (node b c s).Keyed key) (ha : a ∈ s.labels) :
    ¬ hasKey key (key a) b ∧ ∀ x ∈ c.labels, hasKey key (key a) x = false := by
  obtain ⟨-, hbs, -, -, hcs⟩ := keyed_node.1 h
  have hmem := mem_map_of_mem (f := key) ha
  exact ⟨not_hasKey hbs hmem, none_of_not_mem fun hc => hcs _ hc hmem⟩

lemma find?_of_none (h : ∀ a ∈ f.labels, p a = false) : f.find? p = none := by
  rw [Option.eq_none_iff_forall_ne_some]
  rintro ⟨a, c⟩ hfind
  obtain ⟨hp, hn⟩ := find?_spec hfind
  exact absurd hp (by simp [h a (mem_labels_of_mem_nodes hn)])

/-- A node is found by its key. -/
lemma Keyed.find?_eq (h : f.Keyed key) (hn : (a, c) ∈ f.nodes) :
    f.find? (hasKey key (key a)) = some (a, c) := by
  induction f with
  | nil => simp [nodes] at hn
  | node b d s ihd ihs =>
    obtain ⟨-, -, hd, hs, -⟩ := keyed_node.1 h
    simp only [nodes, mem_cons, mem_append] at hn
    unfold find?
    rcases hn with ⟨rfl, rfl⟩ | hn | hn
    · rw [if_pos (hasKey_iff.2 rfl)]
    · rw [if_neg (h.below (mem_labels_of_mem_nodes hn)).1, ihd hd hn]
    · obtain ⟨hne, hrest⟩ := h.beside (mem_labels_of_mem_nodes hn)
      rw [if_neg hne, find?_of_none hrest]
      exact ihs hs hn

/-- One key, one node. -/
lemma Keyed.node_eq (h : f.Keyed key) (hn : (a, c) ∈ f.nodes) (hm : (b, d) ∈ f.nodes)
    (hkey : key a = key b) : (a, c) = (b, d) :=
  Option.some.inj ((h.find?_eq hn).symm.trans (hkey ▸ h.find?_eq hm))

lemma Keyed.setKids_self (h : f.Keyed key) (hn : (a, c) ∈ f.nodes) :
    f.setKids (hasKey key (key a)) c = f := by
  induction f with
  | nil => rfl
  | node b d s ihd ihs =>
    obtain ⟨-, -, hd, hs, -⟩ := keyed_node.1 h
    simp only [nodes, mem_cons, mem_append] at hn
    unfold setKids
    rcases hn with ⟨rfl, rfl⟩ | hn | hn
    · rw [if_pos (hasKey_iff.2 rfl), setKids_of_none h.here]
    · obtain ⟨hne, hrest⟩ := h.below (mem_labels_of_mem_nodes hn)
      rw [if_neg hne, ihd hd hn, setKids_of_none hrest]
    · obtain ⟨hne, hrest⟩ := h.beside (mem_labels_of_mem_nodes hn)
      rw [if_neg hne, ihs hs hn, setKids_of_none hrest]

/-- Cutting out of the new kids only. -/
lemma erase_setKids {q : α → Bool} (h : ∀ a ∈ f.labels, q a = false) :
    (f.setKids p kids).erase q = f.setKids p (kids.erase q) := by
  induction f with
  | nil => rfl
  | node a c s ihc ihs =>
    simp only [labels, mem_cons, mem_append, forall_eq_or_imp] at h
    simp only [setKids, erase, h.1, Bool.false_eq_true, if_false]
    rw [ihs fun a ha => h.2 a (.inr ha)]
    split_ifs
    · rfl
    · rw [ihc fun a ha => h.2 a (.inl ha)]

/-- Cutting out below a node is cutting out of the whole. -/
lemma Keyed.setKids_erase (h : f.Keyed key) (hn : (a, c) ∈ f.nodes) (hb : b ∈ c.labels) :
    f.setKids (hasKey key (key a)) (c.erase (hasKey key (key b))) = f.erase (hasKey key (key b)) := by
  induction f with
  | nil => rfl
  | node a' d s ihd ihs =>
    obtain ⟨-, -, hd, hs, -⟩ := keyed_node.1 h
    simp only [nodes, mem_cons, mem_append] at hn
    obtain ⟨x, hx⟩ := mem_labels_iff.1 hb
    rw [setKids_node, erase_node]
    -- the node is the first one, or below it, or among its siblings; the others keep what they have
    rcases hn with ⟨rfl, rfl⟩ | hn | hn
    · obtain ⟨hne, hrest⟩ := h.below hb
      rw [if_pos (hasKey_iff.2 rfl), setKids_of_none h.here, if_neg hne, erase_of_none hrest]
    · obtain ⟨hne, hrest⟩ := h.below (mem_labels_of_mem_nodes hn)
      obtain ⟨hne', hrest'⟩ := h.below (mem_labels_of_mem_nodes (nodes_trans hn hx))
      rw [if_neg hne, ihd hd hn, setKids_of_none hrest, if_neg hne', erase_of_none hrest']
    · obtain ⟨hne, hrest⟩ := h.beside (mem_labels_of_mem_nodes hn)
      obtain ⟨hne', hrest'⟩ := h.beside (mem_labels_of_mem_nodes (nodes_trans hn hx))
      rw [if_neg hne, ihs hs hn, setKids_of_none hrest, if_neg hne', erase_of_none hrest']

/-- One label more below a node is one label more in the whole. -/
lemma Keyed.labels_setKids {x : α} (h : f.Keyed key) (hn : (a, c) ∈ f.nodes)
    (hkids : kids.labels.Perm (x :: c.labels)) :
    (f.setKids (hasKey key (key a)) kids).labels.Perm (x :: f.labels) := by
  induction f with
  | nil => simp [nodes] at hn
  | node b d s ihd ihs =>
    obtain ⟨-, -, hd, hs, -⟩ := keyed_node.1 h
    simp only [nodes, mem_cons, mem_append] at hn
    unfold setKids
    rcases hn with ⟨rfl, rfl⟩ | hn | hn
    · rw [if_pos (hasKey_iff.2 rfl), setKids_of_none h.here]
      exact ((hkids.append_right _).cons _).trans (Perm.swap _ _ _)
    · obtain ⟨hne, hrest⟩ := h.below (mem_labels_of_mem_nodes hn)
      rw [if_neg hne, setKids_of_none hrest]
      exact (((ihd hd hn).append_right _).cons _).trans (Perm.swap _ _ _)
    · obtain ⟨hne, hrest⟩ := h.beside (mem_labels_of_mem_nodes hn)
      rw [if_neg hne, setKids_of_none hrest]
      exact (((ihs hs hn).append_left _).trans perm_middle |>.cons _).trans (Perm.swap _ _ _)

end Keys

end Forest
end PsxLinux.Lib
