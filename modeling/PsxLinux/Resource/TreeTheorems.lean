import PsxLinux.Resource.Tree

/-!
# The walks over the resource tree

`RowOk` is what the children of one node must satisfy, `TreeOk` asks it of every node. Each of the
walks is given by what it does to the forest of children: a successful request adds one node in its
place, and both releases cut one node out.
-/

namespace PsxLinux.Resource

open Lib Forest List

/-- The children of `p`: in order and apart, each inside `p` with its parent pointer on `p`. -/
structure RowOk (p : Res) (row : List Res) : Prop where
  apart : row.Pairwise fun a b => a.stop < b.start
  inside : ∀ r ∈ row, r.start ≤ r.stop ∧ p.start ≤ r.start ∧ r.stop ≤ p.stop
  parent : ∀ r ∈ row, r.parent = some p.id

def TreeOk (f : Kids) : Prop := ∀ n ∈ f.nodes, RowOk n.1 n.2.row

/-- None of the resources `ids` is below a busy one. -/
def Clear (ids : List Id) (f : Kids) : Prop :=
  ∀ n ∈ f.nodes, n.1.busy → ∀ x ∈ n.2.labels, x.id ∉ ids

variable {p r new res : Res} {f c s kids kids' child sibling : Kids} {root parent old : Id}
  {ids : List Id}

lemma rowOk_nil : RowOk p [] := ⟨.nil, nofun, nofun⟩

lemma rowOk_cons {row : List Res} : RowOk p (r :: row) ↔
    (∀ b ∈ row, r.stop < b.start) ∧ (r.start ≤ r.stop ∧ p.start ≤ r.start ∧ r.stop ≤ p.stop) ∧
      r.parent = some p.id ∧ RowOk p row := by
  constructor
  · rintro ⟨h₁, h₂, h₃⟩
    rw [pairwise_cons] at h₁
    exact ⟨h₁.1, h₂ r mem_cons_self, h₃ r mem_cons_self,
      ⟨h₁.2, fun b hb => h₂ b (mem_cons_of_mem _ hb), fun b hb => h₃ b (mem_cons_of_mem _ hb)⟩⟩
  · rintro ⟨h₁, h₂, h₃, h₄⟩
    refine ⟨pairwise_cons.2 ⟨h₁, h₄.apart⟩, ?_, ?_⟩
    · rintro b (_ | ⟨_, hb⟩)
      · exact h₂
      · exact h₄.inside b hb
    · rintro b (_ | ⟨_, hb⟩)
      · exact h₃
      · exact h₄.parent b hb

/-- A row stays in order when siblings leave. -/
lemma RowOk.filter {row : List Res} (h : RowOk p row) (q : Res → Bool) : RowOk p (row.filter q) :=
  ⟨h.apart.filter q, fun r hr => h.inside r (mem_filter.1 hr).1,
    fun r hr => h.parent r (mem_filter.1 hr).1⟩

lemma treeOk_node : TreeOk (.node r c s) ↔ RowOk r c.row ∧ TreeOk c ∧ TreeOk s := by
  simp only [TreeOk, nodes, mem_cons, mem_append, or_imp, forall_and, forall_eq]

lemma clear_node : Clear ids (.node r c s) ↔
    (r.busy → ∀ x ∈ c.labels, x.id ∉ ids) ∧ Clear ids c ∧ Clear ids s := by
  simp only [Clear, nodes, mem_cons, mem_append, or_imp, forall_and, forall_eq]

lemma not_outside (h : outside p r = false) :
    r.start ≤ r.stop ∧ p.start ≤ r.start ∧ r.stop ≤ p.stop := by
  simp only [outside, Bool.or_eq_false_iff, decide_eq_false_iff_not, not_lt] at h
  exact ⟨h.1.1, h.1.2, h.2⟩

/-! ## Requests -/

/-- Where `__request_resource` finds room, the loop of `__request_region` finds the same. -/
lemma place_of_link (h : link root new .nil kids = .ok kids') :
    place root new kids = some kids' := by
  induction kids generalizing kids' with
  | nil =>
    simp only [link, Except.ok.injEq] at h
    rw [place, h]
  | node tmp child sibling _ ih =>
    rw [link] at h
    rw [place]
    split_ifs at h ⊢ with h₁ h₂
    · rw [Except.ok.inj h]
    · split at h
      · rename_i sibling' hs
        rw [ih hs, ← Except.ok.inj h]
      · cases h

/-- The loop as the source has it: a conflict with a child that is not busy is resolved by a request
below that child. -/
lemma place_of_conflict (hk : Keyed Res.id kids) (h : link parent res .nil kids = .error r) :
    ∃ c, (r, c) ∈ kids.nodes ∧ place parent res kids =
      if r.busy then none else (requestRegion r c res).map (putKids kids r.id) := by
  induction kids with
  | nil => simp [link] at h
  | node tmp child sibling _ ih =>
    obtain ⟨htc, hts, -, hks, hcs⟩ := keyed_node.1 hk
    rw [link] at h
    rw [place]
    by_cases h₁ : tmp.start > res.stop
    · rw [if_pos h₁] at h
      cases h
    rw [if_neg h₁] at h ⊢
    by_cases h₂ : tmp.stop < res.start
    · rw [if_pos h₂] at h ⊢
      split at h
      · cases h
      · rename_i conflict hs
        obtain rfl := Except.error.inj h
        obtain ⟨c, hc, heq⟩ := ih hks hs
        have hmem := mem_map_of_mem (f := Res.id) (mem_labels_of_mem_nodes hc)
        refine ⟨c, by simp [nodes, hc], ?_⟩
        -- the replacement below a sibling leaves the first child
        have hput : ∀ x, putKids (.node tmp child sibling) conflict.id x =
            .node tmp child (putKids sibling conflict.id x) := by
          intro x
          unfold putKids
          rw [setKids_node, if_neg (not_hasKey hts hmem),
            setKids_of_none (none_of_not_mem fun hc' => hcs _ hc' hmem)]
        rw [heq]
        split_ifs
        · rfl
        · cases requestRegion conflict c res with
          | none => rfl
          | some x => simp [hput]
    · rw [if_neg h₂] at h ⊢
      obtain rfl := Except.error.inj h
      refine ⟨child, by simp [nodes], ?_⟩
      by_cases h₃ : tmp.busy
      · rw [if_pos h₃, if_pos h₃]
      rw [if_neg h₃, if_neg h₃, requestRegion]
      by_cases h₄ : outside tmp res
      · rw [if_pos h₄, if_pos h₄]
        rfl
      rw [if_neg h₄, if_neg h₄]
      cases place tmp.id res child with
      | none => rfl
      | some x =>
        simp only [Option.map_some, putKids, setKids_node, hasKey_iff.2, if_true]
        rw [setKids_of_none (none_of_not_mem hts)]

/-- A request that succeeds adds one node. -/
structure Placed (p res : Res) (kids kids' : Kids) : Prop where
  row : RowOk p kids'.row
  mem_row : ∀ r ∈ kids'.row, r ∈ kids.row ∨ r.start = res.start ∧ r.stop = res.stop
  tree : TreeOk kids'
  clear : ∀ ids, Clear ids kids → Clear ids kids'
  labels : ∃ q, kids'.labels.Perm ({ res with parent := some q } :: kids.labels)
  erase : res.id ∉ kids.labels.map Res.id → kids'.erase (hasKey Res.id res.id) = kids

section

variable (hrow : RowOk p kids.row) (htree : TreeOk kids)
  (hin : res.start ≤ res.stop ∧ p.start ≤ res.start ∧ res.stop ≤ p.stop)
include hrow htree hin

lemma Placed.front (hbefore : ∀ b ∈ kids.row, res.stop < b.start) :
    Placed p res kids (.node { res with parent := some p.id } .nil kids) := by
  constructor
  · exact rowOk_cons.2 ⟨hbefore, hin, rfl, hrow⟩
  · rintro r (_ | ⟨_, hr⟩)
    · exact .inr ⟨rfl, rfl⟩
    · exact .inl hr
  · exact treeOk_node.2 ⟨rowOk_nil, nofun, htree⟩
  · exact fun ids hclear => clear_node.2 ⟨nofun, nofun, hclear⟩
  · exact ⟨p.id, .refl _⟩
  · intro hnew
    have hkey : hasKey Res.id res.id { res with parent := some p.id } := hasKey_iff.2 rfl
    rw [erase_node, if_pos hkey, erase_of_none (none_of_not_mem hnew)]

/-- What the loop has placed is in order. -/
lemma place_placed (h : place p.id res kids = some kids') : Placed p res kids kids' := by
  induction kids generalizing p kids' with
  | nil =>
    cases h
    exact .front hrow htree hin nofun
  | node tmp child sibling ihc ihs =>
    obtain ⟨htmp, htin, htp, hrow'⟩ := rowOk_cons.1 hrow
    obtain ⟨hcrow, hctree, hstree⟩ := treeOk_node.1 htree
    rw [place] at h
    split_ifs at h with h₁ h₂ h₃ h₄
    · cases h
      apply Placed.front hrow htree hin
      rintro b (_ | ⟨_, hb⟩)
      · exact h₁
      · have := htmp b hb
        omega
    · -- further along the row
      split at h
      · rename_i sibling' hs
        cases h
        obtain ⟨h₁', h₂', h₃', h₄', ⟨q, h₅'⟩, h₆'⟩ := ihs hrow' hstree hin hs
        constructor
        · refine rowOk_cons.2 ⟨fun b hb => ?_, htin, htp, h₁'⟩
          rcases h₂' b hb with hb | ⟨hb, -⟩
          · exact htmp b hb
          · omega
        · rintro r (_ | ⟨_, hr⟩)
          · exact .inl mem_cons_self
          · exact (h₂' r hr).imp_left (mem_cons_of_mem _)
        · exact treeOk_node.2 ⟨hcrow, hctree, h₃'⟩
        · intro ids hclear
          obtain ⟨l₁, l₂, l₃⟩ := clear_node.1 hclear
          exact clear_node.2 ⟨l₁, l₂, h₄' ids l₃⟩
        · refine ⟨q, ?_⟩
          exact (((h₅'.append_left _).trans perm_middle).cons _).trans (.swap _ _ _)
        · intro hnew
          simp only [labels, map_cons, map_append, mem_cons, mem_append, not_or] at hnew
          rw [erase_node, if_neg (fun hk => hnew.1 (hasKey_iff.1 hk).symm),
            erase_of_none (none_of_not_mem hnew.2.1), h₆' hnew.2.2]
      · cases h
    · -- below the child in conflict
      split at h
      · rename_i child' hc
        cases h
        obtain ⟨h₁', -, h₃', h₄', ⟨q, h₅'⟩, h₆'⟩ :=
          ihc hcrow hctree (not_outside (Bool.eq_false_of_not_eq_true h₄)) hc
        constructor
        · exact hrow
        · exact fun r hr => .inl hr
        · exact treeOk_node.2 ⟨h₁', h₃', hstree⟩
        · intro ids hclear
          obtain ⟨-, l₂, l₃⟩ := clear_node.1 hclear
          exact clear_node.2 ⟨fun hb => absurd hb h₃, h₄' ids l₂, l₃⟩
        · refine ⟨q, ?_⟩
          exact ((h₅'.append_right _).cons _).trans (.swap _ _ _)
        · intro hnew
          simp only [labels, map_cons, map_append, mem_cons, mem_append, not_or] at hnew
          rw [erase_node, if_neg (fun hk => hnew.1 (hasKey_iff.1 hk).symm), h₆' hnew.2.1,
            erase_of_none (none_of_not_mem hnew.2.2)]
      · cases h

end

/-! ## Releases -/

/-- Unlinking a child is erasing its identifier. -/
lemma unlink_eq_erase (hk : Keyed Res.id kids) (h : r ∈ kids.row) :
    unlink r.id kids = some (kids.erase (hasKey Res.id r.id)) := by
  induction kids with
  | nil => simp [row] at h
  | node tmp child sibling _ ih =>
    obtain ⟨htc, hts, -, hks, hcs⟩ := keyed_node.1 hk
    rw [unlink, erase_node]
    rcases mem_cons.1 h with rfl | h
    · rw [if_pos rfl, if_pos (hasKey_iff.2 rfl), erase_of_none (none_of_not_mem hts)]
    · have hmem := mem_map_of_mem (f := Res.id) (mem_labels_of_mem_row h)
      rw [if_neg (fun heq : tmp.id = r.id => hts (heq ▸ hmem)), if_neg (not_hasKey hts hmem), ih hks h,
        erase_of_none (none_of_not_mem fun hc => hcs _ hc hmem)]

/-- The region that is released is busy and has the range asked for. -/
lemma releaseRegion_spec {start stop : ℕ} (hk : Keyed Res.id kids)
    (h : releaseRegion start stop kids = some (r, kids')) :
    r ∈ kids.labels ∧ (r.busy ∧ r.start = start ∧ r.stop = stop) ∧
      kids' = kids.erase (hasKey Res.id r.id) := by
  induction kids generalizing kids' with
  | nil => simp [releaseRegion] at h
  | node tmp child sibling ihc ihs =>
    obtain ⟨htc, hts, hkc, hks, hcs⟩ := keyed_node.1 hk
    rw [releaseRegion] at h
    simp only [labels, mem_cons, mem_append]
    split_ifs at h with h₁ h₂ h₃
    · split at h
      · rename_i freed child' hc
        cases h
        obtain ⟨hmem, hbusy, rfl⟩ := ihc hkc hc
        have hid := mem_map_of_mem (f := Res.id) hmem
        rw [erase_node, if_neg (not_hasKey htc hid), erase_of_none (none_of_not_mem (hcs _ hid))]
        exact ⟨.inr (.inl hmem), hbusy, rfl⟩
      · cases h
    · cases h
      rw [erase_node, if_pos (hasKey_iff.2 rfl), erase_of_none (none_of_not_mem hts)]
      exact ⟨.inl rfl, ⟨by simpa using h₂, by simpa using h₃⟩, rfl⟩
    · split at h
      · rename_i freed sibling' hs
        cases h
        obtain ⟨hmem, hbusy, rfl⟩ := ihs hks hs
        have hid := mem_map_of_mem (f := Res.id) hmem
        rw [erase_node, if_neg (not_hasKey hts hid),
          erase_of_none (none_of_not_mem fun hc => hcs _ hc hid)]
        exact ⟨.inr (.inr hmem), hbusy, rfl⟩
      · cases h

/-! ## Disjointness -/

/-- All that is below a resource lies inside of it. -/
lemma labels_inside (hrow : RowOk p f.row) (htree : TreeOk f) (h : r ∈ f.labels) :
    r.start ≤ r.stop ∧ p.start ≤ r.start ∧ r.stop ≤ p.stop := by
  induction f generalizing p with
  | nil => simp [labels] at h
  | node a c s ihc ihs =>
    obtain ⟨-, hin, -, hrow'⟩ := rowOk_cons.1 hrow
    obtain ⟨hcrow, hctree, hstree⟩ := treeOk_node.1 htree
    simp only [labels, mem_cons, mem_append] at h
    rcases h with rfl | h | h
    · exact hin
    · have := ihc hcrow hctree h
      omega
    · exact ihs hrow' hstree h

lemma labels_after {x : ℕ} (hrow : RowOk p f.row) (htree : TreeOk f)
    (hafter : ∀ b ∈ f.row, x < b.start) (h : r ∈ f.labels) : x < r.start := by
  induction f generalizing p with
  | nil => simp [labels] at h
  | node a c s ihc ihs =>
    obtain ⟨-, hin, -, hrow'⟩ := rowOk_cons.1 hrow
    obtain ⟨hcrow, hctree, hstree⟩ := treeOk_node.1 htree
    simp only [labels, mem_cons, mem_append] at h
    have ha := hafter a mem_cons_self
    rcases h with rfl | h | h
    · exact ha
    · have := labels_inside hcrow hctree h
      omega
    · exact ihs hrow' hstree (fun b hb => hafter b (mem_cons_of_mem _ hb)) h

/-- The walk finds a busy resource by its range: the resources around it are not busy, and those
before it end before it begins. -/
lemma releaseRegion_of_busy (hrow : RowOk p f.row) (htree : TreeOk f) (hclear : Clear ids f)
    (hr : r ∈ f.labels) (hbusy : r.busy) (hid : r.id ∈ ids) :
    ∃ f', releaseRegion r.start r.stop f = some (r, f') := by
  induction f generalizing p with
  | nil => simp [labels] at hr
  | node a c s ihc ihs =>
    obtain ⟨hbefore, -, -, hrow'⟩ := rowOk_cons.1 hrow
    obtain ⟨hcrow, hctree, hstree⟩ := treeOk_node.1 htree
    obtain ⟨hbelow, hcclear, hsclear⟩ := clear_node.1 hclear
    simp only [labels, mem_cons, mem_append] at hr
    rw [releaseRegion]
    rcases hr with rfl | hr | hr
    · simp [hbusy]
    · have ha : ¬ a.busy := fun hb => hbelow hb r hr hid
      obtain ⟨c', hc'⟩ := ihc hcrow hctree hcclear hr
      have hin := labels_inside hcrow hctree hr
      simp [ha, hc', hin]
    · obtain ⟨s', hs'⟩ := ihs hrow' hstree hsclear hr
      have hafter := labels_after hrow' hstree hbefore hr
      have hin := labels_inside hrow' hstree hr
      rw [if_neg (by omega), hs']
      exact ⟨_, rfl⟩

variable {s s' : Sys} {es : List Event}

def Disjoint (a b : Res) : Prop := a.stop < b.start ∨ b.stop < a.start

lemma Disjoint.symm {a b : Res} (h : Disjoint a b) : Disjoint b a := Or.symm h

/-- Two busy resources that are not below busy ones have no address in common. -/
lemma busy_disjoint {a b : Res} (hrow : RowOk p f.row) (htree : TreeOk f) (hclear : Clear ids f)
    (ha : a ∈ f.labels ∧ a.busy ∧ a.id ∈ ids)
    (hb : b ∈ f.labels ∧ b.busy ∧ b.id ∈ ids) (hne : a.id ≠ b.id) : Disjoint a b := by
  obtain ⟨ha, hab, hai⟩ := ha
  obtain ⟨hb, hbb, hbi⟩ := hb
  induction f generalizing p with
  | nil => simp [labels] at ha
  | node r c s ihc ihs =>
    obtain ⟨hbefore, -, -, hrow'⟩ := rowOk_cons.1 hrow
    obtain ⟨hcrow, hctree, hstree⟩ := treeOk_node.1 htree
    obtain ⟨hbelow, hcclear, hsclear⟩ := clear_node.1 hclear
    simp only [labels, mem_cons, mem_append] at ha hb
    -- the first node and what is below it end before the siblings begin
    have hsplit : ∀ x y, x = r ∨ x ∈ c.labels → y ∈ s.labels → Disjoint x y := by
      intro x y hx hy
      have hy' := labels_after hrow' hstree hbefore hy
      rcases hx with rfl | hx
      · exact .inl hy'
      · have := labels_inside hcrow hctree hx
        exact .inl (by omega)
    rcases ha with rfl | ha | ha <;> rcases hb with rfl | hb | hb
    · exact absurd rfl hne
    · exact absurd hbi (hbelow hab b hb)
    · exact hsplit _ _ (.inl rfl) hb
    · exact absurd hai (hbelow hbb a ha)
    · exact ihc hcrow hctree hcclear ha hb
    · exact hsplit _ _ (.inr ha) hb
    · exact (hsplit _ _ (.inl rfl) ha).symm
    · exact (hsplit _ _ (.inr hb) ha).symm
    · exact ihs hrow' hstree hsclear ha hb

end PsxLinux.Resource
