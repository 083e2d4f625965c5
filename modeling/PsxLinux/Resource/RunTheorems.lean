import PsxLinux.Resource.TreeTheorems

/-!
# The resource tree over whole runs

Every call adds one leaf to the tree, cuts one node out, or leaves the tree as it is. Only leaves are
released, so a region that was handed out stays in the tree until it is released; and none of them is
below a busy resource, so that any two are disjoint.
-/

namespace PsxLinux.Resource

open Lib Forest List

/-- A tree: its rows are right, its resources are different, and only the top has no parent. -/
structure TreeInv (tree : Kids) : Prop where
  rows : TreeOk tree
  keyed : Keyed Res.id tree
  top : ∃ r c, tree = .node r c .nil ∧ r.parent = none

/-- What a run of proper calls keeps. -/
structure Inv (s : Sys) : Prop where
  tree : TreeInv s.tree
  clear : Clear (s.handed.map Res.id) s.tree
  below : ∀ id, s.below id = .nil
  handed : ∀ h ∈ s.handed, h.busy ∧ ∃ q, { h with parent := some q } ∈ s.tree.labels
  nodup : (s.handed.map Res.id).Nodup

variable {s s' : Sys} {es : List Event} {r res new : Res} {kids kids' : Kids}

lemma lookup_spec {tree : Kids} {id : Id} (h : lookup tree id = some (r, kids)) :
    r.id = id ∧ (r, kids) ∈ tree.nodes :=
  let ⟨hkey, hmem⟩ := find?_spec h
  ⟨hasKey_iff.1 hkey, hmem⟩

variable {q : Id}

section TreeInv
variable {tree : Kids}

lemma TreeInv.put (h : TreeInv tree) (hmem : (r, kids) ∈ tree.nodes)
    (hp : Placed r res kids kids') (hnew : res.id ∉ tree.labels.map Res.id) :
    TreeInv (putKids tree r.id kids') ∧
      ∃ q, (putKids tree r.id kids').labels.Perm ({ res with parent := some q } :: tree.labels) := by
  obtain ⟨q, hq⟩ := hp.labels
  have hperm := h.keyed.labels_setKids hmem hq
  refine ⟨⟨?_, ?_, ?_⟩, q, hperm⟩
  · intro n hn
    rcases mem_nodes_setKids hn with ⟨hkey, hkids, hlab⟩ | hn | ⟨c, hc, hkids⟩
    · have hr : n.1 = r := h.keyed.eq_of_key hlab (mem_labels_of_mem_nodes hmem) (hasKey_iff.1 hkey)
      rw [hr, hkids]
      exact hp.row
    · exact hp.tree n hn
    · rw [hkids, row_setKids]
      exact h.rows _ hc
  · unfold Keyed putKids
    rw [(hperm.map Res.id).nodup_iff, map_cons, nodup_cons]
    exact ⟨hnew, h.keyed⟩
  · obtain ⟨r₀, c, rfl, hr₀⟩ := h.top
    exact ⟨r₀, _, rfl, hr₀⟩

/-- A new resource stays clear of busy ones if the place it gets does. -/
lemma TreeInv.clear_put {ids : List Id} (h : TreeInv tree) (hclear : Clear ids tree)
    (hmem : (r, kids) ∈ tree.nodes) (hp : Placed r res kids kids')
    (hres : ∀ n ∈ tree.nodes, n.1.busy → r.id ∈ n.1.id :: n.2.labels.map Res.id →
      res.id ∉ ids) : Clear ids (putKids tree r.id kids') := by
  obtain ⟨q, hq⟩ := hp.labels
  intro n hn hb x hx
  rcases mem_nodes_setKids hn with ⟨hkey, hkids, hlab⟩ | hn | ⟨c, hc, hkids⟩
  · have hr : n.1 = r := h.keyed.eq_of_key hlab (mem_labels_of_mem_nodes hmem) (hasKey_iff.1 hkey)
    rw [hr] at hb
    rw [hkids] at hx
    rcases mem_cons.1 (hq.mem_iff.1 hx) with rfl | hx
    · exact hres _ hmem hb mem_cons_self
    · exact hclear _ hmem hb x hx
  · exact hp.clear ids (fun n hn => hclear n (nodes_trans hmem hn)) n hn hb x hx
  · rw [hkids] at hx
    by_cases hr : r.id ∈ c.labels.map Res.id
    · obtain ⟨r', hr', hid⟩ := mem_map.1 hr
      obtain ⟨k, hk⟩ := mem_labels_iff.1 hr'
      have hsame := h.keyed.node_eq (nodes_trans hc hk) hmem hid
      rw [hsame] at hk
      rcases mem_cons.1 (((h.keyed.of_mem_nodes hc).labels_setKids hk hq).mem_iff.1 hx) with rfl | hx
      · exact hres _ hc hb (mem_cons_of_mem _ hr)
      · exact hclear _ hc hb x hx
    · rw [setKids_of_none (none_of_not_mem hr)] at hx
      exact hclear _ hc hb x hx

lemma TreeInv.erase (h : TreeInv tree) (hr : r ∈ tree.labels) (hparent : r.parent = some q) :
    TreeInv (tree.erase (hasKey Res.id r.id)) := by
  refine ⟨?_, ?_, ?_⟩
  · intro n hn
    obtain ⟨-, c, hc, hkids⟩ := mem_nodes_erase hn
    rw [hkids, row_erase]
    exact (h.rows _ hc).filter _
  · exact h.keyed.sublist ((labels_erase_sublist _).map _)
  · obtain ⟨r₀, c, rfl, hr₀⟩ := h.top
    refine ⟨r₀, c.erase (hasKey Res.id r.id), ?_, hr₀⟩
    rw [erase_node, if_neg]
    · rfl
    · intro hkey
      have := h.keyed.eq_of_key (by simp [Forest.labels]) hr (hasKey_iff.1 hkey)
      rw [this, hparent] at hr₀
      cases hr₀

lemma Clear.erase {ids ids' : List Id} (h : Clear ids tree) (hsub : ids' ⊆ ids) (p : Res → Bool) :
    Clear ids' (tree.erase p) := by
  intro n hn hb x hx hid
  obtain ⟨-, c, hc, hkids⟩ := mem_nodes_erase hn
  rw [hkids] at hx
  exact h _ hc hb x ((labels_erase_sublist c).subset hx) (hsub hid)

/-- Every resource but the root hangs below the one its parent pointer names. -/
lemma TreeInv.exists_parent (h : TreeInv tree) (hr : r ∈ tree.labels)
    (hparent : r.parent = some q) :
    ∃ p kids, p.id = q ∧ (p, kids) ∈ tree.nodes ∧ r ∈ kids.row := by
  obtain ⟨r₀, c, htop, hr₀⟩ := h.top
  rcases mem_row_or_below hr with hrow | ⟨n, hn, hrow⟩
  · rw [htop] at hrow
    simp only [row, mem_cons, not_mem_nil, or_false] at hrow
    rw [hrow, hr₀] at hparent
    cases hparent
  · have := (h.rows n hn).parent r hrow
    rw [hparent] at this
    exact ⟨n.1, n.2, (Option.some.inj this).symm, hn, hrow⟩

lemma TreeInv.releaseResource (h : TreeInv tree) (hr : r ∈ tree.labels)
    (hparent : r.parent = some q) :
    releaseResource tree r.id = some (tree.erase (hasKey Res.id r.id), true) := by
  obtain ⟨c, hc⟩ := mem_labels_iff.1 hr
  obtain ⟨p, kids, rfl, hp, hrow⟩ := h.exists_parent hr hparent
  unfold Resource.releaseResource lookup
  rw [h.keyed.find?_eq hc]
  simp only [hparent, h.keyed.find?_eq hp, unlink_eq_erase (h.keyed.of_mem_nodes hp) hrow, putKids]
  rw [h.keyed.setKids_erase hp (mem_labels_of_mem_row hrow)]

lemma TreeInv.release_put (h : TreeInv tree) (hmem : (r, kids) ∈ tree.nodes)
    (hp : Placed r res kids kids') (hnew : res.id ∉ tree.labels.map Res.id) :
    Resource.releaseResource (putKids tree r.id kids') res.id = some (tree, true) := by
  obtain ⟨q, hq⟩ := hp.labels
  have hperm := h.keyed.labels_setKids hmem hq
  have hin : { res with parent := some q } ∈ (putKids tree r.id kids').labels :=
    hperm.mem_iff.2 mem_cons_self
  have hkids : res.id ∉ kids.labels.map Res.id := by
    intro hmem'
    apply hnew
    obtain ⟨x, hx, hid⟩ := mem_map.1 hmem'
    obtain ⟨d, hd⟩ := mem_labels_iff.1 hx
    exact mem_map.2 ⟨x, mem_labels_of_mem_nodes (nodes_trans hmem hd), hid⟩
  have hrel := (h.put hmem hp hnew).1.releaseResource hin rfl
  rw [putKids, erase_setKids (none_of_not_mem hnew), hp.erase hkids, h.keyed.setKids_self hmem] at hrel
  exact hrel

end TreeInv

/-! ## The calls -/

/-- Wherever `__request_resource` finds room for a resource without children, it has placed it. -/
lemma requestResource_placed (h : TreeInv s.tree) (hmem : (r, kids) ∈ s.tree.nodes)
    (hok : requestResource r kids res .nil = .ok kids') : Placed r res kids kids' := by
  unfold requestResource at hok
  split_ifs at hok with hout
  exact place_placed (h.rows _ hmem) (fun n hn => h.rows n (nodes_trans hmem hn))
    (not_outside (Bool.eq_false_of_not_eq_true hout)) (place_of_link hok)

lemma requestRegion_placed (h : TreeInv s.tree) (hmem : (r, kids) ∈ s.tree.nodes)
    (hok : requestRegion r kids res = some kids') : Placed r res kids kids' := by
  unfold requestRegion at hok
  split_ifs at hok with hout
  exact place_placed (h.rows _ hmem) (fun n hn => h.rows n (nodes_trans hmem hn))
    (not_outside (Bool.eq_false_of_not_eq_true hout)) hok

/-- What is handed out is in the tree. -/
lemma Inv.linked (h : Inv s) {id : Id} (hid : id ∈ s.handed.map Res.id) : Linked s id := by
  obtain ⟨x, hx, rfl⟩ := mem_map.1 hid
  obtain ⟨-, q, hq⟩ := h.handed x hx
  exact mem_map.2 ⟨_, hq, rfl⟩

lemma Inv.put (h : Inv s) (hmem : (r, kids) ∈ s.tree.nodes)
    (hp : Placed r res kids kids') (hnew : ¬ Linked s res.id) :
    Inv { s with tree := putKids s.tree r.id kids' } := by
  obtain ⟨htree, q, hperm⟩ := h.tree.put hmem hp hnew
  refine ⟨htree, ?_, h.below, fun x hx => ?_, h.nodup⟩
  · exact h.tree.clear_put h.clear hmem hp fun _ _ _ _ hid => hnew (h.linked hid)
  · obtain ⟨hxb, q', hq'⟩ := h.handed x hx
    exact ⟨hxb, q', hperm.mem_iff.2 (mem_cons_of_mem _ hq')⟩

variable {root : Id}

lemma Inv.request (h : Inv s) (hnew : ¬ Linked s res.id)
    (hstep : stepRequest s root res = some (s', es)) : Inv s' := by
  unfold stepRequest at hstep
  split at hstep
  · cases hstep
  · rename_i r kids hlook
    obtain ⟨rfl, hmem⟩ := lookup_spec hlook
    rw [h.below] at hstep
    split at hstep
    · rename_i kids' hok
      cases hstep
      exact h.put hmem (requestResource_placed h.tree hmem hok) hnew
    · cases hstep
      exact h

lemma Inv.cut (h : Inv s) (hmem : (r, .nil) ∈ s.tree.nodes) (hparent : r.parent = some q)
    (below : Id → Kids) (hbelow : ∀ id, below id = .nil) :
    Inv { tree := s.tree.erase (hasKey Res.id r.id), below := below,
          handed := s.handed.filter fun x => x.id ≠ r.id } := by
  have hr := mem_labels_of_mem_nodes hmem
  have hlabels : (s.tree.erase (hasKey Res.id r.id)).labels =
      s.tree.labels.filter fun a => !hasKey Res.id r.id a := by
    apply labels_erase_of_leaf
    intro n hn hkey
    exact congrArg Prod.snd (h.tree.keyed.node_eq hn hmem (hasKey_iff.1 hkey))
  refine ⟨h.tree.erase hr hparent, ?_, hbelow, fun x hx => ?_, ?_⟩
  · exact h.clear.erase (filter_sublist.map _).subset _
  · obtain ⟨hx, hne⟩ := mem_filter.1 hx
    obtain ⟨hxb, q', hq'⟩ := h.handed x hx
    refine ⟨hxb, q', ?_⟩
    rw [hlabels]
    refine mem_filter.2 ⟨hq', ?_⟩
    simpa [hasKey] using hne
  · exact h.nodup.sublist (filter_sublist.map _)

lemma kids_eq_nil (h : kids.row = []) : kids = .nil := by
  cases kids with
  | nil => rfl
  | node => simp [row] at h

lemma Inv.release (h : Inv s) {old : Id}
    (hproper : ∀ n ∈ s.tree.nodes, n.1.id = old → n.2.row = [])
    (hstep : stepRelease s old = some (s', es)) : Inv s' := by
  unfold stepRelease at hstep
  cases hlook : lookup s.tree old with
  | none => simp [hlook] at hstep
  | some n =>
    obtain ⟨r, c⟩ := n
    obtain ⟨rfl, hmem⟩ := lookup_spec hlook
    obtain rfl := kids_eq_nil (hproper _ hmem rfl)
    cases hparent : r.parent with
    | none => simp [hlook, releaseResource, hparent] at hstep
    | some q =>
      rw [hlook, h.tree.releaseResource (mem_labels_of_mem_nodes hmem) hparent] at hstep
      cases hstep
      apply h.cut hmem hparent
      intro id
      rcases eq_or_ne id r.id with rfl | hne
      · rw [Function.update_self]
      · rw [Function.update_of_ne hne, h.below]

variable {parent : Id}

lemma Inv.requestRegion (h : Inv s) (hfresh : Fresh s res.id) (hres : res.busy)
    (hproper : ∀ n ∈ s.tree.nodes, n.1.busy → parent ∉ n.1.id :: n.2.labels.map Res.id)
    (hstep : stepRequestRegion s parent res = some (s', es)) : Inv s' := by
  unfold stepRequestRegion at hstep
  split at hstep
  · cases hstep
  · rename_i r kids hlook
    obtain ⟨rfl, hmem⟩ := lookup_spec hlook
    split at hstep
    · rename_i kids' hok
      cases hstep
      have hp := requestRegion_placed h.tree hmem hok
      obtain ⟨htree, -, hbelow, hhanded, hnodup⟩ := h.put hmem hp hfresh.1
      obtain ⟨-, q, hperm⟩ := h.tree.put hmem hp hfresh.1
      refine ⟨htree, ?_, hbelow, ?_, ?_⟩
      · refine h.tree.clear_put ?_ hmem hp fun n hn hb hin => absurd hin (hproper n hn hb)
        intro n hn hb x hx hin
        rcases mem_cons.1 hin with hid | hid
        · obtain ⟨d, hd⟩ := mem_labels_iff.1 hx
          exact hfresh.1 (mem_map.2 ⟨x, mem_labels_of_mem_nodes (nodes_trans hn hd), hid⟩)
        · exact h.clear _ hn hb x hx hid
      · rintro x (_ | ⟨_, hx⟩)
        · exact ⟨hres, q, hperm.mem_iff.2 mem_cons_self⟩
        · exact hhanded x hx
      · exact nodup_cons.2 ⟨hfresh.2, hnodup⟩
    · cases hstep
      exact h

lemma TreeInv.parent_of_below {tree : Kids} (h : TreeInv tree) (hmem : (r, kids) ∈ tree.nodes)
    (hres : res ∈ kids.labels) : ∃ q, res.parent = some q := by
  rcases mem_row_or_below hres with hrow | ⟨n, hn, hrow⟩
  · exact ⟨_, (h.rows _ hmem).parent res hrow⟩
  · exact ⟨_, (h.rows _ (nodes_trans hmem hn)).parent res hrow⟩

lemma Inv.releaseRegion (h : Inv s) {start n : ℕ} (hproper : ∀ m ∈ s.tree.nodes,
      m.1.busy → m.1.start = word start → m.1.stop = lastOf (word start) (word n) →
        m.2.row = [])
    (hstep : stepReleaseRegion s parent start n = some (s', es)) : Inv s' := by
  unfold stepReleaseRegion at hstep
  split at hstep
  · cases hstep
  · rename_i r kids hlook
    obtain ⟨rfl, hmem⟩ := lookup_spec hlook
    split at hstep
    · rename_i freed kids' hok
      cases hstep
      obtain ⟨hfreed, ⟨hbusy, hfrom, hto⟩, rfl⟩ :=
        releaseRegion_spec (h.tree.keyed.of_mem_nodes hmem) hok
      obtain ⟨q, hparent⟩ := h.tree.parent_of_below hmem hfreed
      obtain ⟨c, hc⟩ := mem_labels_iff.1 hfreed
      have hnode := nodes_trans hmem hc
      obtain rfl : c = .nil := kids_eq_nil (hproper _ hnode hbusy hfrom hto)
      rw [putKids, h.tree.keyed.setKids_erase hmem hfreed]
      exact h.cut hnode hparent s.below h.below
    · cases hstep
      exact h

/-! ### Calls that only look -/

lemma Inv.check (h : Inv s) (hnew : ¬ Linked s res.id)
    (hstep : stepCheck s root res = some (s', es)) : s' = s := by
  unfold stepCheck at hstep
  split at hstep
  · cases hstep
  · rename_i r kids hlook
    obtain ⟨rfl, hmem⟩ := lookup_spec hlook
    split at hstep
    · exact (some_pair_inj hstep).1.symm
    · rename_i kids' hok
      rw [h.tree.release_put hmem (requestResource_placed h.tree hmem hok) hnew] at hstep
      exact (some_pair_inj hstep).1.symm

lemma Inv.checkRegion (h : Inv s) (hnew : ¬ Linked s res.id)
    (hstep : stepCheckRegion s parent res = some (s', es)) : s' = s := by
  unfold stepCheckRegion at hstep
  split at hstep
  · cases hstep
  · rename_i r kids hlook
    obtain ⟨rfl, hmem⟩ := lookup_spec hlook
    split at hstep
    · rename_i kids' hok
      rw [h.tree.release_put hmem (requestRegion_placed h.tree hmem hok) hnew] at hstep
      exact (some_pair_inj hstep).1.symm
    · exact (some_pair_inj hstep).1.symm

lemma Inv.checks (h : Inv s) {a : Act} (ha : a.Checks) (hstep : step s a = some (s', es)) :
    s' = s := by
  cases a with
  | check root start len tmp =>
    simp only [step, Option.ite_none_left_eq_some] at hstep
    exact h.check hstep.1 hstep.2
  | checkRegion parent start n mem =>
    cases mem with
    | none => exact (some_pair_inj hstep).1.symm
    | some id =>
      simp only [step, Option.ite_none_right_eq_some] at hstep
      exact h.checkRegion hstep.1.1 hstep.2
  | _ => cases ha

/-! ## Whole runs -/

lemma Inv.step {a : Act} (h : Inv s) (hok : a.Proper s)
    (hstep : step s a = some (s', es)) : Inv s' := by
  cases a with
  | request root new start stop busy =>
    simp only [Resource.step, Option.ite_none_left_eq_some] at hstep
    exact h.request hstep.1 hstep.2
  | allocate root new busy size min max align alignf =>
    simp only [Resource.step, Option.ite_none_left_eq_some] at hstep
    obtain ⟨hnew, hstep⟩ := hstep
    unfold stepAllocate at hstep
    split at hstep
    · cases hstep
    · split at hstep
      · exact h.request hnew hstep
      · cases hstep
        exact h
  | release old => exact h.release hok hstep
  | requestRegion parent start n mem =>
    cases mem with
    | none =>
      cases hstep
      exact h
    | some id =>
      simp only [Resource.step, Option.ite_none_right_eq_some] at hstep
      exact h.requestRegion hstep.1 rfl hok hstep.2
  | releaseRegion parent start n => exact h.releaseRegion hok hstep
  | check root start len tmp =>
    rw [h.checks (a := .check root start len tmp) trivial hstep]
    exact h
  | checkRegion parent start n mem =>
    rw [h.checks (a := .checkRegion parent start n mem) trivial hstep]
    exact h

lemma inv_initial (id : Id) (start stop : ℕ) (busy : Bool) : Inv (initial id start stop busy) := by
  refine ⟨⟨?_, ?_, ?_⟩, ?_, fun _ => rfl, by simp [initial], .nil⟩
  · exact treeOk_node.2 ⟨rowOk_nil, by simp [TreeOk, nodes], by simp [TreeOk, nodes]⟩
  · simp [Keyed, initial, Forest.labels]
  · exact ⟨_, _, rfl, rfl⟩
  · exact fun _ _ _ _ _ => not_mem_nil

/-- The regions that are handed out have no address in common. -/
lemma Inv.handed_disjoint (h : Inv s) : s.handed.Pairwise Disjoint := by
  obtain ⟨r, c, htop, hr⟩ := h.tree.top
  have hc : (r, c) ∈ s.tree.nodes := by simp [htop, nodes]
  have hbelow : ∀ x ∈ s.handed, ∃ q, { x with parent := some q } ∈ c.labels ∧ x.busy ∧
      x.id ∈ s.handed.map Res.id := by
    intro x hx
    obtain ⟨hbusy, q, hq⟩ := h.handed x hx
    refine ⟨q, ?_, hbusy, mem_map_of_mem hx⟩
    rw [htop] at hq
    simp only [Forest.labels, append_nil, mem_cons] at hq
    apply hq.resolve_left
    rintro rfl
    cases hr
  have hpair : s.handed.Pairwise fun a b => a.id ≠ b.id := pairwise_map.1 h.nodup
  refine hpair.imp_of_mem fun {a b} ha hb hne => ?_
  obtain ⟨qa, hqa⟩ := hbelow a ha
  obtain ⟨qb, hqb⟩ := hbelow b hb
  have hdisjoint : Disjoint { a with parent := some qa } { b with parent := some qb } :=
    busy_disjoint (h.tree.rows _ hc) (fun n hn => h.tree.rows n (nodes_trans hc hn))
      (fun n hn => h.clear n (nodes_trans hc hn)) hqa hqb hne
  exact hdisjoint

lemma stepRequest_failed (hstep : stepRequest s root res = some (s', es))
    (hfail : .failed ∈ es) : s' = s := by
  unfold stepRequest at hstep
  grind

lemma Inv.failed {a : Act} (h : Inv s) (hstep : Resource.step s a = some (s', es))
    (hfail : .failed ∈ es) : s' = s := by
  cases a with
  | request => grind [Resource.step, stepRequest_failed]
  | release => grind [Resource.step, stepRelease]
  | allocate => grind [Resource.step, stepAllocate, stepRequest_failed]
  | requestRegion parent start n mem => cases mem <;> grind [Resource.step, stepRequestRegion]
  | releaseRegion => grind [Resource.step, stepReleaseRegion]
  | check root start len tmp => exact h.checks (a := .check root start len tmp) trivial hstep
  | checkRegion parent start n mem =>
    exact h.checks (a := .checkRegion parent start n mem) trivial hstep

/-- **The resource tree.** In every run of calls that request no region in or below a busy resource
and release no resource with children: the children of each node are sorted, apart, not empty and inside
it, with their parent pointers on it; a failed call and every check leave the tree as it is; and the
regions handed out by `__request_region` and not released are pairwise disjoint. -/
theorem resource_tree (id : Id) (start stop : ℕ) (busy : Bool) (as : List Act)
    (hrun : Exec step (fun s a => a.Proper s) (initial id start stop busy) as es s) :
    (∀ n ∈ s.tree.nodes, n.2.row.Pairwise (fun a b => a.start < b.start ∧ Disjoint a b) ∧
      ∀ r ∈ n.2.row, r.start ≤ r.stop ∧ n.1.start ≤ r.start ∧ r.stop ≤ n.1.stop ∧
        r.parent = some n.1.id) ∧
    (∀ a s' es', step s a = some (s', es') → .failed ∈ es' ∨ a.Checks → s'.tree = s.tree) ∧
    s.handed.Pairwise Disjoint := by
  have h : Inv s := hrun.invariant_state (inv_initial id start stop busy)
    fun _ _ _ _ h hok hstep => h.step hok hstep
  refine ⟨fun n hn => ?_, fun a s' es' hstep hor => ?_, h.handed_disjoint⟩
  · obtain ⟨hapart, hin, hparent⟩ := h.tree.rows n hn
    refine ⟨hapart.imp_of_mem fun {a b} ha hb hab => ⟨?_, .inl hab⟩, fun r hr => ?_⟩
    · have := hin a ha
      omega
    · exact ⟨(hin r hr).1, (hin r hr).2.1, (hin r hr).2.2, hparent r hr⟩
  · rcases hor with hfail | hcheck
    · rw [h.failed hstep hfail]
    · rw [h.checks hcheck hstep]

instance (a b : Res) : Decidable (Disjoint a b) := inferInstanceAs (Decidable (_ ∨ _))

/-- A busy resource with one inside, as the boot sets them up, and two regions beside it. -/
theorem resource_tree_two_regions :
    ∃ as es s, Exec step (fun s a => Act.Proper s a) (initial 0 0 0xffff false) as es s ∧
      s.handed.map Res.id = [3, 2] ∧ s.handed.Pairwise Disjoint := by
  refine ⟨[.request 0 1 0 9 true, .request 1 4 0 3 false, .requestRegion 0 10 5 (some 2),
    .requestRegion 0 15 5 (some 3)], exists_comm.1
      (Exec.exists_of_decide (fun s _ => s.handed.map Res.id = [3, 2]) (by decide +kernel) fun s es hrun hend => ?_)⟩
  exact ⟨hend, (resource_tree 0 0 0xffff false _ hrun).2.2⟩

/-- `release_resource` takes a resource out of the tree together with a region that was handed out
below it. The next request for the same addresses finds them free. -/
theorem release_drops_region :
    ∃ as es s, Exec step anyStep (initial 0 0 0xffff false) as es s ∧
      ¬ s.handed.Pairwise Disjoint := by
  refine ⟨[.request 0 1 0 9 false, .requestRegion 0 0 5 (some 2), .release 1,
    .requestRegion 0 0 5 (some 3)], exists_comm.1 ?_⟩
  exact Exec.exists_of_decide _ (by decide +kernel) fun _ _ _ => id

/-- **Regions are released in any order.** In every run of proper calls, `__release_region` of the
root with the range of a region that is handed out takes that region, with what was requested below
it, out of the tree, and nothing else. -/
theorem region_released (id : Id) (start stop : ℕ) (busy : Bool) (as : List Act)
    (hrun : Exec step (fun s a => a.Proper s) (initial id start stop busy) as es s)
    {h : Res} (hh : h ∈ s.handed) {x n : ℕ} (hx : word x = h.start)
    (hn : lastOf (word x) (word n) = h.stop) :
    ∃ r c, s.tree = .node r c .nil ∧ step s (.releaseRegion r.id x n) =
      some ({ s with
        tree := .node r (c.erase (hasKey Res.id h.id)) .nil
        handed := s.handed.filter fun y => y.id ≠ h.id }, [.done]) := by
  have hinv : Inv s := hrun.invariant_state (inv_initial id start stop busy)
    fun _ _ _ _ h hok hstep => h.step hok hstep
  obtain ⟨r, c, htop, hr⟩ := hinv.tree.top
  obtain ⟨hbusy, q, hq⟩ := hinv.handed h hh
  obtain ⟨hrows, hkeyed, -⟩ := hinv.tree
  have hclear := hinv.clear
  rw [htop] at hq hrows hkeyed hclear
  obtain ⟨hrow, htree, -⟩ := treeOk_node.1 hrows
  -- the root has no parent, so the region is below it
  have hmem : { h with parent := some q } ∈ c.labels := by
    simp only [labels, append_nil, mem_cons] at hq
    refine hq.resolve_left fun heq => ?_
    rw [← heq] at hr
    cases hr
  obtain ⟨c', hc'⟩ := releaseRegion_of_busy hrow htree (clear_node.1 hclear).2.1 hmem hbusy
    (mem_map.2 ⟨h, hh, rfl⟩)
  obtain ⟨-, -, rfl⟩ := releaseRegion_spec (keyed_node.1 hkeyed).2.2.1 hc'
  refine ⟨r, c, htop, ?_⟩
  have hkey : hasKey Res.id r.id r := hasKey_iff.2 rfl
  simp only [Resource.step, stepReleaseRegion, lookup, putKids, htop, hx, hx ▸ hn]
  rw [hkeyed.find?_eq (a := r) (c := c) mem_cons_self]
  simp only [hc', setKids_node, hkey, if_true]
  rfl

/-- Of two regions the first is released first. -/
theorem region_released_first :
    ∃ s es, Exec step (fun s a => Act.Proper s a) (initial 0 0 0xffff false)
        [.requestRegion 0 0 5 (some 1), .requestRegion 0 5 5 (some 2)] es s ∧
      ∃ r c, s.tree = .node r c .nil ∧ (step s (.releaseRegion r.id 0 5)).isSome := by
  refine Exec.exists_of_decide (fun s _ => region 1 0 5 ∈ s.handed) (by decide +kernel)
    fun s es hrun hh => ?_
  obtain ⟨r, c, htop, hstep⟩ := region_released 0 0 0xffff false _ hrun hh (x := 0) (n := 5) rfl rfl
  exact ⟨r, c, htop, by rw [hstep]; rfl⟩

end PsxLinux.Resource
