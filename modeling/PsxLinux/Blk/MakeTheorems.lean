import PsxLinux.Blk.QueueTheorems

/-!
# A pass of `__make_request` and the end of a buffer

The queue is `gs ++ gc`, where `gs` is what lies in front of `head` and `gc` are the candidates. A pass
leaves `gs` as it is and brings its buffer into `gc`: at one end of a request there, which is then
perhaps fused with a neighbour, or as a request of its own.
-/

namespace PsxLinux.Blk

open Lib Function List
open Lib.TailQueue (Chain)

variable {C : Config} {cmdOf : Nat → Option Cmd} {R : Io → Prop}
variable {s t : Queue} {g g₁ g₂ gs gc : List (Nat × List Nat)} {l m pend held : List Nat} {r n b : Nat}
  {cmd : Cmd}

/-- How the candidates may change when a buffer is brought in. -/
def Takes (b : Nat) (gc gc' : List (Nat × List Nat)) : Prop :=
  (gc'.flatMap Prod.snd).Perm (b :: gc.flatMap Prod.snd)

def SameCalls (s t : Queue) : Prop := t.calls = s.calls ∧ t.plugged = s.plugged

lemma sameCalls_release : SameCalls s (s.blkdevReleaseRequest r) := by
  unfold Queue.blkdevReleaseRequest
  split
  · exact ⟨rfl, rfl⟩
  · exact ⟨rfl, rfl⟩

lemma SameCalls.trans {u : Queue} (h : SameCalls s t) (h' : SameCalls t u) : SameCalls s u :=
  ⟨h'.1.trans h.1, h'.2.trans h.2⟩

/-- The buffer is brought into the candidates. -/
def Brings (C : Config) (cmdOf : Nat → Option Cmd) (R : Io → Prop) (s t : Queue) (b : Nat)
    (gs gc : List (Nat × List Nat)) (pend held : List Nat) : Prop :=
  ∃ gc', Inv C cmdOf R t (gs ++ gc') pend held ∧ Takes b gc gc' ∧ Keeps s t gs ∧ SameCalls s t

/-! ### Merging -/

variable {maxSectors : Nat}

/-- The candidates are perhaps fused. -/
def Merges (C : Config) (cmdOf : Nat → Option Cmd) (R : Io → Prop) (s t : Queue)
    (gs gc : List (Nat × List Nat)) (pend held : List Nat) : Prop :=
  ∃ gc', Inv C cmdOf R t (gs ++ gc') pend held ∧ gc'.flatMap Prod.snd = gc.flatMap Prod.snd ∧
    Keeps s t gs ∧ SameCalls s t

lemma Inv.merges (h : Inv C cmdOf R s (gs ++ gc) pend held) :
    Merges C cmdOf R s s gs gc pend held :=
  ⟨gc, h, rfl, Keeps.refl _ _, rfl, rfl⟩

lemma Merges.append (h : Merges C cmdOf R s t (gs ++ g₁) gc pend held) :
    Merges C cmdOf R s t gs (g₁ ++ gc) pend held := by
  obtain ⟨gc', hinv, hflat, hkeeps, hcalls⟩ := h
  rw [append_assoc] at hinv
  refine ⟨_, hinv, ?_, hkeeps.mono fun q hq => mem_append_left _ hq, hcalls⟩
  rw [flatMap_append, flatMap_append, hflat]

/-- **`attempt_merge`** fuses the two requests or leaves them. -/
theorem Inv.attemptMerge (h : Inv C cmdOf R s (g₁ ++ (r, l) :: (n, m) :: g₂) pend held)
    (hmax : (s.reqs r).rqDev = (s.reqs n).rqDev → maxSectors = C.maxSectors (s.reqs r).rqDev) :
    Merges C cmdOf R s (s.attemptMerge r n maxSectors) g₁ ((r, l) :: (n, m) :: g₂) pend held := by
  unfold Queue.attemptMerge
  split_ifs with hsector hcond
  · exact h.merges
  · exact h.merges
  · split
    · exact h.merges
    · next t ht =>
      -- the number of segments of the first request is set
      unfold Queue.llMergeRequestsFn at ht
      split_ifs at ht with htotal
      cases ht
      generalize s.totalSegments r n = k
      have hmod := h.modify (f := fun q => { q with nrSegments := k }) (fun _ => rfl) (fun _ => rfl) r
      have hrr : (s.modify r fun q => { q with nrSegments := k }).reqs r =
          { s.reqs r with nrSegments := k } := update_self ..
      have hnr : n ≠ r := h.ne_of_mem (n, m) (by simp)
      have hrn : (s.modify r fun q => { q with nrSegments := k }).reqs n = s.reqs n :=
        update_of_ne hnr _ _
      simp only [not_or, not_not, Nat.not_lt] at hcond hsector
      obtain ⟨hfuse, hkeeps⟩ := hmod.fuse (by rw [hrr, hrn]; exact hsector)
        (by rw [hrr, hrn]; exact hcond.1) (by rw [hrr, hrn]; exact hcond.2.1)
        (by rw [hrr, hrn, ← hmax hcond.2.1]; exact hcond.2.2)
      have hfront : Keeps s (s.modify r fun q => { q with nrSegments := k }) g₁ :=
        keeps_modify fun p hp => h.ne_of_mem p (mem_append_left _ hp)
      refine ⟨_, hfuse, by simp, hfront.trans (hkeeps.mono fun p hp => mem_append_left _ hp), ?_⟩
      exact SameCalls.trans ⟨rfl, rfl⟩ (sameCalls_release)

/-- What the walk of `elevator_linus_merge` finds. -/
structure MergeOk (s : Queue) (io : Io) (cmd : Cmd) (maxSectors : Nat) (k : Merge) : Prop where
  cmd : (s.reqs k.req).cmd = cmd
  bound : (s.reqs k.req).nrSectors + io.count ≤ maxSectors
  dev : (s.reqs k.req).rqDev = io.rdev
  sector : if k.front then (s.reqs k.req).sector - BitVec.ofNat 32 io.count = io.rsector
    else (s.reqs k.req).sector + BitVec.ofNat 32 (s.reqs k.req).nrSectors = io.rsector

lemma MergeOk.congr {io : Io} {k : Merge} (h : MergeOk s io cmd maxSectors k)
    (hcore : (t.reqs k.req).core = (s.reqs k.req).core) : MergeOk t io cmd maxSectors k := by
  simp only [Request.core, Request.mk.injEq, true_and] at hcore
  obtain ⟨hdev, hcmd, hsector, hnr, -⟩ := hcore
  exact ⟨by rw [hcmd, h.cmd], by rw [hnr]; exact h.bound, by rw [hdev, h.dev],
    by rw [hnr, hsector]; exact h.sector⟩

lemma mergeWalk_spec {io : Io} {rs passed : List Nat} {k : Merge}
    (h : s.mergeWalk io cmd maxSectors rs passed = some k) :
    rs.reverse ++ passed = k.before.reverse ++ k.req :: k.passed ∧ MergeOk s io cmd maxSectors k := by
  induction rs generalizing passed with
  | nil => cases h
  | cons r rest ih =>
    have hstep : s.mergeWalk io cmd maxSectors rest (r :: passed) = some k →
        (r :: rest).reverse ++ passed = k.before.reverse ++ k.req :: k.passed ∧
          MergeOk s io cmd maxSectors k := by
      intro hrest
      obtain ⟨hsplit, hok⟩ := ih hrest
      exact ⟨by rw [← hsplit]; simp, hok⟩
    rw [Queue.mergeWalk] at h
    split_ifs at h with hskip hback hseq hfront
    · exact hstep h
    · cases h
      simp only [not_or, not_not, Nat.not_lt] at hskip
      exact ⟨by simp, hskip.1, hskip.2.1, hskip.2.2, hback⟩
    · cases h
      simp only [not_or, not_not, Nat.not_lt] at hskip
      exact ⟨by simp, hskip.1, hskip.2.1, hskip.2.2, hfront⟩
    · exact hstep h

/-- The segments of a request are counted, or the merge is refused. -/
lemma Inv.newSegment (h : Inv C cmdOf R s (g₁ ++ (r, l) :: g₂) pend held) {p : Bool}
    (ht : (if p then some s else s.llNewSegment r) = some t) :
    Inv C cmdOf R t (g₁ ++ (r, l) :: g₂) pend held ∧ Keeps s t (g₁ ++ g₂) ∧ t.bhs = s.bhs ∧
      SameCalls s t ∧ (t.reqs r).core = (s.reqs r).core := by
  unfold Queue.llNewSegment at ht
  split_ifs at ht with hp hseg
  · cases ht
    exact ⟨h, Keeps.refl _ _, rfl, ⟨rfl, rfl⟩, rfl⟩
  · cases ht
    refine ⟨h.modify (f := fun q => { q with nrSegments := q.nrSegments + 1 }) (fun _ => rfl)
      (fun _ => rfl) r, keeps_modify h.ne_of_mem, rfl, ⟨rfl, rfl⟩, ?_⟩
    simp [Queue.modify, Request.core]

/-- The end of a front merge: the request in front, unless it is the head. -/
lemma Inv.attemptFront (h : Inv C cmdOf R s (gs ++ g₁ ++ (r, l) :: g₂) pend held)
    {before : List Nat} (hbefore : g₁.map Prod.fst = before.reverse)
    (hmax : maxSectors = C.maxSectors (s.reqs r).rqDev) :
    Merges C cmdOf R s (s.attemptFrontMerge before r maxSectors) gs (g₁ ++ (r, l) :: g₂) pend
      held := by
  cases before with
  | nil => exact h.merges.append
  | cons p before =>
    -- the request in front is the last of those between the head and this one
    rw [reverse_cons] at hbefore
    obtain ⟨ga, gp, rfl, -, hgp⟩ := map_eq_append_iff.1 hbefore
    obtain ⟨⟨p', lp⟩, rest, rfl, hp, hrest⟩ := map_eq_cons_iff.1 hgp
    rw [map_eq_nil_iff] at hrest
    subst hrest
    subst hp
    have hassoc : gs ++ (ga ++ [(p', lp)]) ++ (r, l) :: g₂ =
        (gs ++ ga) ++ (p', lp) :: (r, l) :: g₂ := by simp
    rw [hassoc] at h
    rw [append_assoc ga]
    exact (h.attemptMerge fun hdev => by rw [hdev, hmax]).append

/-- The end of a back merge: the request behind, if there is one. -/
lemma Inv.attemptBack (h : Inv C cmdOf R s (gs ++ g₁ ++ (r, l) :: g₂) pend held)
    {passed : List Nat} (hpassed : g₂.map Prod.fst = passed)
    (hmax : maxSectors = C.maxSectors (s.reqs r).rqDev) :
    Merges C cmdOf R s (s.attemptBackMerge r passed maxSectors) gs (g₁ ++ (r, l) :: g₂) pend
      held := by
  subst hpassed
  cases g₂ with
  | nil => exact h.merges.append
  | cons p g₂ => exact (h.attemptMerge fun _ => hmax).append

/-- **A merge** brings the buffer into the request that was found. -/
theorem Inv.mergeInto {k : Merge} (h : Inv C cmdOf R s (gs ++ gc) (b :: pend) held)
    (hcmd : cmdOf b = some cmd) (hgc : gc.map Prod.fst = k.before.reverse ++ k.req :: k.passed)
    (hk : MergeOk s (s.io b) cmd (C.maxSectors (s.io b).rdev) k)
    (ht : s.mergeInto b k (C.maxSectors (s.io b).rdev) = some t) :
    Brings C cmdOf R s t b gs gc pend held := by
  -- the request found, with its chain
  obtain ⟨ga, gb, rfl, hga, hgb⟩ := map_eq_append_iff.1 hgc
  obtain ⟨⟨r, l⟩, g₂, rfl, hreq, hg₂⟩ := map_eq_cons_iff.1 hgb
  subst hreq
  rw [← append_assoc] at h
  have hgs : ∀ p ∈ gs, p ∈ gs ++ ga ++ g₂ := fun p hp => by simp [hp]
  -- its segments are counted first
  obtain ⟨p, u, hu, rfl⟩ : ∃ (p : Bool) (u : Queue),
      (if p then some s else s.llNewSegment k.req) = some u ∧
      (if k.front then
        (u.pushFront k.req b).attemptFrontMerge k.before k.req (C.maxSectors (s.io b).rdev)
      else (u.pushBack k.req b).attemptBackMerge k.req k.passed (C.maxSectors (s.io b).rdev)) = t := by
    unfold Queue.mergeInto at ht
    split_ifs at ht ⊢
    all_goals
      obtain ⟨u, hu, rfl⟩ := Option.map_eq_some_iff.1 ht
      exact ⟨_, u, hu, rfl⟩
  obtain ⟨hinv, hkeeps, hbhs, hcalls, hcore⟩ := h.newSegment hu
  have hio : u.io = s.io := funext fun c => by rw [Queue.io, hbhs]; rfl
  have hku := hk.congr hcore
  rw [← hio] at hku ⊢
  have hsector := hku.sector
  split_ifs at hsector ⊢
  · obtain ⟨hpush, hkeepsPush⟩ :=
      hinv.pushFront (by rw [hcmd, hku.cmd]) hku.dev hsector hku.bound
    have hdev' : ((u.pushFront k.req b).reqs k.req).rqDev = (u.io b).rdev := by
      rw [← hku.dev]
      simp [Queue.pushFront, Queue.modify, Queue.setReqnext]
    obtain ⟨gc', hend, hflat, hkeepsEnd, hcallsEnd⟩ := hpush.attemptFront hga (by rw [hdev'])
    refine ⟨gc', hend, ?_, ((hkeeps.mono hgs).trans (hkeepsPush.mono hgs)).trans hkeepsEnd, ?_⟩
    · rw [Takes, hflat]
      simp
    · exact (SameCalls.trans hcalls ⟨rfl, rfl⟩).trans hcallsEnd
  · obtain ⟨hpush, hkeepsPush⟩ :=
      hinv.pushBack (by rw [hcmd, hku.cmd]) hku.dev hsector hku.bound
    have hdev' : ((u.pushBack k.req b).reqs k.req).rqDev = (u.io b).rdev := by
      rw [← hku.dev]
      simp [Queue.pushBack, Queue.modify, Queue.setReqnext]
    obtain ⟨gc', hend, hflat, hkeepsEnd, hcallsEnd⟩ := hpush.attemptBack hg₂ (by rw [hdev'])
    refine ⟨gc', hend, ?_, ((hkeeps.mono hgs).trans (hkeepsPush.mono hgs)).trans hkeepsEnd, ?_⟩
    · rw [Takes, hflat]
      simp only [flatMap_append, flatMap_cons, append_assoc, singleton_append]
      rw [← append_assoc, ← append_assoc]
      exact perm_middle
    · exact (SameCalls.trans hcalls ⟨rfl, rfl⟩).trans hcallsEnd

/-! ### A new request -/

lemma elevatorWalk_append (q : Request) (rs : List Nat) :
    (s.elevatorWalk q rs).1 ++ (s.elevatorWalk q rs).2 = rs := by
  induction rs with
  | nil => rfl
  | cons r rest ih =>
    rw [Queue.elevatorWalk]
    split_ifs with hstop
    · rfl
    · rw [cons_append, ih]

/-- **A request enters the queue** with one buffer. -/
theorem Inv.insert (h : Inv C cmdOf R s (g₁ ++ g₂) (b :: pend) (r :: held))
    (hok : ReqOk C cmdOf t r [b]) (hcore : ∀ n, n ≠ r → (t.reqs n).core = (s.reqs n).core)
    (hfree : ∀ n, (t.reqs n).freeList = (s.reqs n).freeList) (hbhs : t.bhs = s.bhs)
    (hlists : t.freelist = s.freelist)
    (hqueue : t.queue = g₁.map Prod.fst ++ r :: g₂.map Prod.fst) :
    Inv C cmdOf R t (g₁ ++ (r, [b]) :: g₂) pend held := by
  have hne : ∀ p ∈ g₁ ++ g₂, p.1 ≠ r := by
    have hnodup := h.nodup
    rw [nodup_middle, nodup_cons] at hnodup
    intro p hp heq
    have hmem := mem_map_of_mem (f := Prod.fst) hp
    rw [heq] at hmem
    exact hnodup.1 (mem_append_left _ hmem)
  refine h.rearrange (by rw [hqueue]; simp) ?_ ?_ ?_ ?_ hfree ?_ (fun c => by rw [hbhs]) hlists
  · exact reqs_middle h.reqs (fun p hp => hcore _ (hne p hp)) (fun _ _ _ _ => by rw [hbhs]) hok
  · simp only [flatMap_append, append_assoc]
    exact Perm.append_left _ perm_middle.symm
  · intro c hc
    refine ⟨fun hmem => hc ?_, by rw [Queue.next, hbhs]; rfl⟩
    simp only [flatMap_append, mem_append] at hmem ⊢
    tauto
  · rw [hqueue, h.queue, map_append, append_assoc, append_assoc]
    exact Perm.append_left _ perm_middle.symm
  · exact funext fun c => by rw [Queue.io, hbhs]; rfl

/-- A new request for the buffer, at the place that the elevator chooses. -/
lemma Inv.fillRequest (h : Inv C cmdOf R s (gs ++ gc) (b :: pend) (r :: held))
    (hcmd : cmdOf b = some cmd) (hgs : gs.map Prod.fst = s.skipped)
    (hgc : gc.map Prod.fst = s.candidates) (hR : ∀ io, R io → io.count ≤ C.maxSectors io.rdev) :
    Brings C cmdOf R s (s.fillRequest C r b cmd) b gs gc pend held := by
  let q : Request := { s.reqs r with
    elevatorSequence := C.latency cmd
    cmd := cmd
    hardSector := (s.bhs b).io.rsector
    sector := (s.bhs b).io.rsector
    hardNrSectors := (s.bhs b).io.count
    nrSectors := (s.bhs b).io.count
    currentNrSectors := (s.bhs b).io.count
    nrSegments := 1
    bh := some b
    bhtail := b
    rqDev := (s.bhs b).io.rdev
    e := true }
  let u : Queue := { s with reqs := update s.reqs r q }
  let w := u.elevatorWalk q s.candidates.reverse
  have hfill : s.fillRequest C r b cmd =
      { u.passOver w.1 with queue := s.skipped ++ w.2.reverse ++ r :: w.1.reverse } := by
    unfold Queue.fillRequest Queue.elevatorLinus Queue.modify
    simp only [update_self, update_idem]
    rfl
  -- where the candidates are cut
  have hwalk : s.candidates = w.2.reverse ++ w.1.reverse := by
    have happ : w.1 ++ w.2 = s.candidates.reverse := elevatorWalk_append _ _
    rw [← reverse_append, happ, reverse_reverse]
  rw [hwalk] at hgc
  obtain ⟨ga, gb, rfl, hga, hgb⟩ := map_eq_append_iff.1 hgc
  have hnodup := h.nodup
  have hr : r ∉ (gs ++ (ga ++ gb)).map Prod.fst ++ held := by
    rw [nodup_middle, nodup_cons] at hnodup
    exact hnodup.1
  have hrw : r ∉ w.1 := fun hmem => hr (by
    rw [map_append, map_append, hgb]
    simp [hmem])
  have hreq : (s.fillRequest C r b cmd).reqs r = q := by
    rw [hfill]
    show (if r ∈ w.1 then _ else u.reqs r) = q
    rw [if_neg hrw]
    exact update_self ..
  have hothers : ∀ n, n ≠ r → u.reqs n = s.reqs n := fun n hn => update_of_ne hn _ _
  have hbhs : (s.fillRequest C r b cmd).bhs = s.bhs := by rw [hfill]; rfl
  have hok : ReqOk C cmdOf (s.fillRequest C r b cmd) r [b] :=
    Piece.reqOk { piece_only (q := q) (h.ends b h.fresh) hcmd rfl with } hreq
      (hR _ (h.range b (by simp)))
  rw [← append_assoc] at h
  refine ⟨ga ++ (r, [b]) :: gb, ?_, ?_, ?_, ?_⟩
  · rw [← append_assoc]
    refine h.insert hok ?_ ?_ hbhs ?_ ?_
    · intro n hn
      rw [hfill, ← hothers n hn]
      exact (core_passOver w.1 n).1
    · intro n
      rw [hfill]
      exact (core_passOver w.1 n).2.trans (freeList_update (q := q) rfl n)
    · rfl
    · rw [hfill, map_append, hgs, hga, hgb]
  · unfold Takes
    simp only [flatMap_append]
    exact perm_middle
  · intro p hp
    have hpr : p.1 ≠ r := by
      rintro rfl
      exact hr (by simp [mem_map_of_mem hp])
    have hpw : p.1 ∉ w.1 := by
      intro hmem
      have hdisj := (nodup_append.1 hnodup).1
      rw [map_append, nodup_append] at hdisj
      refine hdisj.2.2 p.1 (mem_map_of_mem hp) p.1 ?_ rfl
      rw [map_append, hgb]
      simp [hmem]
    rw [hfill]
    refine ⟨?_, fun _ _ => rfl⟩
    show (if p.1 ∈ w.1 then _ else u.reqs p.1) = _
    rw [if_neg hpw, hothers _ hpr]
  · exact ⟨rfl, rfl⟩

variable {freereq : Option Nat}

/-- **The label `get_rq`.** -/
theorem Inv.getRq (h : Inv C cmdOf R s (gs ++ gc) (b :: pend) (freereq.toList ++ held))
    (hcmd : cmdOf b = some cmd) (hgs : gs.map Prod.fst = s.skipped)
    (hgc : gc.map Prod.fst = s.candidates) (hR : ∀ io, R io → io.count ≤ C.maxSectors io.rdev) :
    SameCalls s (s.getRq C b cmd freereq).1 ∧ Keeps s (s.getRq C b cmd freereq).1 gs ∧
    match (s.getRq C b cmd freereq).2 with
    | .out f => ∃ gc', Inv C cmdOf R (s.getRq C b cmd freereq).1 (gs ++ gc') pend
        (f.toList ++ held) ∧ Takes b gc gc'
    | .noRequest => freereq = none ∧
        Inv C cmdOf R (s.getRq C b cmd freereq).1 (gs ++ gc) (b :: pend) held := by
  unfold Queue.getRq
  cases freereq with
  | some r =>
    obtain ⟨gc', hinv, htakes, hkeeps, hcalls⟩ := Inv.fillRequest h hcmd hgs hgc hR
    exact ⟨hcalls, hkeeps, gc', hinv, htakes⟩
  | none =>
    dsimp only
    split
    · next r t hget =>
      obtain ⟨hheld, hkeeps, hcalls, hplug⟩ := h.getRequest hget
      have hqueue : t.queue = s.queue := by rw [hheld.queue, h.queue]
      have hskip : t.skipped = s.skipped := by rw [Queue.skipped, Queue.skipped, hplug, hqueue]
      have hcand : t.candidates = s.candidates := by
        rw [Queue.candidates, Queue.candidates, hplug, hqueue]
      obtain ⟨gc', hinv, htakes, hkeepsFill, hcallsFill⟩ :=
        hheld.fillRequest hcmd (by rw [hskip, hgs]) (by rw [hcand, hgc]) hR
      refine ⟨SameCalls.trans ⟨hcalls, hplug⟩ hcallsFill, ?_, gc', hinv, htakes⟩
      exact (hkeeps.mono fun p hp => mem_append_left _ hp).trans hkeepsFill
    · exact ⟨⟨rfl, rfl⟩, Keeps.refl _ _, rfl, h⟩

/-! ### A pass -/

/-- While the queue is unplugged, its first request is as it was. -/
def HeadKept (s t : Queue) (g g' : List (Nat × List Nat)) : Prop :=
  s.plugged = false → ∀ p, g.head? = some p → g'.head? = some p ∧ Keeps s t [p]

lemma Keeps.headKept (h : Keeps s t g) : HeadKept s t g g := by
  intro _ p hp
  refine ⟨hp, h.mono fun q hq => ?_⟩
  rw [mem_singleton.1 hq]
  exact mem_of_mem_head? hp

/-- The queue as `__make_request` cuts it. -/
lemma Inv.cut (h : Inv C cmdOf R s g pend held) :
    ∃ gs gc, g = gs ++ gc ∧ gs.map Prod.fst = s.skipped ∧ gc.map Prod.fst = s.candidates ∧
      ∀ (t : Queue) gc', Keeps s t gs → HeadKept s t g (gs ++ gc') := by
  cases hplug : s.plugged with
  | true =>
    refine ⟨[], g, rfl, by simp [Queue.skipped, hplug], by simp [Queue.candidates, hplug, h.queue], ?_⟩
    intro t gc' _ hunplugged
    rw [hplug] at hunplugged
    cases hunplugged
  | false =>
    refine ⟨g.take 1, g.drop 1, (take_append_drop 1 g).symm, ?_, ?_, ?_⟩
    · simp [Queue.skipped, hplug, h.queue]
    · simp [Queue.candidates, hplug, h.queue]
    · intro t gc' hkeeps _ p hp
      cases g with
      | nil => cases hp
      | cons p' g =>
        cases hp
        exact ⟨rfl, hkeeps⟩

lemma Takes.append_left {gc' : List (Nat × List Nat)} (h : Takes b gc gc') :
    Takes b (gs ++ gc) (gs ++ gc') := by
  unfold Takes at h ⊢
  rw [flatMap_append, flatMap_append]
  exact (h.append_left _).trans perm_middle

/-- How a pass of `__make_request` ends: its buffer is in the queue, or it found no free request. -/
def PassOk (C : Config) (cmdOf : Nat → Option Cmd) (R : Io → Prop) (s : Queue)
    (res : Queue × Outcome) (b : Nat) (freereq : Option Nat) (g : List (Nat × List Nat))
    (pend held : List Nat) : Prop :=
  ∃ g', HeadKept s res.1 g g' ∧
    match res.2 with
    | .out f => Inv C cmdOf R res.1 g' pend (f.toList ++ held) ∧ Takes b g g'
    | .noRequest => freereq = none ∧ Inv C cmdOf R res.1 g' (b :: pend) held ∧ g' = g

/-- A pass of `__make_request`, once it has come to the label `get_rq` in the state `t`. -/
lemma Inv.passGetRq (h : Inv C cmdOf R t (gs ++ gc) (b :: pend) (freereq.toList ++ held))
    (hcmd : cmdOf b = some cmd) (hgs : gs.map Prod.fst = t.skipped)
    (hgc : gc.map Prod.fst = t.candidates) (hR : ∀ io, R io → io.count ≤ C.maxSectors io.rdev)
    (hhead : ∀ u gc', Keeps t u gs → HeadKept s u (gs ++ gc) (gs ++ gc')) :
    (t.getRq C b cmd freereq).1.calls = t.calls ∧
    PassOk C cmdOf R s (t.getRq C b cmd freereq) b freereq (gs ++ gc) pend held := by
  obtain ⟨hcalls, hkeeps, hout⟩ := h.getRq hcmd hgs hgc hR
  refine ⟨hcalls.1, ?_⟩
  unfold PassOk
  cases ho : (t.getRq C b cmd freereq).2 with
  | out f =>
    rw [ho] at hout
    obtain ⟨gc', hinv, htakes⟩ := hout
    exact ⟨gs ++ gc', hhead _ gc' hkeeps, hinv, htakes.append_left⟩
  | noRequest =>
    rw [ho] at hout
    exact ⟨gs ++ gc, hhead _ gc hkeeps, hout.1, hout.2, rfl⟩

/-- **A pass of `__make_request`.** -/
theorem Inv.makeRequest (h : Inv C cmdOf R s g (b :: pend) (freereq.toList ++ held))
    (hcmd : cmdOf b = some cmd) (hR : ∀ io, R io → io.count ≤ C.maxSectors io.rdev) :
    (s.makeRequest C b cmd freereq).1.calls = s.calls ∧
    PassOk C cmdOf R s (s.makeRequest C b cmd freereq) b freereq g pend held := by
  obtain ⟨gs, gc, rfl, hgs, hgc, hhead⟩ := h.cut
  unfold Queue.makeRequest
  by_cases hempty : s.queue = []
  · -- the queue is empty: it is plugged and gets its first request
    rw [if_pos hempty]
    have hnil : gs ++ gc = [] := by
      have hq := h.queue
      rw [hempty] at hq
      exact map_eq_nil_iff.1 hq.symm
    obtain ⟨rfl, rfl⟩ := append_eq_nil_iff.1 hnil
    have hplugged : Inv C cmdOf R { s with plugged := true } ([] ++ []) (b :: pend)
        (freereq.toList ++ held) := h.congr
    have hcand : ({ s with plugged := true } : Queue).candidates = [] := hempty
    exact hplugged.passGetRq hcmd rfl (by rw [hcand]; rfl) hR fun _ _ _ _ _ hp => by cases hp
  · rw [if_neg hempty]
    dsimp only
    unfold Queue.elevatorLinusMerge
    cases hwalk : s.mergeWalk (s.bhs b).io cmd (C.maxSectors (s.bhs b).io.rdev)
        s.candidates.reverse [] with
    | none =>
      -- nothing to merge with
      exact h.passGetRq hcmd hgs hgc hR hhead
    | some k =>
      obtain ⟨hsplit, hk⟩ := mergeWalk_spec hwalk
      rw [append_nil, reverse_reverse] at hsplit
      dsimp only [Option.bind_some]
      -- the requests that are passed over are candidates
      generalize hrs : (if k.front then k.req :: k.passed else k.passed) = rs
      have hsub : ∀ n ∈ rs, n ∈ gc.map Prod.fst := by
        intro n hn
        rw [hgc, hsplit]
        rw [← hrs] at hn
        split_ifs at hn
        · exact mem_append_right _ hn
        · exact mem_append_right _ (mem_cons_of_mem _ hn)
      have hkeepsPass : Keeps s (s.passOver rs) gs := by
        refine keeps_passOver fun p hp hmem => ?_
        have hnodup := (nodup_append.1 h.nodup).1
        rw [map_append, nodup_append] at hnodup
        exact hnodup.2.2 p.1 (mem_map_of_mem hp) p.1 (hsub _ hmem) rfl
      have hpass := h.passOver rs
      have hk' : MergeOk (s.passOver rs) ((s.passOver rs).io b) cmd
          (C.maxSectors ((s.passOver rs).io b).rdev) k := hk.congr (core_passOver rs k.req).1
      cases hmerge : (s.passOver rs).mergeInto b k (C.maxSectors (s.bhs b).io.rdev) with
      | some t =>
        obtain ⟨gc', hinv, htakes, hkeeps, hcalls⟩ :=
          hpass.mergeInto hcmd (hgc.trans hsplit) hk' hmerge
        exact ⟨hcalls.1, gs ++ gc', hhead t gc' (hkeepsPass.trans hkeeps), hinv, htakes.append_left⟩
      | none =>
        -- too many segments
        exact hpass.passGetRq hcmd hgs hgc hR fun u gc' hkeeps =>
          hhead u gc' (hkeepsPass.trans hkeeps)

/-! ### The end of a buffer -/

/-- **The first buffer of the head request ends**; `g'` and `held'` say what becomes of the
request. -/
theorem Inv.endFirst {g' : List (Nat × List Nat)} {held' : List Nat}
    (h : Inv C cmdOf R s ((r, b :: l) :: g₂) pend held)
    (hflat : g'.flatMap Prod.snd = l ++ g₂.flatMap Prod.snd) (hqueue : t.queue = g'.map Prod.fst)
    (hreqs : ∀ p ∈ g', ReqOk C cmdOf t p.1 p.2)
    (hown : (t.queue ++ held').Perm (s.queue ++ held))
    (hfree : ∀ n, (t.reqs n).freeList = (s.reqs n).freeList) (hlists : t.freelist = s.freelist)
    (hbhs : t.bhs = update s.bhs b { s.bhs b with reqnext := none, lock := false }) :
    Inv C cmdOf R t g' pend held' := by
  have hflight := h.flight
  rw [flatMap_cons, cons_append, cons_append, nodup_cons] at hflight
  have hother : ∀ c, c ≠ b → t.bhs c = s.bhs c := fun c hc => by rw [hbhs, update_of_ne hc]
  refine ⟨hqueue, hreqs, by rw [hflat]; exact hflight.2, ?_, ?_, ?_, ?_, ?_⟩
  · intro c hc
    rw [hflat] at hc
    by_cases hcb : c = b
    · rw [Queue.next, hbhs, hcb, update_self]
    · rw [Queue.next, hother c hcb]
      apply h.ends
      rw [flatMap_cons, cons_append, mem_cons, not_or]
      exact ⟨hcb, hc⟩
  · intro c hc
    rw [hflat] at hc
    have hcb : c ≠ b := ne_of_mem_of_not_mem hc hflight.1
    rw [Queue.io, hother c hcb]
    apply h.range
    exact mem_cons_of_mem _ hc
  · rw [hlists]
    exact (hown.append_left _).trans h.own
  · intro n hn
    rw [hfree]
    exact h.used n (hown.subset hn)
  · intro c
    rw [hflat]
    by_cases hcb : c = b
    · rw [hbhs, hcb]
      simpa using hflight.1
    · rw [hother c hcb, h.lock, flatMap_cons, cons_append, cons_append, mem_cons]
      exact or_iff_right hcb

/-- **A completion** ends the first buffer of the queue. -/
theorem Inv.endRequest (h : Inv C cmdOf R s ((r, b :: l) :: g₂) pend held) :
    ∃ t g', s.endRequest = some (t, [.ended b]) ∧ Inv C cmdOf R t g' pend held ∧
      g'.flatMap Prod.snd = l ++ g₂.flatMap Prod.snd ∧ t.calls = s.calls := by
  have hr : ReqOk C cmdOf s r (b :: l) := h.reqs (r, b :: l) (by simp)
  have hqueue : s.queue = r :: g₂.map Prod.fst := h.queue
  have hbh : (s.reqs r).bh = some b := hr.chain.1
  have hrest : Chain s.next (s.next b) l := hr.chain.2
  have hfront : Inv C cmdOf R s ([] ++ (r, b :: l) :: g₂) pend held := h
  obtain ⟨hnodup, hdisj⟩ := hfront.disjoint
  have hbl : b ∉ l := (nodup_cons.1 hnodup).1
  have hne : ∀ p ∈ g₂, p.1 ≠ r := hfront.ne_of_mem
  -- the buffers of the other requests are not touched
  have hother : ∀ p ∈ g₂, ∀ c ∈ p.2, c ≠ b := by
    intro p hp c hc heq
    refine hdisj b (by simp) (mem_append_left _ ?_)
    rw [← heq]
    exact mem_flatMap_of_mem hp hc
  let bhs' := update s.bhs b { s.bhs b with reqnext := none, lock := false }
  have hbhs' : ∀ c, c ≠ b → bhs' c = s.bhs c := fun c hc => update_of_ne hc _ _
  unfold Queue.endRequest
  rw [hqueue]
  dsimp only
  cases l with
  | nil =>
    -- the request is done: it leaves the queue and is free
    have hnone : (s.bhs b).reqnext = none := hrest
    have hfirst : s.endThatRequestFirst r =
        (((s.modify r fun q => { q with bh := none }).setReqnext b none).unlock b, some b, false) := by
      unfold Queue.endThatRequestFirst
      simp only [hbh, hnone]
    let u : Queue := { s with
      reqs := update s.reqs r { s.reqs r with bh := none, e := false }
      bhs := bhs'
      queue := g₂.map Prod.fst }
    have hreqs : ∀ n, n ≠ r → u.reqs n = s.reqs n := fun n hn => update_of_ne hn _ _
    have hu : Inv C cmdOf R u g₂ pend (r :: held) := by
      refine h.endFirst rfl rfl ?_ ?_ ?_ rfl rfl
      · intro p hp
        exact (h.reqs p (mem_cons_of_mem _ hp)).congr (by rw [hreqs _ (hne p hp)])
          fun c hc => hbhs' c (hother p hp c hc)
      · rw [hqueue]
        exact perm_middle
      · exact freeList_update rfl
    refine ⟨u.blkdevReleaseRequest r, g₂, ?_, hu.release.1, rfl, (sameCalls_release).1⟩
    have hlast : (((s.modify r fun q => { q with bh := none }).setReqnext b none).unlock
        b).endThatRequestLast r = u.blkdevReleaseRequest r := by
      unfold Queue.endThatRequestLast Queue.modify Queue.setReqnext Queue.unlock
      simp only [update_self, update_idem, hqueue, erase_cons_head]
      rfl
    rw [hfirst]
    rw [hlast]
    rfl
  | cons c l =>
    have hsome : (s.bhs b).reqnext = some c := hrest.1
    have htotal : (s.io b).count + total s.io (c :: l) = (s.reqs r).hardNrSectors := by
      rw [hr.hardNr, ← hr.total]
      rfl
    have hmax : max ((s.reqs r).hardNrSectors - (s.bhs b).io.count) (s.bhs c).io.count =
        total s.io (c :: l) := by
      have hle : (s.bhs c).io.count ≤ total s.io (c :: l) := Nat.le_add_right _ _
      rw [← htotal]
      show max ((s.io b).count + total s.io (c :: l) - (s.io b).count) _ = _
      rw [Nat.add_sub_cancel_left, Nat.max_eq_left hle]
    let q : Request := { s.reqs r with
      bh := some c
      hardSector := (s.reqs r).hardSector + BitVec.ofNat 32 (s.bhs b).io.count
      hardNrSectors := (s.reqs r).hardNrSectors - (s.bhs b).io.count
      sector := (s.reqs r).hardSector + BitVec.ofNat 32 (s.bhs b).io.count
      nrSectors := max ((s.reqs r).hardNrSectors - (s.bhs b).io.count) (s.bhs c).io.count
      currentNrSectors := (s.bhs c).io.count }
    let u : Queue := { s with
      reqs := update s.reqs r q
      bhs := bhs' }
    have hreqs : ∀ n, n ≠ r → u.reqs n = s.reqs n := fun n hn => update_of_ne hn _ _
    have hmem : ∀ d ∈ c :: l, d ≠ b := fun d hd => ne_of_mem_of_not_mem hd hbl
    have hio : ∀ d ∈ c :: l, u.io d = s.io d := fun d hd => congrArg Bh.io (hbhs' d (hmem d hd))
    have hpiece : Piece cmdOf u q (c :: l) := by
      refine ⟨?_, hr.tail, ?_, fun d hd => hr.cmd d (mem_cons_of_mem _ hd), ?_, ?_⟩
      · have hchain : Chain s.next (some c) (c :: l) := ⟨rfl, hrest.2⟩
        exact hchain.congr fun d hd => congrArg Bh.reqnext (hbhs' d (hmem d hd))
      · intro d hd
        rw [hio d hd]
        exact hr.dev d (mem_cons_of_mem _ hd)
      · show Consecutive u.io ((s.reqs r).hardSector + _) (c :: l)
        rw [hr.hardSector]
        exact hr.sectors.2.congr hio
      · rw [total_congr hio]
        exact hmax.symm
    have hok : ReqOk C cmdOf u r (c :: l) := by
      refine hpiece.reqOk (update_self ..) ?_ ?_
      · show max _ _ ≤ C.maxSectors (s.reqs r).rqDev
        have hbound := hr.bound
        rw [hr.hardNr] at htotal
        omega
      · show (s.reqs r).hardNrSectors - (s.bhs b).io.count = max _ _
        rw [hmax, ← htotal]
        exact Nat.add_sub_cancel_left ..
    refine ⟨u, (r, c :: l) :: g₂, ?_, ?_, rfl, rfl⟩
    · have hfirst : s.endThatRequestFirst r = (u, some b, true) := by
        unfold Queue.endThatRequestFirst Queue.modify Queue.setReqnext Queue.unlock
        simp only [hbh, hsome, update_self, update_idem]
        rfl
      rw [hfirst]
      rfl
    · refine h.endFirst rfl hqueue ?_ (Perm.refl _) ?_ rfl rfl
      · intro p hp
        rcases mem_cons.1 hp with rfl | hp
        · exact hok
        · exact (h.reqs p (mem_cons_of_mem _ hp)).congr (by rw [hreqs _ (hne p hp)])
            fun d hd => hbhs' d (hother p hp d hd)
      · exact freeList_update rfl

end PsxLinux.Blk
