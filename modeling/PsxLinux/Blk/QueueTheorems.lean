import PsxLinux.Lib.TailQueue
import PsxLinux.Blk.Queue
import Mathlib.Data.List.Perm.Basic

/-!
# Chains of buffers and the ownership of requests

`ReqOk s r l`: the buffers of request `r` are the chain `l`. `Inv s g pend held`: the queue is `g`, a
list of requests with their chains; `pend` are the buffers and `held` the requests of calls in
progress. No buffer is in two places, and every request is free or in use, once.

Each way to change a request is one lemma: a buffer joins it (`Inv.grow`), it takes the buffers of the
next one (`Inv.fuse`), it is taken from a free list or put back, its first buffer ends.
-/

namespace PsxLinux.Blk

open Lib Function List
open Lib.TailQueue (Chain)

/-! ### Sectors of a chain -/

def total (io : Nat → Io) (l : List Nat) : Nat := (l.map fun b => (io b).count).sum

/-- The buffers lie one behind the other from a sector on, in the arithmetic of sectors. -/
def Consecutive (io : Nat → Io) : BitVec 32 → List Nat → Prop
  | _, [] => True
  | x, b :: l => (io b).rsector = x ∧ Consecutive io (x + BitVec.ofNat 32 (io b).count) l

/-- The same with sector numbers that do not wrap around. -/
def ConsecutiveNat (io : Nat → Io) : Nat → List Nat → Prop
  | _, [] => True
  | x, b :: l => (io b).rsector.toNat = x ∧ ConsecutiveNat io (x + (io b).count) l

section Sectors

variable {io io' : Nat → Io} {l m : List Nat} {x : BitVec 32}

lemma total_append : total io (l ++ m) = total io l + total io m := by
  simp [total]

lemma total_congr (h : ∀ b ∈ l, io' b = io b) : total io' l = total io l := by
  unfold total
  rw [map_congr_left fun b hb => by rw [h b hb]]

lemma Consecutive.congr (hl : Consecutive io x l) (h : ∀ b ∈ l, io' b = io b) :
    Consecutive io' x l := by
  induction l generalizing x with
  | nil => trivial
  | cons b l ih =>
    rw [Consecutive, h b (by simp)]
    exact ⟨hl.1, ih hl.2 fun c hc => h c (by simp [hc])⟩

lemma consecutive_append :
    Consecutive io x (l ++ m) ↔
      Consecutive io x l ∧ Consecutive io (x + BitVec.ofNat 32 (total io l)) m := by
  induction l generalizing x with
  | nil => simp [Consecutive, total]
  | cons b l ih =>
    have htotal : x + BitVec.ofNat 32 (total io (b :: l)) =
        x + BitVec.ofNat 32 (io b).count + BitVec.ofNat 32 (total io l) := by
      rw [BitVec.add_assoc, ← BitVec.ofNat_add]
      rfl
    rw [cons_append, Consecutive, Consecutive, ih, htotal, and_assoc]

/-- Where no buffer reaches the last sector number, the arithmetic of sectors is that of numbers. -/
lemma Consecutive.toNat (hl : Consecutive io x l)
    (h : ∀ b ∈ l, (io b).rsector.toNat + (io b).count < 2 ^ 32) : ConsecutiveNat io x.toNat l := by
  induction l generalizing x with
  | nil => trivial
  | cons b l ih =>
    obtain ⟨rfl, hrest⟩ := hl
    refine ⟨rfl, ?_⟩
    have hb := h b (by simp)
    have hsum : ((io b).rsector + BitVec.ofNat 32 (io b).count).toNat =
        (io b).rsector.toNat + (io b).count := by
      rw [BitVec.toNat_add, BitVec.toNat_ofNat, Nat.add_mod_mod, Nat.mod_eq_of_lt hb]
    rw [← hsum]
    exact ih hrest fun c hc => h c (by simp [hc])

end Sectors

/-! ### The invariant -/

namespace Queue

def next (s : Queue) (b : Nat) : Option Nat := (s.bhs b).reqnext

def io (s : Queue) (b : Nat) : Io := (s.bhs b).io

end Queue

/-- The fields of a request that describe its buffers. -/
def Request.core (q : Request) : Request :=
  { q with
    elevatorSequence := 0
    freeList := none
    nrSegments := 0
    currentNrSectors := 0
    e := false }

variable {C : Config} {cmdOf : Nat → Option Cmd} {R : Io → Prop}

/-- The buffers of a request are the chain `l`; `cmdOf` is the command that a buffer was submitted
with. -/
structure ReqOk (C : Config) (cmdOf : Nat → Option Cmd) (s : Queue) (r : Nat) (l : List Nat) :
    Prop where
  chain : Chain s.next (s.reqs r).bh l
  tail : l.getLast? = some (s.reqs r).bhtail
  dev : ∀ b ∈ l, (s.io b).rdev = (s.reqs r).rqDev
  cmd : ∀ b ∈ l, cmdOf b = some (s.reqs r).cmd
  sectors : Consecutive s.io (s.reqs r).sector l
  total : total s.io l = (s.reqs r).nrSectors
  hardNr : (s.reqs r).hardNrSectors = (s.reqs r).nrSectors
  hardSector : (s.reqs r).hardSector = (s.reqs r).sector
  bound : (s.reqs r).nrSectors ≤ C.maxSectors (s.reqs r).rqDev

lemma ReqOk.congr {s t : Queue} {r : Nat} {l : List Nat} (h : ReqOk C cmdOf s r l)
    (hreq : (t.reqs r).core = (s.reqs r).core) (hbhs : ∀ b ∈ l, t.bhs b = s.bhs b) :
    ReqOk C cmdOf t r l := by
  have hio : ∀ b ∈ l, t.io b = s.io b := fun b hb => congrArg Bh.io (hbhs b hb)
  simp only [Request.core, Request.mk.injEq, true_and, and_true] at hreq
  obtain ⟨hdev, hcmd, hsector, hnr, hhs, hhard, hbh, htail⟩ := hreq
  constructor
  · rw [hbh]
    exact h.chain.congr fun b hb => congrArg Bh.reqnext (hbhs b hb)
  · rw [htail, h.tail]
  · intro b hb
    rw [hio b hb, hdev, h.dev b hb]
  · intro b hb
    rw [hcmd, h.cmd b hb]
  · rw [hsector]
    exact h.sectors.congr hio
  · rw [total_congr hio, hnr, h.total]
  · rw [hhard, hnr, h.hardNr]
  · rw [hhs, hsector, h.hardSector]
  · rw [hnr, hdev]
    exact h.bound

/-- The chain `l` and what a request says of it. -/
structure Piece (cmdOf : Nat → Option Cmd) (s : Queue) (q : Request) (l : List Nat) : Prop where
  chain : Chain s.next q.bh l
  tail : l.getLast? = some q.bhtail
  dev : ∀ b ∈ l, (s.io b).rdev = q.rqDev
  cmd : ∀ b ∈ l, cmdOf b = some q.cmd
  sectors : Consecutive s.io q.sector l
  total : total s.io l = q.nrSectors

/-- A request with one buffer only. -/
def Request.only (q : Request) (b : Nat) (io : Io) : Request :=
  { q with
    bh := some b
    bhtail := b
    sector := io.rsector
    nrSectors := io.count }

section Pieces

variable {s t : Queue} {p q q' : Request} {l m : List Nat} {r b : Nat}

lemma ReqOk.piece (h : ReqOk C cmdOf s r l) : Piece cmdOf s (s.reqs r) l := { h with }

lemma Piece.reqOk (h : Piece cmdOf s q l) (hreq : s.reqs r = q)
    (hbound : q.nrSectors ≤ C.maxSectors q.rqDev) (hnr : q.hardNrSectors = q.nrSectors := by rfl)
    (hsector : q.hardSector = q.sector := by rfl) : ReqOk C cmdOf s r l := by
  subst hreq
  exact { h with hardNr := hnr, hardSector := hsector, bound := hbound }

/-- A request of one buffer. -/
lemma piece_only (hend : s.next b = none) (hcmd : cmdOf b = some q.cmd)
    (hdev : q.rqDev = (s.io b).rdev) : Piece cmdOf s (q.only b (s.io b)) [b] where
  chain := ⟨rfl, hend⟩
  tail := rfl
  dev c hc := by rw [mem_singleton.1 hc]; exact hdev.symm
  cmd c hc := by rw [mem_singleton.1 hc]; exact hcmd
  sectors := ⟨rfl, trivial⟩
  total := rfl

/-- Two pieces, the last buffer of the first linked to the second. -/
lemma Piece.append (hp : Piece cmdOf s p l) (hq : Piece cmdOf s q m) (hnodup : (l ++ m).Nodup)
    (hdev : p.rqDev = q.rqDev) (hcmd : p.cmd = q.cmd)
    (hsector : p.sector + BitVec.ofNat 32 p.nrSectors = q.sector)
    (hbound : p.nrSectors + q.nrSectors ≤ C.maxSectors p.rqDev)
    (hnext : t.next = update s.next p.bhtail q.bh) (hio : t.io = s.io) (hreq : t.reqs r = q')
    (hnr : q'.nrSectors = p.nrSectors + q.nrSectors) (hhard : q'.hardSector = p.sector)
    (hhardNr : q'.hardNrSectors = q'.nrSectors := by rfl) (hbh : q'.bh = p.bh := by rfl)
    (htail : q'.bhtail = q.bhtail := by rfl) (hdev' : q'.rqDev = p.rqDev := by rfl)
    (hcmd' : q'.cmd = p.cmd := by rfl) (hsector' : q'.sector = p.sector := by rfl) :
    ReqOk C cmdOf t r (l ++ m) := by
  refine Piece.reqOk ?_ hreq (by rw [hnr, hdev']; exact hbound) hhardNr (hhard.trans hsector'.symm)
  constructor
  · obtain ⟨l₀, rfl⟩ := getLast?_eq_some_iff.1 hp.tail
    obtain ⟨hl, -, hdisj⟩ := nodup_append.1 hnodup
    rw [hnext, hbh, append_assoc]
    refine hp.chain.update ?_ hq.chain ?_
    · exact fun hmem => (nodup_append.1 hl).2.2 _ hmem _ (by simp) rfl
    · exact fun hmem => hdisj _ (by simp) _ hmem rfl
  · rw [getLast?_append, hq.tail, htail]
    rfl
  · rw [hdev', hio]
    exact fun c hc => (mem_append.1 hc).elim (hp.dev c) fun hc => by rw [hq.dev c hc, hdev]
  · rw [hcmd']
    exact fun c hc => (mem_append.1 hc).elim (hp.cmd c) fun hc => by rw [hq.cmd c hc, hcmd]
  · rw [hsector', hio, consecutive_append, hp.total, hsector]
    exact ⟨hp.sectors, hq.sectors⟩
  · rw [hio, total_append, hp.total, hq.total, hnr]

end Pieces

lemma ReqOk.ne_nil {s : Queue} {r : Nat} {l : List Nat} (h : ReqOk C cmdOf s r l) : l ≠ [] := by
  rintro rfl
  cases h.tail

/-- The queue with the chains of its requests; the buffers `pend` and the requests `held` belong to
calls. `R` holds of everything that was submitted. -/
structure Inv (C : Config) (cmdOf : Nat → Option Cmd) (R : Io → Prop) (s : Queue)
    (g : List (Nat × List Nat)) (pend held : List Nat) : Prop where
  queue : s.queue = g.map Prod.fst
  reqs : ∀ p ∈ g, ReqOk C cmdOf s p.1 p.2
  flight : (g.flatMap Prod.snd ++ pend).Nodup
  ends : ∀ b, b ∉ g.flatMap Prod.snd → s.next b = none
  range : ∀ b ∈ g.flatMap Prod.snd ++ pend, R (s.io b)
  own : (s.freelist .read ++ s.freelist .write ++ (s.queue ++ held)).Perm
    (List.range queueNrRequests)
  used : ∀ r ∈ s.queue ++ held, (s.reqs r).freeList.isSome
  lock : ∀ b, (s.bhs b).lock ↔ b ∈ g.flatMap Prod.snd ++ pend

/-- A part of the queue is as it was: its requests in every field, and their buffers. -/
def Keeps (s t : Queue) (g : List (Nat × List Nat)) : Prop :=
  ∀ p ∈ g, t.reqs p.1 = s.reqs p.1 ∧ ∀ b ∈ p.2, t.bhs b = s.bhs b

lemma Keeps.refl (s : Queue) (g : List (Nat × List Nat)) : Keeps s s g :=
  fun _ _ => ⟨rfl, fun _ _ => rfl⟩

lemma Keeps.trans {s t u : Queue} {g : List (Nat × List Nat)} (h : Keeps s t g)
    (h' : Keeps t u g) : Keeps s u g := by
  intro p hp
  refine ⟨(h' p hp).1.trans (h p hp).1, ?_⟩
  intro b hb
  rw [(h' p hp).2 b hb, (h p hp).2 b hb]

lemma Keeps.mono {s t : Queue} {g g' : List (Nat × List Nat)} (h : Keeps s t g)
    (hsub : ∀ p ∈ g', p ∈ g) : Keeps s t g' :=
  fun p hp => h p (hsub p hp)

section Changes

variable {s t : Queue} {g g₁ g₂ : List (Nat × List Nat)} {l m pend held : List Nat} {r n b : Nat}

lemma Inv.nodup (h : Inv C cmdOf R s g pend held) : (g.map Prod.fst ++ held).Nodup := by
  have hall := h.own.nodup_iff.2 nodup_range
  rw [← h.queue]
  exact (nodup_append.1 hall).2.1

lemma Inv.ne_of_mem (h : Inv C cmdOf R s (g₁ ++ (r, l) :: g₂) pend held) :
    ∀ p ∈ g₁ ++ g₂, p.1 ≠ r := by
  have hnodup := (nodup_append.1 h.nodup).1
  rw [map_append, map_cons, nodup_middle, nodup_cons] at hnodup
  intro p hp heq
  have hmem := mem_map_of_mem (f := Prod.fst) hp
  rw [heq, map_append] at hmem
  exact hnodup.1 hmem

/-- The buffers of a request are in no other chain and in no call. -/
lemma Inv.disjoint (h : Inv C cmdOf R s (g₁ ++ (r, l) :: g₂) pend held) :
    l.Nodup ∧ ∀ b ∈ l, b ∉ (g₁ ++ g₂).flatMap Prod.snd ++ pend := by
  have hflight := h.flight
  have hperm : ((g₁ ++ (r, l) :: g₂).flatMap Prod.snd ++ pend).Perm
      (l ++ ((g₁ ++ g₂).flatMap Prod.snd ++ pend)) := by
    simp only [flatMap_append, flatMap_cons, append_assoc]
    exact perm_append_comm_assoc _ _ _
  rw [hperm.nodup_iff, nodup_append] at hflight
  exact ⟨hflight.1, fun b hb hmem => hflight.2.2 b hb b hmem rfl⟩

/-- **Rearranging.** The buffers and the requests in use are those they were, in other places. -/
lemma Inv.rearrange {g' : List (Nat × List Nat)} {pend' held' : List Nat}
    (h : Inv C cmdOf R s g pend held) (hqueue : t.queue = g'.map Prod.fst)
    (hreqs : ∀ p ∈ g', ReqOk C cmdOf t p.1 p.2)
    (hflat : (g'.flatMap Prod.snd ++ pend').Perm (g.flatMap Prod.snd ++ pend))
    (hends : ∀ b, b ∉ g'.flatMap Prod.snd → b ∉ g.flatMap Prod.snd ∧ t.next b = s.next b)
    (hown : (t.queue ++ held').Perm (s.queue ++ held))
    (hfree : ∀ n, (t.reqs n).freeList = (s.reqs n).freeList) (hio : t.io = s.io)
    (hlock : ∀ b, (t.bhs b).lock = (s.bhs b).lock) (hlists : t.freelist = s.freelist) :
    Inv C cmdOf R t g' pend' held' := by
  refine ⟨hqueue, hreqs, hflat.nodup_iff.2 h.flight, ?_, ?_, ?_, ?_, ?_⟩
  · intro b hb
    rw [(hends b hb).2]
    exact h.ends b (hends b hb).1
  · intro b hb
    rw [hio]
    exact h.range b (hflat.subset hb)
  · rw [hlists]
    exact (hown.append_left _).trans h.own
  · intro n hn
    rw [hfree]
    exact h.used n (hown.subset hn)
  · intro b
    rw [hlock, h.lock]
    exact hflat.mem_iff.symm

lemma Inv.congr (h : Inv C cmdOf R s g pend held)
    (hreqs : ∀ r, (t.reqs r).core = (s.reqs r).core := by exact fun _ => rfl)
    (hfree : ∀ r, (t.reqs r).freeList = (s.reqs r).freeList := by exact fun _ => rfl)
    (hbhs : t.bhs = s.bhs := by rfl) (hlists : t.freelist = s.freelist := by rfl)
    (hqueue : t.queue = s.queue := by rfl) : Inv C cmdOf R t g pend held := by
  have hsame : ∀ b, t.bhs b = s.bhs b := fun b => by rw [hbhs]
  refine h.rearrange (hqueue.trans h.queue) ?_ (Perm.refl _) ?_ (by rw [hqueue]) hfree ?_ ?_ hlists
  · exact fun p hp => (h.reqs p hp).congr (hreqs _) fun b _ => hsame b
  · exact fun b hb => ⟨hb, congrArg Bh.reqnext (hsame b)⟩
  · exact funext fun b => congrArg Bh.io (hsame b)
  · exact fun b => congrArg Bh.lock (hsame b)

lemma core_passOver (rs : List Nat) (n : Nat) :
    ((s.passOver rs).reqs n).core = (s.reqs n).core ∧
      ((s.passOver rs).reqs n).freeList = (s.reqs n).freeList := by
  unfold Queue.passOver
  dsimp only
  split_ifs <;> exact ⟨rfl, rfl⟩

/-- The elevator's pass changes only the sequence numbers. -/
lemma Inv.passOver (h : Inv C cmdOf R s g pend held) (rs : List Nat) :
    Inv C cmdOf R (s.passOver rs) g pend held :=
  h.congr (fun n => (core_passOver rs n).1) fun n => (core_passOver rs n).2

lemma keeps_passOver {rs : List Nat} (h : ∀ p ∈ g, p.1 ∉ rs) : Keeps s (s.passOver rs) g :=
  fun p hp => ⟨if_neg (h p hp), fun _ _ => rfl⟩

lemma freeList_update {q : Request} (hq : q.freeList = (s.reqs r).freeList) (n : Nat) :
    (update s.reqs r q n).freeList = (s.reqs n).freeList := by
  rw [apply_update (fun _ => Request.freeList), hq, update_eq_self]

lemma Inv.modify (h : Inv C cmdOf R s g pend held) {f : Request → Request}
    (hcore : ∀ q, (f q).core = q.core) (hfree : ∀ q, (f q).freeList = q.freeList) (r : Nat) :
    Inv C cmdOf R (s.modify r f) g pend held := by
  refine h.congr (fun n => ?_) fun n => ?_
  · by_cases hn : n = r
    · subst hn
      simp [Queue.modify, hcore]
    · simp [Queue.modify, hn]
  · exact freeList_update (hfree _) n

lemma keeps_modify {f : Request → Request} (h : ∀ p ∈ g, p.1 ≠ r) : Keeps s (s.modify r f) g :=
  fun p hp => ⟨update_of_ne (h p hp) _ _, fun _ _ => rfl⟩

lemma mem_middle {p : Nat × List Nat} (hp : p ∈ g₁ ++ g₂) : p ∈ g₁ ++ (r, l) :: g₂ :=
  perm_middle.symm.subset (mem_cons_of_mem _ hp)

lemma reqs_middle (hold : ∀ p ∈ g₁ ++ g₂, ReqOk C cmdOf s p.1 p.2)
    (hcore : ∀ p ∈ g₁ ++ g₂, (t.reqs p.1).core = (s.reqs p.1).core)
    (hbhs : ∀ p ∈ g₁ ++ g₂, ∀ b ∈ p.2, t.bhs b = s.bhs b) (hok : ReqOk C cmdOf t r l) :
    ∀ p ∈ g₁ ++ (r, l) :: g₂, ReqOk C cmdOf t p.1 p.2 := by
  intro p hp
  rcases mem_cons.1 (perm_middle.subset hp) with rfl | hp
  · exact hok
  · exact (hold p hp).congr (hcore p hp) (hbhs p hp)

/-! ### Storing into a link -/

lemma next_setReqnext (o : Option Nat) : (s.setReqnext b o).next = update s.next b o :=
  funext fun c => apply_update (fun _ => Bh.reqnext) s.bhs b _ c

lemma io_setReqnext (o : Option Nat) : (s.setReqnext b o).io = s.io := by
  funext c
  exact (apply_update (fun _ => Bh.io) s.bhs b _ c).trans (congrFun (update_eq_self b s.io) c)

lemma lock_setReqnext (o : Option Nat) (c : Nat) :
    ((s.setReqnext b o).bhs c).lock = (s.bhs c).lock :=
  (apply_update (fun _ => Bh.lock) s.bhs b _ c).trans (congrFun (update_eq_self b _) c)

lemma bhs_setReqnext_of_ne (o : Option Nat) {c : Nat} (hc : c ≠ b) :
    (s.setReqnext b o).bhs c = s.bhs c :=
  update_of_ne hc _ _

/-! ### A request grows -/

/-- The next buffer is in no request yet. -/
lemma Inv.fresh (h : Inv C cmdOf R s g (b :: pend) held) : b ∉ g.flatMap Prod.snd := fun hmem =>
  (nodup_append.1 h.flight).2.2 b hmem b (by simp) rfl

section

variable (h : Inv C cmdOf R s (g₁ ++ (r, l) :: g₂) (b :: pend) held)
include h

lemma Inv.nodup_fresh : (b :: l).Nodup :=
  List.nodup_cons.2 ⟨fun hmem => h.fresh (by simp [hmem]), h.disjoint.1⟩

/-- **A buffer joins a request.** Only that request and the links of its buffers change. -/
theorem Inv.grow {l' : List Nat} (hl' : l'.Perm (b :: l)) (hok : ReqOk C cmdOf t r l')
    (hreqs : ∀ n, n ≠ r → t.reqs n = s.reqs n) (hbhs : ∀ c, c ∉ l' → t.bhs c = s.bhs c)
    (hio : t.io = s.io) (hlock : ∀ c, (t.bhs c).lock = (s.bhs c).lock)
    (hfree : ∀ n, (t.reqs n).freeList = (s.reqs n).freeList) (hlists : t.freelist = s.freelist)
    (hqueue : t.queue = s.queue) :
    Inv C cmdOf R t (g₁ ++ (r, l') :: g₂) pend held ∧ Keeps s t (g₁ ++ g₂) := by
  have hothers : ∀ p ∈ g₁ ++ g₂, ∀ c ∈ p.2, c ∉ l' := by
    intro p hp c hc hmem
    have hflat : c ∈ (g₁ ++ g₂).flatMap Prod.snd := mem_flatMap_of_mem hp hc
    rcases mem_cons.1 (hl'.subset hmem) with rfl | hl
    · obtain ⟨p, hp, hc⟩ := mem_flatMap.1 hflat
      exact h.fresh (mem_flatMap_of_mem (mem_middle hp) hc)
    · exact h.disjoint.2 c hl (mem_append_left _ hflat)
  have hkeeps : Keeps s t (g₁ ++ g₂) := fun p hp =>
    ⟨hreqs _ (h.ne_of_mem p hp), fun c hc => hbhs c (hothers p hp c hc)⟩
  refine ⟨h.rearrange ?_ ?_ ?_ ?_ (by rw [hqueue]) hfree hio hlock hlists, hkeeps⟩
  · rw [hqueue, h.queue]
    simp
  · exact reqs_middle (fun p hp => h.reqs p (mem_middle hp))
      (fun p hp => by rw [(hkeeps p hp).1]) (fun p hp => (hkeeps p hp).2) hok
  · simp only [flatMap_append, flatMap_cons, append_assoc]
    refine Perm.append_left _ ?_
    refine (hl'.append_right _).trans ?_
    rw [← append_assoc, ← append_assoc]
    exact perm_middle.symm
  · intro c hc
    have hcl : c ∉ l' := fun hmem => hc (by simp [hmem])
    refine ⟨fun hmem => hc ?_, congrArg Bh.reqnext (hbhs c hcl)⟩
    simp only [flatMap_append, flatMap_cons, mem_append] at hmem ⊢
    rcases hmem with hmem | hmem | hmem
    · exact .inl hmem
    · exact absurd (hl'.symm.subset (mem_cons_of_mem _ hmem)) hcl
    · exact .inr (.inr hmem)

/-- **Back merge.** -/
theorem Inv.pushBack
    (hcmd : cmdOf b = some (s.reqs r).cmd) (hdev : (s.reqs r).rqDev = (s.io b).rdev)
    (hsector : (s.reqs r).sector + BitVec.ofNat 32 (s.reqs r).nrSectors = (s.io b).rsector)
    (hbound : (s.reqs r).nrSectors + (s.io b).count ≤ C.maxSectors (s.io b).rdev) :
    Inv C cmdOf R (s.pushBack r b) (g₁ ++ (r, l ++ [b]) :: g₂) pend held ∧
      Keeps s (s.pushBack r b) (g₁ ++ g₂) := by
  have hr : ReqOk C cmdOf s r l := h.reqs (r, l) (by simp)
  have hperm : (l ++ [b]).Perm (b :: l) := perm_append_comm
  rw [← hdev] at hbound
  refine h.grow hperm ?_ (fun n hn => update_of_ne hn _ _) ?_ (io_setReqnext _) (lock_setReqnext _)
    (freeList_update rfl) rfl rfl
  · refine hr.piece.append (piece_only (h.ends b h.fresh) hcmd hdev) (hperm.nodup_iff.2 h.nodup_fresh)
      rfl rfl hsector hbound (next_setReqnext _) (io_setReqnext _)
      (update_self ..) ?_ hr.hardSector
    exact congrArg (· + (s.io b).count) hr.hardNr
  · intro c hc
    apply bhs_setReqnext_of_ne
    rintro rfl
    exact hc (mem_append_left _ (mem_of_getLast? hr.tail))

/-- **Front merge.** -/
theorem Inv.pushFront
    (hcmd : cmdOf b = some (s.reqs r).cmd) (hdev : (s.reqs r).rqDev = (s.io b).rdev)
    (hsector : (s.reqs r).sector - BitVec.ofNat 32 (s.io b).count = (s.io b).rsector)
    (hbound : (s.reqs r).nrSectors + (s.io b).count ≤ C.maxSectors (s.io b).rdev) :
    Inv C cmdOf R (s.pushFront r b) (g₁ ++ (r, b :: l) :: g₂) pend held ∧
      Keeps s (s.pushFront r b) (g₁ ++ g₂) := by
  have hr : ReqOk C cmdOf s r l := h.reqs (r, l) (by simp)
  have hadd : (s.io b).rsector + BitVec.ofNat 32 (s.io b).count = (s.reqs r).sector := by
    rw [← hsector, BitVec.sub_add_cancel]
  rw [← hdev, Nat.add_comm] at hbound
  refine h.grow (Perm.refl _) ?_ (fun n hn => update_of_ne hn _ _) ?_ (io_setReqnext _)
    (lock_setReqnext _) (freeList_update rfl) rfl rfl
  · refine (piece_only (h.ends b h.fresh) hcmd hdev).append hr.piece h.nodup_fresh rfl rfl hadd
      hbound (next_setReqnext _) (io_setReqnext _) (update_self ..) ?_ rfl
    exact (Nat.add_comm ..).trans (congrArg ((s.io b).count + ·) hr.hardNr)
  · intro c hc
    apply bhs_setReqnext_of_ne
    rintro rfl
    exact hc (by simp)

end

/-! ### Free requests -/

/-- A released request goes back to the free list it came from. -/
lemma Inv.release (h : Inv C cmdOf R s g pend (r :: held)) :
    Inv C cmdOf R (s.blkdevReleaseRequest r) g pend held ∧
      Keeps s (s.blkdevReleaseRequest r) g := by
  obtain ⟨list, hlist⟩ := Option.isSome_iff_exists.1 (h.used r (by simp))
  have hne : ∀ n ∈ s.queue ++ held, n ≠ r := by
    have hnodup := h.nodup
    rw [← h.queue, nodup_middle, nodup_cons] at hnodup
    exact fun n hn => ne_of_mem_of_not_mem hn hnodup.1
  have hreqs : ∀ n, n ≠ r → (s.blkdevReleaseRequest r).reqs n = s.reqs n := by
    intro n hn
    simp [Queue.blkdevReleaseRequest, hlist, Queue.modify, hn]
  have hbhs : (s.blkdevReleaseRequest r).bhs = s.bhs := by
    simp [Queue.blkdevReleaseRequest, hlist, Queue.modify]
  have hqueue : (s.blkdevReleaseRequest r).queue = s.queue := by
    simp [Queue.blkdevReleaseRequest, hlist, Queue.modify]
  have hmem : ∀ p ∈ g, p.1 ≠ r := fun p hp =>
    hne p.1 (mem_append_left _ (by rw [h.queue]; exact mem_map_of_mem hp))
  have hkeeps : Keeps s (s.blkdevReleaseRequest r) g := fun p hp =>
    ⟨hreqs _ (hmem p hp), fun b _ => by rw [hbhs]⟩
  refine ⟨⟨?_, ?_, h.flight, ?_, ?_, ?_, ?_, ?_⟩, hkeeps⟩
  · rw [hqueue, h.queue]
  · exact fun p hp => (h.reqs p hp).congr (by rw [(hkeeps p hp).1]) (hkeeps p hp).2
  · intro b hb
    rw [Queue.next, hbhs]
    exact h.ends b hb
  · intro b hb
    rw [Queue.io, hbhs]
    exact h.range b hb
  · -- the request moves from those in use to the front of its list
    have hown := h.own
    refine Perm.trans ?_ hown
    have hback : (r :: (s.freelist .read ++ s.freelist .write ++ (s.queue ++ held))).Perm
        (s.freelist .read ++ s.freelist .write ++ (s.queue ++ r :: held)) := by
      rw [← append_assoc _ s.queue, ← append_assoc _ s.queue]
      exact perm_middle.symm
    refine Perm.trans ?_ hback
    cases list with
    | read => simp [Queue.blkdevReleaseRequest, hlist, Queue.modify]
    | write => simp [Queue.blkdevReleaseRequest, hlist, Queue.modify]
  · intro n hn
    rw [hqueue] at hn
    rw [hreqs n (hne n hn)]
    refine h.used n ?_
    rw [mem_append]
    rw [mem_append] at hn
    tauto
  · intro b
    rw [hbhs]
    exact h.lock b

lemma Inv.gotRq (h : Inv C cmdOf R s g pend held) {list : Cmd} {rest : List Nat}
    (hlist : s.freelist list = r :: rest) :
    Inv C cmdOf R (s.gotRq list r rest) g pend (r :: held) ∧ Keeps s (s.gotRq list r rest) g := by
  have hall := h.own.nodup_iff.2 nodup_range
  have hne : ∀ n ∈ s.queue ++ held, n ≠ r := by
    intro n hn heq
    have hdisj := (nodup_append.1 hall).2.2
    refine hdisj r ?_ n hn heq.symm
    cases list with
    | read => simp [hlist]
    | write => simp [hlist]
  have hreqs : ∀ n, n ≠ r → (s.gotRq list r rest).reqs n = s.reqs n :=
    fun n hn => update_of_ne hn _ _
  have hmem : ∀ p ∈ g, p.1 ≠ r := fun p hp =>
    hne p.1 (mem_append_left _ (by rw [h.queue]; exact mem_map_of_mem hp))
  have hkeeps : Keeps s (s.gotRq list r rest) g := fun p hp => ⟨hreqs _ (hmem p hp), fun _ _ => rfl⟩
  refine ⟨⟨h.queue, ?_, h.flight, h.ends, h.range, ?_, ?_, h.lock⟩, hkeeps⟩
  · exact fun p hp => (h.reqs p hp).congr (by rw [(hkeeps p hp).1]) (hkeeps p hp).2
  · -- the request moves from the front of its list to those in use
    have hfront : (s.freelist .read ++ s.freelist .write ++ (s.queue ++ held)).Perm
        (r :: ((s.gotRq list r rest).freelist .read ++ (s.gotRq list r rest).freelist .write ++
          (s.queue ++ held))) := by
      cases list with
      | read => simp [Queue.gotRq, Queue.modify, hlist]
      | write => simp [Queue.gotRq, Queue.modify, hlist]
    refine Perm.trans ?_ h.own
    refine Perm.trans ?_ hfront.symm
    show (_ ++ (s.queue ++ r :: held)).Perm _
    rw [← append_assoc _ s.queue, ← append_assoc _ s.queue]
    exact perm_middle
  · intro n hn
    by_cases hnr : n = r
    · subst hnr
      simp [Queue.gotRq, Queue.modify]
    · rw [hreqs n hnr]
      refine h.used n ?_
      have hn' : n ∈ s.queue ++ r :: held := hn
      rw [mem_append, mem_cons] at hn'
      rw [mem_append]
      tauto

/-- `get_request` takes a request off its free list and holds it. -/
lemma Inv.getRequest (h : Inv C cmdOf R s g pend held) {cmd : Cmd}
    (hget : s.getRequest cmd = some (r, t)) :
    Inv C cmdOf R t g pend (r :: held) ∧ Keeps s t g ∧ t.calls = s.calls ∧
      t.plugged = s.plugged := by
  unfold Queue.getRequest at hget
  split at hget
  · next hlist =>
    cases hget
    exact ⟨(h.gotRq hlist).1, (h.gotRq hlist).2, rfl, rfl⟩
  · split at hget
    · next hlist =>
      cases hget
      exact ⟨(h.gotRq hlist).1, (h.gotRq hlist).2, rfl, rfl⟩
    · cases hget

/-! ### Two requests become one -/

/-- **Fusing.** The buffers of the next request go to the end of this one, and the next request is
free. -/
theorem Inv.fuse (h : Inv C cmdOf R s (g₁ ++ (r, l) :: (n, m) :: g₂) pend held)
    (hsector : (s.reqs r).sector + BitVec.ofNat 32 (s.reqs r).nrSectors = (s.reqs n).sector)
    (hcmd : (s.reqs r).cmd = (s.reqs n).cmd) (hdev : (s.reqs r).rqDev = (s.reqs n).rqDev)
    (hbound : (s.reqs r).nrSectors + (s.reqs n).nrSectors ≤ C.maxSectors (s.reqs r).rqDev) :
    Inv C cmdOf R (s.fuse r n) (g₁ ++ (r, l ++ m) :: g₂) pend held ∧
      Keeps s (s.fuse r n) (g₁ ++ g₂) := by
  have hr : ReqOk C cmdOf s r l := h.reqs (r, l) (by simp)
  have hn : ReqOk C cmdOf s n m := h.reqs (n, m) (by simp)
  have hne : ∀ p ∈ g₁ ++ (n, m) :: g₂, p.1 ≠ r := h.ne_of_mem
  have hnr : n ≠ r := hne (n, m) (by simp)
  have hassoc : g₁ ++ (r, l) :: (n, m) :: g₂ = (g₁ ++ [(r, l)]) ++ (n, m) :: g₂ := by simp
  have h' := h
  rw [hassoc] at h'
  have hold : ∀ p ∈ g₁ ++ g₂, p ∈ g₁ ++ (r, l) :: (n, m) :: g₂ := fun p hp => by
    rcases mem_append.1 hp with hp | hp <;> simp [hp]
  have hne' : ∀ p ∈ g₁ ++ g₂, p.1 ≠ n := fun p hp => h'.ne_of_mem p (by
    rcases mem_append.1 hp with hp | hp <;> simp [hp])
  obtain ⟨hnodup, hdisj⟩ := h.disjoint
  have hzl : (s.reqs r).bhtail ∈ l := mem_of_getLast? hr.tail
  -- the queue with the fused request, the other one held
  let u : Queue := { (s.setReqnext (s.reqs r).bhtail (s.reqs n).bh).modify r fun q =>
    { q with
      bhtail := (s.reqs n).bhtail
      nrSectors := q.hardNrSectors + (s.reqs n).hardNrSectors
      hardNrSectors := q.hardNrSectors + (s.reqs n).hardNrSectors } with queue := s.queue.erase n }
  have hnext : u.next = update s.next (s.reqs r).bhtail (s.reqs n).bh := next_setReqnext _
  have hio : u.io = s.io := io_setReqnext _
  have hreq : u.reqs r = { s.reqs r with
      bhtail := (s.reqs n).bhtail
      nrSectors := (s.reqs r).hardNrSectors + (s.reqs n).hardNrSectors
      hardNrSectors := (s.reqs r).hardNrSectors + (s.reqs n).hardNrSectors } :=
    update_self ..
  have hreqs : ∀ k, k ≠ r → u.reqs k = s.reqs k := fun k hk => update_of_ne hk _ _
  have hbhs : ∀ c, c ≠ (s.reqs r).bhtail → u.bhs c = s.bhs c := fun c hc => bhs_setReqnext_of_ne _ hc
  have hqueue : u.queue = (g₁ ++ (r, l ++ m) :: g₂).map Prod.fst := by
    show s.queue.erase n = _
    rw [h.queue, hassoc, map_append, erase_append_right]
    · simp
    · intro hmem
      obtain ⟨p, hp, heq⟩ := mem_map.1 hmem
      rcases mem_append.1 hp with hp | hp
      · exact hne' p (mem_append_left _ hp) heq
      · rw [mem_singleton] at hp
        subst hp
        exact hnr heq.symm
  have hkeeps : Keeps s u (g₁ ++ g₂) := by
    intro p hp
    refine ⟨hreqs _ (hne p (mem_middle hp)), fun c hc => hbhs c ?_⟩
    rintro rfl
    exact hdisj _ hzl (mem_append_left _ (mem_flatMap_of_mem (mem_middle hp) hc))
  have hok : ReqOk C cmdOf u r (l ++ m) := by
    have hlm : (l ++ m).Nodup := nodup_append.2 ⟨hnodup, h'.disjoint.1, fun a ha c hc hac =>
      hdisj a ha (by simp [hac, hc])⟩
    refine hr.piece.append hn.piece hlm hdev hcmd hsector hbound hnext hio hreq ?_ hr.hardSector
    rw [hr.hardNr, hn.hardNr]
  have hflat : (g₁ ++ (r, l ++ m) :: g₂).flatMap Prod.snd =
      (g₁ ++ (r, l) :: (n, m) :: g₂).flatMap Prod.snd := by simp
  have hinv : Inv C cmdOf R u (g₁ ++ (r, l ++ m) :: g₂) pend (n :: held) := by
    refine h.rearrange hqueue ?_ (by rw [hflat]) ?_ ?_ (freeList_update rfl) hio
      (lock_setReqnext _) rfl
    · exact reqs_middle (fun p hp => h.reqs p (hold p hp)) (fun p hp => by rw [(hkeeps p hp).1])
        (fun p hp => (hkeeps p hp).2) hok
    · intro c hc
      rw [hflat] at hc
      refine ⟨hc, congrArg Bh.reqnext (hbhs c ?_)⟩
      rintro rfl
      exact hc (mem_flatMap_of_mem (a := (r, l)) (by simp) hzl)
    · rw [hqueue, h.queue]
      simp only [map_append, append_assoc]
      refine Perm.append_left _ (Perm.cons _ ?_)
      exact perm_middle
  obtain ⟨hrel, hkeeps'⟩ := hinv.release
  exact ⟨hrel, hkeeps.trans (hkeeps'.mono fun _ => mem_middle)⟩

end Changes

end PsxLinux.Blk
