import PsxLinux.Blk.MakeTheorems

/-!
# Runs of the request queue

Any number of calls of `__make_request`, of completions and of unplugging, in any order. What the
queue needs of the calls is in `Inv`, with the buffers `pend` and the requests `held` that belong to
calls in progress; a run adds the count of the calls of `b_end_io`.

Consecutive sectors are consecutive in the arithmetic of 32-bit sector numbers. A buffer that ends at
the last sector number is merged with one at sector 0.
-/

namespace PsxLinux.Blk

open Lib Function List
open Lib.TailQueue (Chain)

/-! ### Calls and events -/

/-- The buffer of a call that is not in the queue yet. -/
def Call.bh : Call → Option Nat
  | .waiting b _ => some b
  | .again b _ _ => some b
  | .release _ => none

/-- The request that a call has. -/
def Call.req : Call → Option Nat
  | .waiting _ _ => none
  | .again _ _ r => some r
  | .release r => some r

namespace Queue

def pend (s : Queue) : List Nat := s.calls.filterMap Call.bh

def held (s : Queue) : List Nat := s.calls.filterMap Call.req

end Queue

/-- How often a buffer was submitted. -/
def submitted (es : List Event) (b : Nat) : Nat :=
  es.countP fun e => match e with
    | .submitted c _ => c == b
    | .ended _ => false

def ended (es : List Event) (b : Nat) : Nat := es.count (.ended b)

/-- The command of the last submission of a buffer. -/
def cmdOf (es : List Event) (b : Nat) : Option Cmd :=
  es.foldl (fun o e => match e with
    | .submitted c cmd => if c = b then some cmd else o
    | .ended _ => o) none

lemma cmdOf_submitted (es : List Event) (b c : Nat) (cmd : Cmd) :
    cmdOf (es ++ [.submitted b cmd]) c = if b = c then some cmd else cmdOf es c := by
  simp [cmdOf]

lemma cmdOf_ended (es : List Event) (b c : Nat) : cmdOf (es ++ [.ended b]) c = cmdOf es c := by
  simp [cmdOf]

lemma cmdOf_submitted_ended (es : List Event) (b d : Nat) (cmd : Cmd) :
    cmdOf (es ++ [.submitted b cmd, .ended d]) = cmdOf (es ++ [.submitted b cmd]) := by
  funext c
  simp [cmdOf]

variable {C : Config} {R : Io → Prop} {s t : Queue} {g : List (Nat × List Nat)}
  {pend held pend' held' : List Nat} {b : Nat}

/-! ### Submitting and giving up -/

lemma Inv.perm {cmdOf : Nat → Option Cmd} (h : Inv C cmdOf R s g pend held)
    (hpend : pend'.Perm pend) (hheld : held'.Perm held) : Inv C cmdOf R s g pend' held' := by
  exact h.rearrange h.queue h.reqs (hpend.append_left _) (fun _ hb => ⟨hb, rfl⟩)
    (hheld.append_left _) (fun _ => rfl) rfl (fun _ => rfl) rfl

variable {cmds : Nat → Option Cmd}

lemma Inv.congr_cmd {cmds' : Nat → Option Cmd} (h : Inv C cmds R s g pend held)
    (hcmds : ∀ c ∈ g.flatMap Prod.snd, cmds' c = cmds c) : Inv C cmds' R s g pend held := by
  refine { h with reqs := fun p hp => ?_ }
  have hr := h.reqs p hp
  refine { hr with cmd := fun c hc => ?_ }
  rw [hcmds c (mem_flatMap_of_mem hp hc)]
  exact hr.cmd c hc

/-- **A buffer is submitted.** -/
theorem Inv.submit (h : Inv C cmds R s g pend held) (hlock : (s.bhs b).lock = false) {io : Io}
    (hio : R io) :
    let t : Queue := { s with bhs := update s.bhs b { s.bhs b with io := io, lock := true } }
    Inv C cmds R t g (b :: pend) held ∧ Keeps s t g := by
  intro t
  have hfresh : b ∉ g.flatMap Prod.snd ++ pend := by
    intro hmem
    rw [(h.lock b).2 hmem] at hlock
    cases hlock
  have hbhs : ∀ c, c ≠ b → t.bhs c = s.bhs c := fun c hc => update_of_ne hc _ _
  have hkeeps : Keeps s t g := by
    intro p hp
    refine ⟨rfl, fun c hc => hbhs c ?_⟩
    rintro rfl
    exact hfresh (mem_append_left _ (mem_flatMap_of_mem hp hc))
  refine ⟨⟨h.queue, ?_, ?_, ?_, ?_, h.own, h.used, ?_⟩, hkeeps⟩
  · exact fun p hp => (h.reqs p hp).congr rfl (hkeeps p hp).2
  · rw [nodup_middle, nodup_cons]
    exact ⟨hfresh, h.flight⟩
  · intro c hc
    by_cases hcb : c = b
    · subst hcb
      show (update s.bhs c _ c).reqnext = none
      rw [update_self]
      exact h.ends c hc
    · rw [Queue.next, hbhs c hcb]
      exact h.ends c hc
  · intro c hc
    by_cases hcb : c = b
    · subst hcb
      show R (update s.bhs c _ c).io
      rw [update_self]
      exact hio
    · rw [Queue.io, hbhs c hcb]
      apply h.range
      rw [mem_append, mem_cons] at hc
      rw [mem_append]
      tauto
  · intro c
    by_cases hcb : c = b
    · subst hcb
      show (update s.bhs c _ c).lock ↔ _
      simp
    · rw [hbhs c hcb, h.lock]
      simp [hcb]

lemma Inv.cancel (h : Inv C cmds R s g (b :: pend) held) :
    Inv C cmds R (s.unlock b) g pend held ∧ Keeps s (s.unlock b) g := by
  have hflight := h.flight
  rw [nodup_middle, nodup_cons] at hflight
  have hbhs : ∀ c, c ≠ b → (s.unlock b).bhs c = s.bhs c := fun c hc => update_of_ne hc _ _
  have hself : (s.unlock b).bhs b = { s.bhs b with lock := false } := update_self ..
  have hkeeps : Keeps s (s.unlock b) g := by
    intro p hp
    refine ⟨rfl, fun c hc => hbhs c ?_⟩
    rintro rfl
    exact hflight.1 (mem_append_left _ (mem_flatMap_of_mem hp hc))
  refine ⟨⟨h.queue, ?_, hflight.2, ?_, ?_, h.own, h.used, ?_⟩, hkeeps⟩
  · exact fun p hp => (h.reqs p hp).congr rfl (hkeeps p hp).2
  · intro c hc
    by_cases hcb : c = b
    · subst hcb
      rw [Queue.next, hself]
      exact h.ends c hc
    · rw [Queue.next, hbhs c hcb]
      exact h.ends c hc
  · intro c hc
    rw [Queue.io, hbhs c (ne_of_mem_of_not_mem hc hflight.1)]
    apply h.range
    rw [mem_append]
    rw [mem_append] at hc
    tauto
  · intro c
    by_cases hcb : c = b
    · subst hcb
      rw [hself]
      simpa using hflight.1
    · rw [hbhs c hcb, h.lock]
      simp [hcb]

/-! ### The invariant of a run -/

/-- The queue between two steps. -/
structure Good (C : Config) (R : Io → Prop) (s : Queue) (es : List Event)
    (g : List (Nat × List Nat)) : Prop where
  inv : Inv C (cmdOf es) R s g s.pend s.held
  cmds : ∀ c ∈ s.calls, match c with
    | .waiting b cmd => cmdOf es b = some cmd
    | .again b cmd _ => cmdOf es b = some cmd
    | .release _ => True
  count : ∀ b, submitted es b = ended es b + (g.flatMap Prod.snd ++ s.pend).count b

lemma calls_perm {c : Call} (hc : c ∈ s.calls) :
    s.pend.Perm (c.bh.toList ++ (s.endCall c).pend) ∧
      s.held.Perm (c.req.toList ++ (s.endCall c).held) := by
  have hperm := perm_cons_erase hc
  constructor
  · refine (hperm.filterMap Call.bh).trans ?_
    cases c <;> exact Perm.refl _
  · refine (hperm.filterMap Call.req).trans ?_
    cases c <;> exact Perm.refl _

lemma Good.inv_endCall {es : List Event} {c : Call} (h : Good C R s es g) (hc : c ∈ s.calls) :
    Inv C (cmdOf es) R (s.endCall c) g (c.bh.toList ++ (s.endCall c).pend)
      (c.req.toList ++ (s.endCall c).held) := by
  obtain ⟨hpend, hheld⟩ := calls_perm hc
  have hsame : Inv C (cmdOf es) R (s.endCall c) g s.pend s.held := h.inv.congr
  exact hsame.perm hpend.symm hheld.symm

lemma Good.count_perm {es : List Event} (h : Good C R s es g) (hpend : s.pend.Perm pend) (b : Nat) :
    submitted es b = ended es b + (g.flatMap Prod.snd ++ pend).count b := by
  rw [h.count, (hpend.append_left _).count_eq b]

/-- What one step does to an invariant: it is kept, and no step but a completion changes the head
request of an unplugged queue. -/
def StepOk (C : Config) (R : Io → Prop) (s : Queue) (g : List (Nat × List Nat)) (es : List Event)
    (act : Act) (t : Queue) (fs : List Event) : Prop :=
  ∃ g', Good C R t (es ++ fs) g' ∧ (act ≠ .complete → HeadKept s t g g')

section Steps

variable {es : List Event} {cmd : Cmd}

lemma Good.stepOk {act : Act} (h : Good C R t es g) (hkeeps : Keeps s t g) :
    StepOk C R s g es act t [] :=
  ⟨g, by rwa [append_nil], fun _ => hkeeps.headKept⟩

lemma good_out {f : Option Nat} {g' : List (Nat × List Nat)} {fs : List Event} {o : List Call}
    (hinv : Inv C (cmdOf (es ++ fs)) R t g' pend (f.toList ++ held)) (htakes : Takes b g g')
    (hcalls : t.calls = o) (hpend : (o.filterMap Call.bh).Perm pend)
    (hheld : (o.filterMap Call.req).Perm held)
    (hcmds : ∀ c ∈ o, match c with
      | .waiting b cmd => cmdOf (es ++ fs) b = some cmd
      | .again b cmd _ => cmdOf (es ++ fs) b = some cmd
      | .release _ => True)
    (hcount : ∀ c, submitted (es ++ fs) c =
      ended (es ++ fs) c + (g.flatMap Prod.snd ++ (b :: pend)).count c) :
    Good C R (t.leave b cmd (.out f)) (es ++ fs) g' := by
  have hflat : ∀ c, (g'.flatMap Prod.snd ++ pend).count c =
      (g.flatMap Prod.snd ++ (b :: pend)).count c := by
    intro c
    refine Perm.count_eq ?_ c
    refine (htakes.append_right pend).trans ?_
    exact perm_middle.symm
  have hpend' : (t.leave b cmd (.out f)).pend.Perm pend := by
    cases f <;> rw [Queue.leave, Queue.pend, hcalls] <;> exact hpend
  refine ⟨?_, ?_, ?_⟩
  · have hinv' : Inv C (cmdOf (es ++ fs)) R (t.leave b cmd (.out f)) g' pend (f.toList ++ held) :=
      hinv.congr (by cases f <;> exact fun _ => rfl) (by cases f <;> exact fun _ => rfl)
        (by cases f <;> rfl) (by cases f <;> rfl) (by cases f <;> rfl)
    refine hinv'.perm hpend' ?_
    cases f with
    | none => rw [Queue.leave, Queue.held, hcalls]; exact hheld
    | some r => rw [Queue.leave, hcalls]; exact hheld.cons r
  · intro c hc
    cases f with
    | none => exact hcmds c (hcalls ▸ hc)
    | some r =>
      rcases mem_cons.1 hc with rfl | hc
      · trivial
      · exact hcmds c (hcalls ▸ hc)
  · intro c
    rw [hcount, ← hflat]
    congr 1
    exact ((hpend'.append_left _).count_eq c).symm

section

variable (h : Good C R s es g)
include h

lemma step_submit (hR : ∀ io, R io → io.count ≤ C.maxSectors io.rdev)
    {io : Io} {ahead : Bool} (hlock : (s.bhs b).lock = false) (hio : R io) :
    ∃ t fs, step C s (.submit b io cmd ahead) = some (t, fs) ∧
      StepOk C R s g es (.submit b io cmd ahead) t fs := by
  let u : Queue := { s with bhs := update s.bhs b { s.bhs b with io := io, lock := true } }
  have hfresh : b ∉ g.flatMap Prod.snd ++ s.pend := by
    intro hmem
    rw [(h.inv.lock b).2 hmem] at hlock
    cases hlock
  -- the new command concerns no buffer in the queue or in a call
  have hother : ∀ c ∈ g.flatMap Prod.snd ++ s.pend, cmdOf (es ++ [.submitted b cmd]) c = cmdOf es c := by
    intro c hc
    rw [cmdOf_submitted, if_neg]
    rintro rfl
    exact hfresh hc
  have hself : cmdOf (es ++ [.submitted b cmd]) b = some cmd := by rw [cmdOf_submitted, if_pos rfl]
  have hcallcmds : ∀ c ∈ s.calls, match c with
      | .waiting b' cmd' => cmdOf (es ++ [.submitted b cmd]) b' = some cmd'
      | .again b' cmd' _ => cmdOf (es ++ [.submitted b cmd]) b' = some cmd'
      | .release _ => True := by
    intro c hc
    have hcall := h.cmds c hc
    have hbh : ∀ d, c.bh = some d → cmdOf (es ++ [.submitted b cmd]) d = cmdOf es d :=
      fun d hd => hother d (mem_append_right _ (mem_filterMap.2 ⟨c, hc, hd⟩))
    cases c with
    | waiting b' cmd' => exact (hbh b' rfl).trans hcall
    | again b' cmd' r => exact (hbh b' rfl).trans hcall
    | release r => trivial
  obtain ⟨hinv, hkeeps⟩ := h.inv.submit hlock hio
  have hplain : Inv C (cmdOf (es ++ [.submitted b cmd])) R u g (b :: s.pend)
      (none.toList ++ s.held) :=
    hinv.congr_cmd fun c hc => hother c (mem_append_left _ hc)
  have hcount : ∀ c, submitted (es ++ [.submitted b cmd]) c =
      ended (es ++ [.submitted b cmd]) c + (g.flatMap Prod.snd ++ (b :: s.pend)).count c := by
    intro c
    have hold := h.count c
    have hperm : (g.flatMap Prod.snd ++ (b :: s.pend)).count c =
        (b :: (g.flatMap Prod.snd ++ s.pend)).count c := (perm_middle).count_eq c
    rw [hperm, count_cons]
    simp only [submitted, ended, countP_append, count_append, countP_singleton] at hold ⊢
    simp only [count_singleton, beq_iff_eq, reduceCtorEq, if_false]
    omega
  obtain ⟨hcalls, g', hhead, hout⟩ := hplain.makeRequest hself hR
  have hhead' : HeadKept s (u.makeRequest C b cmd none).1 g g' := fun hplug p hp =>
    ⟨(hhead hplug p hp).1, (hkeeps.headKept hplug p hp).2.trans (hhead hplug p hp).2⟩
  have hcalls' : (u.makeRequest C b cmd none).1.calls = s.calls := hcalls
  have hstep : step C s (.submit b io cmd ahead) =
      if ahead ∧ (u.makeRequest C b cmd none).2 = .noRequest then
        some ((u.makeRequest C b cmd none).1.unlock b, [.submitted b cmd, .ended b])
      else some ((u.makeRequest C b cmd none).1.leave b cmd (u.makeRequest C b cmd none).2,
        [.submitted b cmd]) := rfl
  rw [hstep]
  revert hout hhead' hcalls'
  generalize u.makeRequest C b cmd none = res
  obtain ⟨t, o⟩ := res
  intro hout hhead' hcalls'
  cases o with
  | out f =>
    rw [if_neg (by simp)]
    refine ⟨_, _, rfl, g', ?_, fun _ => ?_⟩
    · exact good_out hout.1 hout.2 hcalls' (Perm.refl _) (Perm.refl _) hcallcmds hcount
    · cases f with
      | none => exact hhead'
      | some r => exact hhead'
  | noRequest =>
    obtain ⟨-, hwait, rfl⟩ := hout
    by_cases hahead : ahead
    · -- a read-ahead ends at once
      rw [if_pos ⟨hahead, rfl⟩]
      obtain ⟨hcancel, hkeepsCancel⟩ := hwait.cancel
      have hpend : (t.unlock b).pend = s.pend := by
        rw [Queue.pend, show (t.unlock b).calls = s.calls from hcalls']
        rfl
      have hheld : (t.unlock b).held = s.held := by
        rw [Queue.held, show (t.unlock b).calls = s.calls from hcalls']
        rfl
      refine ⟨_, _, rfl, g', ⟨?_, ?_, ?_⟩, fun _ => ?_⟩
      · rw [hpend, hheld, cmdOf_submitted_ended]
        exact hcancel
      · rw [show (t.unlock b).calls = s.calls from hcalls', cmdOf_submitted_ended]
        exact hcallcmds
      · intro c
        rw [hpend]
        have hnew := hcount c
        simp only [submitted, ended, countP_append, count_append, countP_cons,
          countP_nil, count_cons, count_nil, beq_iff_eq, reduceCtorEq, if_false,
          Event.ended.injEq, Bool.false_eq_true] at hnew ⊢
        omega
      · intro hplug p hp
        obtain ⟨hfirst, hsame⟩ := hhead' hplug p hp
        exact ⟨hfirst, hsame.trans (hkeepsCancel.mono fun q hq => by
          rw [mem_singleton.1 hq]; exact mem_of_mem_head? hp)⟩
    · -- the call waits
      rw [if_neg fun hand => hahead hand.1]
      refine ⟨_, _, rfl, g', ⟨?_, ?_, ?_⟩, fun _ => hhead'⟩
      · have hpend : (t.leave b cmd .noRequest).pend = b :: s.pend := by
          rw [Queue.leave, hcalls']
          rfl
        have hheld : (t.leave b cmd .noRequest).held = s.held := by
          rw [Queue.leave, hcalls']
          rfl
        rw [hpend, hheld]
        exact hwait.congr
      · intro c hc
        rw [Queue.leave, hcalls'] at hc
        rcases mem_cons.1 hc with rfl | hc
        · exact hself
        · exact hcallcmds c hc
      · intro c
        rw [Queue.leave, hcalls']
        exact hcount c

/-- A call that waits gets a request, or unplugs the queue. -/
lemma step_grab (hcall : .waiting b cmd ∈ s.calls) :
    ∃ t fs, step C s (.grab b cmd) = some (t, fs) ∧ StepOk C R s g es (.grab b cmd) t fs := by
  obtain ⟨hpend, hheld⟩ := calls_perm hcall
  unfold step
  dsimp only
  cases hget : s.getRequest cmd with
  | none =>
    have hgood : Good C R { s with plugged := false } es g := ⟨h.inv.congr, h.cmds, h.count⟩
    exact ⟨_, _, rfl, hgood.stepOk (Keeps.refl s g)⟩
  | some res =>
    obtain ⟨r, t⟩ := res
    obtain ⟨hinv, hkeeps, hcalls, hplug⟩ := h.inv.getRequest hget
    let u : Queue := { t.endCall (.waiting b cmd) with
      calls := .again b cmd r :: (t.endCall (.waiting b cmd)).calls }
    have hend : (t.endCall (.waiting b cmd)).calls = (s.endCall (.waiting b cmd)).calls := by
      rw [Queue.endCall, Queue.endCall, hcalls]
    have hpend' : u.pend.Perm s.pend := by
      rw [Queue.pend, show u.calls = .again b cmd r :: (t.endCall (.waiting b cmd)).calls from rfl, hend]
      exact hpend.symm
    have hheld' : u.held.Perm (r :: s.held) := by
      rw [Queue.held, show u.calls = .again b cmd r :: (t.endCall (.waiting b cmd)).calls from rfl, hend]
      exact (hheld.symm).cons r
    have hinv' : Inv C (cmdOf es) R u g s.pend (r :: s.held) := hinv.congr
    have hgood : Good C R u es g := by
      refine ⟨hinv'.perm hpend' hheld', fun c hc => ?_, h.count_perm hpend'.symm⟩
      rcases mem_cons.1 hc with rfl | hc
      · exact h.cmds _ hcall
      · rw [hend] at hc
        exact h.cmds c (mem_of_mem_erase hc)
    exact ⟨u, _, rfl, hgood.stepOk hkeeps⟩

lemma step_retry (hR : ∀ io, R io → io.count ≤ C.maxSectors io.rdev) {r : Nat}
    (hcall : .again b cmd r ∈ s.calls) :
    ∃ t fs, step C s (.retry b cmd r) = some (t, fs) ∧ StepOk C R s g es (.retry b cmd r) t fs := by
  let u : Queue := s.endCall (.again b cmd r)
  have hinv : Inv C (cmdOf es) R u g (b :: u.pend) ((some r).toList ++ u.held) := h.inv_endCall hcall
  obtain ⟨hcalls, g', hhead, hout⟩ := hinv.makeRequest (h.cmds _ hcall) hR
  have hhead' : HeadKept s (u.makeRequest C b cmd (some r)).1 g g' := hhead
  have hcount : ∀ c, submitted (es ++ []) c =
      ended (es ++ []) c + (g.flatMap Prod.snd ++ (b :: u.pend)).count c := by
    rw [append_nil]
    exact h.count_perm (calls_perm hcall).1
  have hstep : step C s (.retry b cmd r) = some ((u.makeRequest C b cmd (some r)).1.leave b cmd
      (u.makeRequest C b cmd (some r)).2, []) := rfl
  rw [hstep]
  revert hout hhead' hcalls
  generalize u.makeRequest C b cmd (some r) = res
  obtain ⟨t, o⟩ := res
  intro hcalls hout hhead'
  cases o with
  | out f =>
    refine ⟨_, _, rfl, g', ?_, fun _ => ?_⟩
    · refine good_out (by rw [append_nil]; exact hout.1) hout.2 hcalls (Perm.refl _)
        (Perm.refl _) ?_ hcount
      rw [append_nil]
      exact fun c hc => h.cmds c (mem_of_mem_erase hc)
    · cases f with
      | none => exact hhead'
      | some r => exact hhead'
  | noRequest => cases hout.1

lemma step_release {r : Nat} (hcall : .release r ∈ s.calls) :
    ∃ t fs, step C s (.release r) = some (t, fs) ∧ StepOk C R s g es (.release r) t fs := by
  let u : Queue := s.endCall (.release r)
  have hinv : Inv C (cmdOf es) R u g u.pend (r :: u.held) := h.inv_endCall hcall
  obtain ⟨hrel, hkeeps⟩ := hinv.release
  have hcalls : (u.blkdevReleaseRequest r).calls = u.calls := sameCalls_release.1
  have hgood : Good C R (u.blkdevReleaseRequest r) es g := by
    constructor
    · rw [Queue.pend, Queue.held, hcalls]
      exact hrel
    · rw [hcalls]
      exact fun c hc => h.cmds c (mem_of_mem_erase hc)
    · rw [Queue.pend, hcalls]
      exact h.count_perm (calls_perm hcall).1
  exact ⟨_, [], rfl, hgood.stepOk hkeeps⟩

lemma step_complete (hqueue : s.queue ≠ []) :
    ∃ t fs, step C s .complete = some (t, fs) ∧ StepOk C R s g es .complete t fs := by
  cases g with
  | nil => exact absurd h.inv.queue hqueue
  | cons p g =>
    obtain ⟨r, l⟩ := p
    have hr : ReqOk C (cmdOf es) s r l := h.inv.reqs (r, l) (by simp)
    obtain ⟨b, l, rfl⟩ := exists_cons_of_ne_nil hr.ne_nil
    obtain ⟨t, g', hend, hinv, hflat, hcalls⟩ := h.inv.endRequest
    have hpend : t.pend = s.pend := by rw [Queue.pend, hcalls]; rfl
    have hheld : t.held = s.held := by rw [Queue.held, hcalls]; rfl
    have hcmds : ∀ c, cmdOf (es ++ [.ended b]) c = cmdOf es c := cmdOf_ended es b
    refine ⟨t, [.ended b], hend, g', ⟨?_, ?_, ?_⟩, absurd rfl⟩
    · rw [hpend, hheld]
      exact hinv.congr_cmd fun c _ => hcmds c
    · rw [hcalls, funext hcmds]
      exact h.cmds
    · intro c
      have hold := h.count c
      rw [flatMap_cons, cons_append, cons_append, count_cons] at hold
      rw [hpend, hflat]
      simp only [submitted, ended, countP_append, count_append, countP_singleton,
        count_singleton, beq_iff_eq, Event.ended.injEq, Bool.false_eq_true, if_false] at hold ⊢
      omega

/-- **A step** keeps the invariant. -/
theorem step_ok (hR : ∀ io, R io → io.count ≤ C.maxSectors io.rdev) {act : Act}
    (hact : act.Enabled C s) (hrange : ∀ b io cmd ahead, act = .submit b io cmd ahead → R io) :
    ∃ t fs, step C s act = some (t, fs) ∧ StepOk C R s g es act t fs := by
  cases act with
  | submit b io cmd ahead => exact step_submit h hR hact.1 (hrange b io cmd ahead rfl)
  | grab b cmd => exact step_grab h hact
  | retry b cmd r => exact step_retry h hR hact
  | release r => exact step_release h hact
  | unplug =>
    have hgood : Good C R { s with plugged := false } es g := ⟨h.inv.congr, h.cmds, h.count⟩
    exact ⟨_, _, rfl, hgood.stepOk (Keeps.refl s g)⟩
  | complete => exact step_complete h hact

end

end Steps

/-! ### Runs -/

/-- A queue set up by `blk_init_queue`, with no buffer submitted. -/
structure Queue.Initial (s : Queue) : Prop where
  queue : s.queue = []
  freelist : s.freelist = Queue.blkInitFreeList
  calls : s.calls = []
  bhs : ∀ b, (s.bhs b).reqnext = none ∧ (s.bhs b).lock = false

lemma Queue.Initial.good (h : s.Initial) : Good C R s [] [] := by
  refine ⟨⟨h.queue, by simp, ?_, fun b _ => (h.bhs b).1, ?_, ?_, ?_, ?_⟩, ?_, ?_⟩
  · rw [Queue.pend, h.calls]
    exact nodup_nil
  · rw [Queue.pend, h.calls]
    simp
  · rw [Queue.held, h.freelist, h.queue, h.calls, filterMap_nil, append_nil, append_nil]
    decide +kernel
  · rw [Queue.held, h.calls, h.queue]
    simp
  · intro b
    rw [(h.bhs b).2, Queue.pend, h.calls]
    simp
  · rw [h.calls]
    simp
  · intro b
    rw [Queue.pend, h.calls]
    rfl

/-- The buffers submitted end before the last sector number. -/
def Act.InRange : Act → Prop
  | .submit _ io _ _ => io.rsector.toNat + io.count < 2 ^ 32
  | _ => True

instance (act : Act) : Decidable act.InRange :=
  match act with
  | .submit _ _ _ _ => inferInstanceAs (Decidable (_ < _))
  | .grab .. | .retry .. | .release _ | .unplug | .complete => inferInstanceAs (Decidable True)

lemma run_good {s₀ : Queue} {acts : List Act} {es : List Event} (h₀ : s₀.Initial)
    (hR : ∀ io, R io → io.count ≤ C.maxSectors io.rdev)
    (hrun : Exec (step C) (fun s act => act.Enabled C s ∧
      ∀ b io cmd ahead, act = .submit b io cmd ahead → R io) s₀ acts es s) :
    ∃ g, Good C R s es g := by
  refine hrun.invariant (P := fun s es => ∃ g, Good C R s es g) ⟨[], h₀.good⟩ ?_
  rintro t es act u fs ⟨g, hg⟩ ⟨henabled, hrange⟩ hstep
  obtain ⟨u', fs', hstep', g', hg', -⟩ := step_ok hg hR henabled hrange
  obtain ⟨rfl, rfl⟩ := Prod.mk.inj (Option.some.inj (hstep.symm.trans hstep'))
  exact ⟨g', hg'⟩

/-- What is guarded by `Enabled` is within the limit of its device. -/
lemma enabled_count {act : Act} (h : act.Enabled C s) (b : Nat) (io : Io) (cmd : Cmd) (ahead : Bool)
    (hact : act = .submit b io cmd ahead) : io.count ≤ C.maxSectors io.rdev := by
  subst hact
  exact h.2.2.1

/-- The chain of a queued request. -/
structure Sound (s : Queue) (es : List Event) (r : Nat) (l : List Nat) : Prop where
  ne_nil : l ≠ []
  chain : Chain s.next (s.reqs r).bh l
  tail : l.getLast? = some (s.reqs r).bhtail
  dev : ∀ b ∈ l, (s.io b).rdev = (s.reqs r).rqDev
  cmd : ∀ b ∈ l, cmdOf es b = some (s.reqs r).cmd
  sectors : Consecutive s.io (s.reqs r).sector l
  total : total s.io l = (s.reqs r).nrSectors
  hard : (s.reqs r).hardNrSectors = (s.reqs r).nrSectors

/-- **The request queue.** In every run: each queued request has a chain from `bh` to `bhtail`, on one
device with one command, with sizes that sum up to `nr_sectors` and consecutive sectors, where
sectors are consecutive as numbers if no buffer submitted reaches the last sector number; `b_end_io` is
called at most once for each submission, and exactly once for those not in a call when the queue is
empty; while the queue is unplugged its head request is changed by completions only; every request is
on a free list once or in use once; and no step gets stuck. -/
theorem request_queue {C : Config} {s₀ s : Queue} {acts : List Act} {es : List Event}
    (h₀ : s₀.Initial) (hrun : Exec (step C) (fun s act => act.Enabled C s) s₀ acts es s) :
    (∀ r ∈ s.queue, ∃ l, Sound s es r l ∧
      ((∀ act ∈ acts, act.InRange) → ConsecutiveNat s.io (s.reqs r).sector.toNat l)) ∧
    (∀ b, ended es b ≤ submitted es b ∧ submitted es b ≤ ended es b + 1 ∧
      (s.queue = [] → submitted es b = ended es b + s.pend.count b)) ∧
    (∀ act t fs, act ≠ .complete → act.Enabled C s → step C s act = some (t, fs) →
      s.plugged = false → ∀ r, s.queue.head? = some r → t.queue.head? = some r ∧
        t.reqs r = s.reqs r ∧ ∀ l, Chain s.next (s.reqs r).bh l → ∀ b ∈ l, t.bhs b = s.bhs b) ∧
    (∀ r < queueNrRequests,
      (s.freelist .read ++ s.freelist .write ++ (s.queue ++ s.held)).count r = 1) ∧
    ∀ act : Act, act.Enabled C s → (step C s act).isSome := by
  have hplain : ∃ g, Good C (fun io => io.count ≤ C.maxSectors io.rdev) s es g := by
    refine run_good h₀ (fun _ h => h) (hrun.mono ?_)
    exact fun s act h => ⟨h, enabled_count h⟩
  obtain ⟨g, hg⟩ := hplain
  refine ⟨?_, ?_, ?_, ?_, ?_⟩
  · -- in range or not, the same invariant with more or less known of the buffers
    have hsound : ∀ {R : Io → Prop} {g}, Good C R s es g → ∀ p ∈ g, Sound s es p.1 p.2 := by
      intro R g hg p hp
      have hr := hg.inv.reqs p hp
      exact ⟨hr.ne_nil, hr.chain, hr.tail, hr.dev, hr.cmd, hr.sectors, hr.total, hr.hardNr⟩
    intro r hr
    by_cases hall : ∀ act ∈ acts, act.InRange
    · have hranged : ∃ g, Good C (fun io => io.count ≤ C.maxSectors io.rdev ∧
          io.rsector.toNat + io.count < 2 ^ 32) s es g := by
        refine run_good h₀ (fun _ h => h.1) ((hrun.and_of_forall_mem hall).mono ?_)
        rintro s act ⟨henabled, hrange⟩
        refine ⟨henabled, ?_⟩
        rintro b io cmd ahead rfl
        exact ⟨henabled.2.2.1, hrange⟩
      obtain ⟨g', hg'⟩ := hranged
      rw [hg'.inv.queue] at hr
      obtain ⟨⟨r', l⟩, hp, rfl⟩ := mem_map.1 hr
      refine ⟨l, hsound hg' _ hp, fun _ => ?_⟩
      refine (hg'.inv.reqs _ hp).sectors.toNat fun b hb => ?_
      exact (hg'.inv.range b (mem_append_left _ (mem_flatMap_of_mem hp hb))).2
    · rw [hg.inv.queue] at hr
      obtain ⟨⟨r', l⟩, hp, rfl⟩ := mem_map.1 hr
      exact ⟨l, hsound hg _ hp, fun h => absurd h hall⟩
  · intro b
    have hcount := hg.count b
    have hone := nodup_iff_count_le_one.1 hg.inv.flight b
    refine ⟨by omega, by omega, ?_⟩
    intro hempty
    have hnil : g = [] := by
      have hq := hg.inv.queue
      rw [hempty] at hq
      exact map_eq_nil_iff.1 hq.symm
    rw [hnil] at hcount
    exact hcount
  · intro act t fs hact henabled hstep hplug r hr
    obtain ⟨t', fs', hstep', g', hg', hhead⟩ := step_ok hg (fun _ h => h) henabled
      (enabled_count henabled)
    obtain ⟨rfl, rfl⟩ := Prod.mk.inj (Option.some.inj (hstep.symm.trans hstep'))
    rw [hg.inv.queue, head?_map] at hr
    obtain ⟨⟨r', l⟩, hp, rfl⟩ := Option.map_eq_some_iff.1 hr
    obtain ⟨hfirst, hkeeps⟩ := hhead hact hplug _ hp
    have hsame := hkeeps (r', l) (by simp)
    refine ⟨?_, hsame.1, ?_⟩
    · rw [hg'.inv.queue, head?_map, hfirst]
      rfl
    · intro l' hl' b hb
      have hchain := (hg.inv.reqs _ (mem_of_mem_head? hp)).chain
      rw [TailQueue.Chain.unique hl' hchain] at hb
      exact hsame.2 b hb
  · intro r hr
    rw [hg.inv.own.count_eq r]
    exact count_eq_one_of_mem nodup_range (mem_range.2 hr)
  · intro act henabled
    obtain ⟨t, fs, hstep, -⟩ := step_ok hg (fun _ h => h) henabled (enabled_count henabled)
    rw [hstep]
    rfl

/-- The default limit for every device, and the latencies of `ELEVATOR_LINUS`. -/
def defaultConfig : Config where
  maxSectors := fun _ => 254
  latency := fun cmd => match cmd with
    | .read => 1000000
    | .write => 2000000

/-- An empty queue. -/
def emptyQueue : Queue where
  reqs := fun _ => ⟨0, none, 0, .read, 0, 0, 0, 0, 0, 0, none, 0, false⟩
  bhs := fun _ => ⟨⟨0, 0, 0, 0⟩, none, false⟩
  freelist := Queue.blkInitFreeList
  queue := []
  plugged := false
  calls := []

lemma emptyQueue_initial : emptyQueue.Initial := by
  constructor
  · rfl
  · simp only [emptyQueue]
  · rfl
  · exact fun b => ⟨rfl, rfl⟩

/-- Three buffers of which the last bridges the others, and the end of the first. -/
theorem request_queue_bridged : ∃ s es, Exec (step defaultConfig)
      (fun s act => act.Enabled defaultConfig s) emptyQueue
      [.submit 0 ⟨1, 8, 1024, 0⟩ .read false, .submit 1 ⟨1, 12, 1024, 4096⟩ .read false,
        .submit 2 ⟨1, 10, 1024, 8192⟩ .read true, .unplug, .complete] es s ∧
    (s.queue = [254] ∧ (s.reqs 254).bh = some 2 ∧ (s.reqs 254).nrSectors = 4) ∧
    ended es 0 = 1 ∧
    ∃ l, Sound s es 254 l ∧ ConsecutiveNat s.io (s.reqs 254).sector.toNat l := by
  refine Exec.exists_of_decide (fun s es =>
    (s.queue = [254] ∧ (s.reqs 254).bh = some 2 ∧ (s.reqs 254).nrSectors = 4) ∧ ended es 0 = 1)
    (by decide +kernel) fun s es hexec ⟨hqueue, hended⟩ => ⟨hqueue, hended, ?_⟩
  obtain ⟨l, hsound, hnat⟩ := (request_queue emptyQueue_initial hexec).1 254 (by rw [hqueue.1]; simp)
  refine ⟨l, hsound, hnat ?_⟩
  simp [Act.InRange, Io.count]

/-- **Sectors wrap around.** A buffer at sector 0 and one that ends at the last sector number become
one request of consecutive sectors. -/
theorem merge_wraps : ∃ s es, Exec (step defaultConfig)
      (fun s act => act.Enabled defaultConfig s) emptyQueue
      [.submit 0 ⟨1, 0, 1024, 0⟩ .read false, .submit 1 ⟨1, 4294967294, 1024, 4096⟩ .read false] es s ∧
    ∃ r ∈ s.queue, ∀ l, Chain s.next (s.reqs r).bh l →
      ¬ ConsecutiveNat s.io (s.reqs r).sector.toNat l := by
  refine Exec.exists_of_decide (fun s _ => s.queue = [254] ∧ (s.reqs 254).bh = some 1 ∧
    s.next 1 = some 0 ∧ s.next 0 = none ∧ (s.reqs 254).sector = 4294967294 ∧ (s.io 0).rsector = 0)
    (by decide +kernel) ?_
  intro s _ _ ⟨hqueue, hbh, hnext, hend, hsector, hzero⟩
  refine ⟨254, by rw [hqueue]; simp, ?_⟩
  intro l hl hnat
  rw [hbh] at hl
  obtain rfl : l = [1, 0] := hl.unique ⟨rfl, hnext, hend⟩
  have hplace := hnat.2.1
  rw [hzero, hsector] at hplace
  have hnumber : (4294967294 : BitVec 32).toNat = 4294967294 := by decide
  have hstart : (0 : BitVec 32).toNat = 0 := by decide
  omega

end PsxLinux.Blk
