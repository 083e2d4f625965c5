import PsxLinux.MathEmu.InstrTheorems

/-!
# Processes share the library's status register

Every process has its own floating point context, but there is one `ieee754_csr` for all of them.
A process computes what it would compute alone as long as its instructions that round find its own
rounding mode there, and no other process has used the library since its own last operation where
it takes a square root.
-/

namespace PsxLinux.MathEmu

open Lib Mips Function Bool

/-! ## Calls of the emulator -/

def Thread.withCsr (s : Thread) (csr : Csr) : Thread := { s with csr := csr }

/-- What `Isolated` says of an instruction, for a call of the emulator that executes one or none. -/
structure IsolatedAt (o : Option (BitVec 32)) (c : Thread → Option Signal × Thread) (s : Thread) :
    Prop where
  result : ∀ b : Csr, (∀ w ∈ o, Alike w s.csr b) → ∃ b', c (s.withCsr b) =
    ((c s).1, (c s).2.withCsr b') ∧ (o.any writesCx → (c s).2.csr.cx = b'.cx)
  keeps : o.any writesCx = false → (c s).2.csr.cx = s.csr.cx
  flags : (c s).2.csr.flags = s.csr.flags
  mode : s.csr.rm = s.ctx.mode → (c s).2.csr.rm = (c s).2.ctx.mode

namespace IsolatedAt
variable {o : Option (BitVec 32)} {c : Thread → Option Signal × Thread} {s : Thread}

lemma idle (ho : o.any writesCx = false) (sig : Option Signal) (s' : Thread)
    (hc : ∀ b, c (s.withCsr b) = (sig, s'.withCsr b)) (hctx : s'.ctx = s.ctx := by rfl) :
    IsolatedAt o c s := by
  have hself : c s = (sig, s'.withCsr s.csr) := hc s.csr
  constructor
  · intro b _
    exact ⟨b, by rw [hc, hself]; rfl, fun h => absurd (ho.symm.trans h) false_ne_true⟩
  · rw [hself]
    exact fun _ => rfl
  · rw [hself]
    rfl
  · intro hmode
    rw [hself]
    exact hmode.trans (congrArg FpuCtx.mode hctx.symm)

/-- A call that goes on as another one, from a thread that only differs outside. -/
lemma goOn {c' : Thread → Option Signal × Thread} {s' : Thread} (h : IsolatedAt o c' s')
    (hc : ∀ b, c (s.withCsr b) = c' (s'.withCsr b)) (hctx : s'.ctx = s.ctx := by rfl)
    (hcsr : s'.csr = s.csr := by rfl) : IsolatedAt o c s := by
  have hself : c s = c' s' := by
    have hs : c s = c' (s'.withCsr s.csr) := hc s.csr
    rw [hs, ← hcsr]
    rfl
  constructor
  · intro b hab
    rw [hself, hc]
    rw [← hcsr] at hab
    exact h.result b hab
  · rw [hself, ← hcsr]
    exact h.keeps
  · rw [hself, h.flags, hcsr]
  · rw [hself, ← hcsr, ← hctx]
    exact h.mode

end IsolatedAt

section Calls
variable (fault : BitVec 32 → Bool)

lemma isolated_emulPlain (ir contpc : BitVec 32) (s : Thread) :
    IsolatedAt (some ir) (emulPlain fault ir contpc) s := by
  have hinstr := isolated_emulInstr fault s.xcp.cp0Status ir
  constructor
  · intro b hab
    obtain ⟨b', hb, hcx⟩ := hinstr.result s.data b (hab ir rfl)
    have hcall : emulInstr fault (s.withCsr b).xcp.cp0Status ir (s.withCsr b).data = _ := hb
    refine ⟨b', ?_⟩
    rw [emulPlain, hcall, emulPlain]
    rcases hd : emulInstr fault s.xcp.cp0Status ir s.data with ⟨exit, d⟩
    rw [hd] at hcx
    cases exit <;> exact ⟨rfl, hcx⟩
  · intro hno
    have hkeeps := hinstr.keeps hno s.data
    rw [emulPlain]
    rcases hd : emulInstr fault s.xcp.cp0Status ir s.data with ⟨exit, d⟩
    rw [hd] at hkeeps
    cases exit <;> exact hkeeps
  · have hflags := hinstr.flags s.data
    rw [emulPlain]
    rcases hd : emulInstr fault s.xcp.cp0Status ir s.data with ⟨exit, d⟩
    rw [hd] at hflags
    cases exit <;> exact hflags
  · intro hmode
    have hmode' := hinstr.mode s.data hmode
    rw [emulPlain]
    rcases hd : emulInstr fault s.xcp.cp0Status ir s.data with ⟨exit, d⟩
    rw [hd] at hmode'
    cases exit <;> exact hmode'

lemma isolated_mipsDsemul {o : Option (BitVec 32)} (ho : o.any writesCx = false) (ir cpc : BitVec 32)
    (s : Thread) : IsolatedAt o (mipsDsemul fault ir cpc) s := by
  by_cases hnop : ir = 0
  · refine .idle ho none (s.setEpc cpc) fun b => ?_
    rw [mipsDsemul, if_pos hnop]
    rfl
  · have hxcp : ∀ b, (s.withCsr b).xcp = s.xcp := fun _ => rfl
    have hmem : ∀ b, (s.withCsr b).mem = s.mem := fun _ => rfl
    cases h₁ : mipsPutWord fault s.xcp.cp0Status s.mem ((s.xcp.regs 29 &&& ~~~3) - 12) ir with
    | none =>
      refine .idle ho (some .bus) s fun b => ?_
      simp only [mipsDsemul, if_neg hnop, hxcp, hmem, h₁]
    | some mem =>
      cases h₂ : mipsPutWord fault s.xcp.cp0Status mem ((s.xcp.regs 29 &&& ~~~3) - 12 + 4)
          (if s.xcp.regs 29 &&& 3 = 3 then adeload - 1 else adeload) with
      | none =>
        refine .idle ho (some .bus) { s with mem := mem } fun b => ?_
        simp only [mipsDsemul, if_neg hnop, hxcp, hmem, h₁, h₂]
        rfl
      | some mem' =>
        let insns := (s.xcp.regs 29 &&& ~~~3) - 12
        refine .idle ho (some .ill) { s.setEpc insns with
          mem := mem', dsemul := some { epc := cpc, aerpc := insns + 4 } } fun b => ?_
        simp only [mipsDsemul, if_neg hnop, hxcp, hmem, h₁, h₂]
        rfl

/-- The word behind the one at `cp0_epc`, if it can be read. -/
def slotWord (s : Thread) : Option (BitVec 32) :=
  mipsGetWord fault s.xcp.cp0Status s.mem (s.xcp.cp0Epc + 4)

/-- Words that are not emulated do not come near the library. -/
lemma writesCx_of_not_ours {w : BitVec 32} (h : isOurs w = false ∨ isBc w) :
    writesCx w = false := by
  rcases h with h | h
  · refine writesCx_of_opcode (fun hop => ?_) fun hop => ?_
    all_goals simp [isOurs, hop] at h
  · obtain ⟨hop, hrs⟩ : opcode w = 0x11 ∧ rs w = 0x08 := by simpa [isBc] using h
    exact writesCx_of_rs (by rw [hop]; rfl) (by rw [hrs]; decide)

lemma isolated_bcSlot (ir : BitVec 32) (s : Thread) :
    IsolatedAt (slotWord fault s) (bcSlot fault ir) s := by
  let contpc := s.xcp.cp0Epc + 4 + (simm ir <<< 2)
  have hnext : ∀ b, (s.withCsr b).setEpc ((s.withCsr b).xcp.cp0Epc + 4) =
      (s.setEpc (s.xcp.cp0Epc + 4)).withCsr b := fun _ => rfl
  have hword : ∀ b, mipsGetWord fault ((s.setEpc (s.xcp.cp0Epc + 4)).withCsr b).xcp.cp0Status
      ((s.setEpc (s.xcp.cp0Epc + 4)).withCsr b).mem
      ((s.setEpc (s.xcp.cp0Epc + 4)).withCsr b).xcp.cp0Epc = slotWord fault s := fun _ => rfl
  cases hw : slotWord fault s with
  | none =>
    refine .idle rfl (some .bus) (s.setEpc (s.xcp.cp0Epc + 4)) fun b => ?_
    simp only [bcSlot, hnext, hword, hw]
  | some w =>
    by_cases hours : isOurs w
    · by_cases hbc : isBc w
      · refine .idle (writesCx_of_not_ours (.inr hbc)) (some .ill)
          (s.setEpc (s.xcp.cp0Epc + 4)) fun b => ?_
        simp only [bcSlot, hnext, hword, hw, hours, hbc, if_true]
      · refine (isolated_emulPlain fault w contpc (s.setEpc (s.xcp.cp0Epc + 4))).goOn fun b => ?_
        simp only [bcSlot, hnext, hword, hw, hours, hbc, if_true, if_false, false_eq_true]
        rfl
    · have ho : (some w).any writesCx = false :=
        writesCx_of_not_ours (.inl (eq_false_of_not_eq_true hours))
      refine (isolated_mipsDsemul fault ho w contpc (s.setEpc (s.xcp.cp0Epc + 4))).goOn fun b => ?_
      simp only [bcSlot, hnext, hword, hw, hours, if_false, false_eq_true]
      rfl

/-- The instruction that runs from `emul` on: the one given, or the one in the delay slot of a
taken `bc1`. -/
def emulWord (ir : BitVec 32) (s : Thread) : Option (BitVec 32) :=
  if isBc ir then if !s.bd && bcTaken ir s.ctx.sr then slotWord fault s else none else some ir

lemma isolated_emul (ir contpc : BitVec 32) (s : Thread) :
    IsolatedAt (emulWord fault ir s) (emul fault ir contpc) s := by
  by_cases hbc : isBc ir
  · cases hbd : s.bd with
    | true =>
      have hword : emulWord fault ir s = none := by
        simp only [emulWord, hbc, hbd, if_true, Bool.not_true, Bool.false_and, false_eq_true, if_false]
      rw [hword]
      refine .idle rfl (some .ill) s fun b => ?_
      have hbd' : (s.withCsr b).bd := hbd
      simp only [emul, hbc, hbd', if_true]
    | false =>
      have hbd' : ∀ b, (s.withCsr b).bd = false := fun _ => hbd
      by_cases htaken : bcTaken ir s.ctx.sr
      · have hword : emulWord fault ir s = slotWord fault s := by
          simp only [emulWord, hbc, hbd, htaken, if_true, Bool.not_false, Bool.and_self]
        rw [hword]
        refine (isolated_bcSlot fault ir (s.setBd true)).goOn fun b => ?_
        have htaken' : bcTaken ir ((s.withCsr b).setBd true).ctx.sr := htaken
        simp only [emul, hbc, hbd', htaken', false_eq_true]
        rfl
      · have hword : emulWord fault ir s = none := by
          simp only [emulWord, hbc, htaken, if_true, Bool.and_false, false_eq_true, if_false]
        rw [hword]
        refine .idle rfl none ((s.setBd true).setEpc contpc |>.setBd false) fun b => ?_
        have htaken' : ¬ bcTaken ir ((s.withCsr b).setBd true).ctx.sr := htaken
        simp only [emul, hbd', if_false, false_eq_true]
        split_ifs <;> rfl
  · have hword : emulWord fault ir s = some ir := by
      simp only [emulWord, hbc, if_false, false_eq_true]
    rw [hword]
    refine (isolated_emulPlain fault ir contpc s).goOn fun b => ?_
    simp only [emul, hbc, if_false, false_eq_true]

/-- `__compute_return_epc` as `cop1Emulate` calls it. -/
def branchReturn (s : Thread) : Int × PtRegs :=
  computeReturnEpc (fun va => if fault va then none else some (s.mem.word va)) s.ctx.sr s.xcp

/-- The instruction whose effect a call of `cop1Emulate` has, if any. -/
def executed (s : Thread) : Option (BitVec 32) :=
  match mipsGetWord fault s.xcp.cp0Status s.mem s.xcp.cp0Epc with
  | none => none
  | some ir =>
    if s.bd && isBranchInstr ir then
      if (branchReturn fault s).1 ≠ 0 then none
      else
        match mipsGetWord fault (branchReturn fault s).2.cp0Status s.mem (s.xcp.cp0Epc + 4) with
        | none => none
        | some ir => emulWord fault ir { s with xcp := (branchReturn fault s).2 }
    else emulWord fault ir (if s.bd then s.setBd false else s)

lemma executed_withCsr (s : Thread) (b : Csr) : executed fault (s.withCsr b) = executed fault s := by
  have hbd : (s.withCsr b).bd = s.bd := rfl
  unfold executed
  rw [hbd]
  cases s.bd <;> rfl

lemma isolated_cop1Emulate (s : Thread) :
    IsolatedAt (executed fault s) (cop1Emulate fault) s := by
  let s₁ : Thread := { s with xcp := (branchReturn fault s).2 }
  let s₂ := if s.bd then s.setBd false else s
  have hcall : ∀ b, cop1Emulate fault (s.withCsr b) =
      match mipsGetWord fault s.xcp.cp0Status s.mem s.xcp.cp0Epc with
      | none => (some .bus, s.withCsr b)
      | some ir =>
        if s.bd && isBranchInstr ir then
          if (branchReturn fault s).1 ≠ 0 then (some .ill, s₁.withCsr b)
          else
            match mipsGetWord fault (branchReturn fault s).2.cp0Status s.mem (s.xcp.cp0Epc + 4) with
            | none => (some .bus, s₁.withCsr b)
            | some ir => emul fault ir s₁.xcp.cp0Epc (s₁.withCsr b)
        else emul fault ir (s₂.xcp.cp0Epc + 4) (s₂.withCsr b) := by
    intro b
    have hs₂ : (if (s.withCsr b).bd then (s.withCsr b).setBd false else s.withCsr b) =
        s₂.withCsr b := by
      change (if s.bd then (s.setBd false).withCsr b else s.withCsr b) = s₂.withCsr b
      simp only [s₂]
      split_ifs <;> rfl
    unfold cop1Emulate
    simp only [hs₂]
    rfl
  unfold executed
  cases hir : mipsGetWord fault s.xcp.cp0Status s.mem s.xcp.cp0Epc with
  | none =>
    refine .idle rfl (some .bus) s fun b => ?_
    rw [hcall, hir]
  | some ir =>
    by_cases hslot : (s.bd && isBranchInstr ir)
    · simp only [hslot]
      by_cases herr : (branchReturn fault s).1 ≠ 0
      · refine .idle (by simp [herr]) (some .ill) s₁ fun b => ?_
        simp only [hcall, hir, hslot, herr, if_true, ne_eq, not_false_eq_true]
      · simp only [herr]
        cases hw : mipsGetWord fault (branchReturn fault s).2.cp0Status s.mem (s.xcp.cp0Epc + 4) with
        | none =>
          refine .idle rfl (some .bus) s₁ fun b => ?_
          simp only [hcall, hir, hslot, herr, hw, if_true, if_false]
        | some w =>
          refine (isolated_emul fault w s₁.xcp.cp0Epc s₁).goOn fun b => ?_
          simp only [hcall, hir, hslot, herr, hw, if_true, if_false]
    · simp only [hslot]
      refine (isolated_emul fault ir (s₂.xcp.cp0Epc + 4) s₂).goOn (fun b => ?_) ?_ ?_
      · simp only [hcall, hir, hslot, if_false, false_eq_true]
      all_goals
        simp only [s₂]
        split_ifs <;> rfl

end Calls

/-! ## Processes -/

section Processes
variable {P : Type}

/-- One call of `cop1Emulate`: the process, its registers and its memory. -/
structure Call (P : Type) where
  who : P
  fault : BitVec 32 → Bool
  xcp : PtRegs
  mem : Memory

/-- The call with a register and a context. -/
def Call.thread (c : Call P) (csr : Csr) (ctx : FpuCtx) : Thread :=
  { xcp := c.xcp, ctx := ctx, csr := csr, mem := c.mem, dsemul := none }

/-- The register all processes share, and the context each has saved. -/
structure System (P : Type) where
  csr : Csr
  ctx : P → FpuCtx

variable [DecidableEq P]

/-- One emulated instruction of one process. -/
def System.step (s : System P) (c : Call P) : System P :=
  let r := (cop1Emulate c.fault (c.thread s.csr (s.ctx c.who))).2
  { csr := r.csr, ctx := update s.ctx c.who r.ctx }

/-- The emulated instructions of all processes, in the order in which they run. -/
def System.run (s : System P) (calls : List (Call P)) : System P := calls.foldl System.step s

/-- The same for a process that has the library to itself. -/
def aloneStep (s : Csr × FpuCtx) (c : Call P) : Csr × FpuCtx :=
  let r := (cop1Emulate c.fault (c.thread s.1 s.2)).2
  (r.csr, r.ctx)

/-- A process that has the library to itself. -/
def alone (s : Csr × FpuCtx) (calls : List (Call P)) : Csr × FpuCtx := calls.foldl aloneStep s

/-- The library in the rounding mode of a process, and the process's context. -/
def System.matched (s : System P) (p : P) : Csr × FpuCtx :=
  ({ s.csr with rm := (s.ctx p).mode }, s.ctx p)

/-- The instruction that a call executes, if any. -/
def Call.word (c : Call P) (s : System P) : Option (BitVec 32) :=
  executed c.fault (c.thread s.csr (s.ctx c.who))

/-- The process that used the library last. -/
def Call.user (c : Call P) (s : System P) (last : Option P) : Option P :=
  if (c.word s).any writesCx then some c.who else last

/-- An instruction that rounds finds the mode of its process; at a square root, nobody but the
process has used the library last. -/
def Call.Own (c : Call P) (s : System P) (last : Option P) : Prop :=
  ∀ w ∈ c.word s, (usesRm w → s.csr.rm = (s.ctx c.who).mode) ∧
    (usesCx w → last = none ∨ last = some c.who)

instance (c : Call P) (s : System P) (last : Option P) : Decidable (c.Own s last) :=
  match h : c.word s with
  | none => .isTrue (by simp [Call.Own, h])
  | some w => decidable_of_iff ((usesRm w → s.csr.rm = (s.ctx c.who).mode) ∧
      (usesCx w → last = none ∨ last = some c.who)) (by simp [Call.Own, h])

/-- Every call meets the condition; `last` is the process that used the library last. -/
def System.Regular (s : System P) (last : Option P) : List (Call P) → Prop
  | [] => True
  | c :: calls => c.Own s last ∧ (s.step c).Regular (c.user s last) calls

/-- The processes alone agree with the system, and the one that used the library last also in the
exceptions it has left there. -/
def System.Agrees (s : System P) (last : Option P) (own : P → Csr × FpuCtx) : Prop :=
  ∀ p, ((own p).2 = s.ctx p ∧ s.csr.flags = (own p).1.flags ∧ (own p).1.rm = (s.ctx p).mode) ∧
    (last = none ∨ last = some p → s.csr.cx = (own p).1.cx)

omit [DecidableEq P] in
lemma agrees_matched (s : System P) : s.Agrees none s.matched := fun _ => ⟨⟨rfl, rfl, rfl⟩, fun _ => rfl⟩

/-- One call under the condition: the process does in the system what it does alone. -/
lemma agrees_step {s : System P} {last : Option P} {own : P → Csr × FpuCtx} (c : Call P)
    (h : s.Agrees last own) (hc : c.Own s last) :
    (s.step c).Agrees (c.user s last) (update own c.who (aloneStep (own c.who) c)) := by
  obtain ⟨⟨hctx, hflags, hmode⟩, hcx⟩ := h c.who
  let t := c.thread s.csr (s.ctx c.who)
  let t' := t.withCsr (own c.who).1
  have hthread : c.thread (own c.who).1 (own c.who).2 = t' := by
    rw [hctx]
    rfl
  have hcall : IsolatedAt (c.word s) _ t := isolated_cop1Emulate c.fault t
  have hown := isolated_cop1Emulate c.fault t'
  rw [executed_withCsr] at hown
  obtain ⟨b, hb, hcx'⟩ := hcall.result (own c.who).1 fun w hw =>
    ⟨hflags, fun hrm => ((hc w hw).1 hrm).trans hmode.symm, fun hx => hcx ((hc w hw).2 hx)⟩
  have hctx' : (cop1Emulate c.fault t').2.ctx = (s.step c).ctx c.who := by
    rw [show cop1Emulate c.fault t' = _ from hb]
    exact (update_self _ _ s.ctx).symm
  have hflags' : (s.step c).csr.flags = s.csr.flags := hcall.flags
  intro p
  by_cases hp : p = c.who
  · -- the process that made the call
    subst hp
    rw [update_self, aloneStep, hthread]
    refine ⟨⟨hctx', (hflags'.trans hflags).trans hown.flags.symm,
      (hown.mode hmode).trans (by rw [hctx'])⟩, fun hlast => ?_⟩
    unfold Call.user at hlast
    split_ifs at hlast with hw
    · rw [show cop1Emulate c.fault t' = _ from hb]
      exact hcx' hw
    · have hno := eq_false_of_not_eq_true hw
      exact (hcall.keeps hno).trans ((hcx hlast).trans (hown.keeps hno).symm)
  · rw [update_of_ne hp]
    have hother : (s.step c).ctx p = s.ctx p := update_of_ne hp _ _
    rw [hother, hflags']
    refine ⟨(h p).1, fun hlast => ?_⟩
    unfold Call.user at hlast
    split_ifs at hlast with hw
    · rcases hlast with hlast | hlast
      · cases hlast
      · exact absurd (Option.some.inj hlast).symm hp
    · exact (hcall.keeps (eq_false_of_not_eq_true hw)).trans ((h p).2 hlast)

/-- The induction over the calls: `own` runs along with the system. -/
lemma contexts_of_agrees (calls : List (Call P)) :
    ∀ {s : System P} {last : Option P} {own : P → Csr × FpuCtx}, s.Agrees last own →
      s.Regular last calls → ∀ p,
      (s.run calls).ctx p = (alone (own p) (calls.filter fun c => c.who = p)).2 := by
  induction calls with
  | nil =>
    intro s last own h _ p
    exact (h p).1.1.symm
  | cons c calls ih =>
    intro s last own h hregular p
    have hstep := ih (agrees_step c h hregular.1) hregular.2 p
    by_cases hp : c.who = p
    · subst hp
      rw [update_self] at hstep
      rw [List.filter_cons_of_pos (by simp)]
      exact hstep
    · rw [update_of_ne (Ne.symm hp)] at hstep
      rw [List.filter_cons_of_neg (by simpa using hp)]
      exact hstep

/-- In every interleaving whose calls all meet the condition, each process ends with the context it
has when its instructions run alone, in its own rounding mode. -/
theorem contexts_isolated_of_regular (s : System P) (calls : List (Call P))
    (h : s.Regular none calls) (p : P) :
    (s.run calls).ctx p = (alone (s.matched p) (calls.filter fun c => c.who = p)).2 :=
  contexts_of_agrees calls (agrees_matched s) h p

end Processes

/-! ## Two processes -/

/-- A call that emulates one instruction with `$1` holding `v`. -/
def callOf (who : Bool) (ir v : BitVec 32) : Call Bool where
  who := who
  fault := fun _ => false
  xcp :=
    { regs := fun r => if r = 1 then v else 0
      lo := 0
      hi := 0
      cp0Epc := 0x1000
      cp0Badvaddr := 0
      cp0Status := 0x08
      cp0Cause := 0 }
  mem := Memory.setWord (fun _ => 0) 0x1000 ir

/-- Two processes that round to nearest, with `1` in `$f2` and `2 ^ -24` in `$f4`. -/
def twoProcesses : System Bool where
  csr := .boot
  ctx := fun _ =>
    { regs := fun r => if r = 2 then 0x3f800000 else if r = 4 then 0x33800000 else 0
      sr := 0 }

/-- `ctc1 $1, $31` -/
def ctc1Word : BitVec 32 := 0x44c1f800
/-- `add.s $f0, $f2, $f4` -/
def addWord : BitVec 32 := 0x46041000

/-- `sqrt.s $f0, $f2` -/
def sqrtWord : BitVec 32 := 0x46001004

/-- One process adds, the other sets its mode, adds and takes a square root. -/
def twoModes : List (Call Bool) :=
  [callOf false addWord 0, callOf true ctc1Word 2, callOf true addWord 0, callOf true sqrtWord 0]

theorem contexts_isolated_two_modes : (twoProcesses.run twoModes).ctx true =
    (alone (twoProcesses.matched true) (twoModes.filter fun c => c.who = true)).2 :=
  contexts_isolated_of_regular twoProcesses twoModes
    ⟨by decide +kernel, by decide +kernel, by decide +kernel, by decide +kernel, trivial⟩ true

/-- One process sets its mode to round up; the next addition of the other is rounded up too. -/
theorem mode_reaches_other_process :
    (((twoProcesses.run [callOf true ctc1Word 2, callOf false addWord 0]).ctx false).regs 0,
      (alone (twoProcesses.matched false) ([callOf true ctc1Word 2, callOf false addWord 0].filter
        fun c => c.who = false)).2.regs 0) = (0x3f800001, 0x3f800000) := by
  decide +kernel

end PsxLinux.MathEmu
