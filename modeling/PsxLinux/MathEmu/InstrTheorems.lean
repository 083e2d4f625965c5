import PsxLinux.MathEmu.Cp1emu
import PsxLinux.MathEmu.CsrTheorems

/-!
# What an emulated instruction takes from the library's register

The library rounds by the one global `ieee754_csr.rm`, which only `ctc1` writes, and the square
roots report whatever `cx` holds. Every other instruction is a function of the process's own
registers, context and memory.
-/

namespace PsxLinux.MathEmu

open Lib Mips

/-! ## Instructions that read the register -/

/-- The instruction rounds by `ieee754_csr.rm`. -/
def usesRm (ir : BitVec 32) : Bool :=
  match (opcode ir).toNat with
  | 0x11 =>
    match (rs ir).toNat with
    | 0x10 => (func ir).toNat ∈ [0x00, 0x01, 0x02, 0x03, 0x04, 0x15, 0x16]
    | 0x11 => (func ir).toNat ∈ [0x00, 0x01, 0x02, 0x03, 0x04, 0x15, 0x16, 0x20]
    | 0x14 => (func ir).toNat = 0x20
    | _ => false
  | 0x13 => (func ir).toNat ∈ [0x20, 0x28, 0x30, 0x38, 0x21, 0x29, 0x31, 0x39]
  | _ => false

/-- The instruction reports the exceptions it finds in `ieee754_csr.cx`: `sqrt.s`, `sqrt.d`. -/
def usesCx (ir : BitVec 32) : Bool :=
  (opcode ir).toNat = 0x11 && ((rs ir).toNat = 0x10 || (rs ir).toNat = 0x11) &&
    (func ir).toNat = 0x04

/-- The functions of `s_fmt` and `d_fmt` for which `fpu_emu` calls the library. -/
def callsLibrary (func : ℕ) : Bool :=
  func ∈ [0x00, 0x01, 0x02, 0x03, 0x04, 0x05, 0x07, 0x0c, 0x0d, 0x0e, 0x0f, 0x15, 0x16, 0x20, 0x21,
    0x24] || func ≥ 0x30

/-- The instruction calls the library, which leaves the exceptions in `ieee754_csr.cx`. -/
def writesCx (ir : BitVec 32) : Bool :=
  match (opcode ir).toNat with
  | 0x11 =>
    match (rs ir).toNat with
    | 0x10 => callsLibrary (func ir).toNat && (func ir).toNat ≠ 0x20
    | 0x11 => callsLibrary (func ir).toNat && (func ir).toNat ≠ 0x21
    | 0x14 => (func ir).toNat ∈ [0x20, 0x21]
    | _ => false
  | 0x13 => (func ir).toNat ∈ [0x20, 0x28, 0x30, 0x38, 0x21, 0x29, 0x31, 0x39]
  | _ => false

section Words
variable {ir : BitVec 32}

/-- Only two opcodes compute. -/
lemma writesCx_of_opcode (h₁ : (opcode ir).toNat ≠ 0x11) (h₂ : (opcode ir).toNat ≠ 0x13) :
    writesCx ir = false := by
  unfold writesCx
  split <;> first | contradiction | rfl

/-- Of the first, only the three formats compute. -/
lemma writesCx_of_rs (hop : (opcode ir).toNat = 0x11)
    (hrs : (rs ir).toNat ∉ [0x10, 0x11, 0x14]) : writesCx ir = false := by
  simp only [List.mem_cons, List.not_mem_nil, or_false, not_or] at hrs
  unfold writesCx
  rw [hop]
  split <;> simp_all

end Words

/-! ## Functions of the register -/

/-- What no instruction changes. -/
def Csr.flags (csr : Csr) : Bool × Bool × BitVec 5 := (csr.noq, csr.nod, csr.mx)

/-- Two registers that look alike to an instruction. -/
structure Alike (ir : BitVec 32) (a b : Csr) : Prop where
  flags : a.flags = b.flags
  rm : usesRm ir → a.rm = b.rm
  cx : usesCx ir → a.cx = b.cx

section Confined
variable {α β : Type} {f : Format} {ir : BitVec 32} {c : Csr → α × Csr}

/-- The function's result, and the `cx` it leaves if the instruction writes it, depend on what the
instruction uses; it leaves the rest of the register alone. -/
structure Confined (ir : BitVec 32) (c : Csr → α × Csr) : Prop where
  result : ∀ {a b : Csr}, Alike ir a b →
    (c a).1 = (c b).1 ∧ (writesCx ir → (c a).2.cx = (c b).2.cx)
  keeps : writesCx ir = false → ∀ csr, (c csr).2.cx = csr.cx
  flags : ∀ csr, (c csr).2.flags = csr.flags
  rm : ∀ csr, (c csr).2.rm = csr.rm

/-- Two control words with the same modes differ in the exception bits only. -/
lemma Csr.eq_withX {a b : Csr} (hflags : a.flags = b.flags) (hrm : a.rm = b.rm) :
    b = a.withX b.cx b.sx := by
  cases a
  cases b
  simp only [Csr.flags, Prod.mk.injEq] at hflags hrm
  simp [Csr.withX, hflags, hrm]

/-- The function does not look at the rounding mode. -/
def Blind (c : Csr → α × Csr) : Prop :=
  ∀ (csr : Csr) (rm : RoundingMode), c { csr with rm := rm } = ((c csr).1, { (c csr).2 with rm := rm })

/-- An operation that only raises exceptions keeps the modes. -/
lemma Adds.keeps (h : Adds c) (csr : Csr) :
    (c csr).2.flags = csr.flags ∧ (c csr).2.rm = csr.rm := by
  obtain ⟨v, e, g, hv⟩ := h csr
  have hc : c csr = _ := hv csr.cx csr.sx
  rw [hc]
  exact ⟨rfl, rfl⟩

/-- The result and the causes of an operation depend on the modes only. -/
lemma Fresh.same (h : Fresh c) {a b : Csr} (hflags : a.flags = b.flags) (hrm : a.rm = b.rm) :
    (c a).1 = (c b).1 ∧ (c a).2.cx = (c b).2.cx := by
  obtain ⟨v, e, g, hv⟩ := h a
  have ha : c a = _ := hv a.cx a.sx
  rw [Csr.eq_withX hflags hrm, ha, hv]
  exact ⟨rfl, rfl⟩

/-- With no clearing, they depend on the causes too. -/
lemma Raises.same (h : Raises c) {a b : Csr} (hflags : a.flags = b.flags) (hrm : a.rm = b.rm)
    (hcx : a.cx = b.cx) : (c a).1 = (c b).1 ∧ (c a).2.cx = (c b).2.cx := by
  obtain ⟨v, e, g, hv⟩ := h a
  have ha : c a = _ := hv a.cx a.sx
  rw [Csr.eq_withX hflags hrm, ha, hv, hcx]
  exact ⟨rfl, rfl⟩

namespace Confined

/-- An instruction that computes nothing. -/
lemma const (hw : writesCx ir = false) (v : α) : Confined ir (fun csr => (v, csr)) where
  result _ := ⟨rfl, fun h => absurd (hw.symm.trans h) Bool.false_ne_true⟩
  keeps _ _ := rfl
  flags _ := rfl
  rm _ := rfl

/-- A library function, and what is made of its result and its exceptions. -/
lemma ofAdds (h : Adds c) (hw : writesCx ir)
    (hsame : ∀ {a b : Csr}, Alike ir a b → (c a).1 = (c b).1 ∧ (c a).2.cx = (c b).2.cx)
    (post : α → BitVec 5 → β) :
    Confined ir (fun csr => (post (c csr).1 (c csr).2.cx, (c csr).2)) where
  result hab := by
    obtain ⟨hv, hcx⟩ := hsame hab
    exact ⟨by rw [hv, hcx], fun _ => hcx⟩
  keeps hno := absurd (hno.symm.trans hw) Bool.false_ne_true
  flags csr := (h.keeps csr).1
  rm csr := (h.keeps csr).2

lemma ofFresh (h : Fresh c) (hr : usesRm ir) (hw : writesCx ir) (post : α → BitVec 5 → β) :
    Confined ir (fun csr => (post (c csr).1 (c csr).2.cx, (c csr).2)) :=
  ofAdds h.adds hw (fun hab => h.same hab.flags (hab.rm hr)) post

lemma ofRaises (h : Raises c) (hr : usesRm ir) (hx : usesCx ir) (hw : writesCx ir)
    (post : α → BitVec 5 → β) :
    Confined ir (fun csr => (post (c csr).1 (c csr).2.cx, (c csr).2)) :=
  ofAdds h.adds hw (fun hab => h.same hab.flags (hab.rm hr) (hab.cx hx)) post

/-- An operation that does not round depends on no mode. -/
lemma ofBlind (h : Fresh c) (hb : Blind c) (hw : writesCx ir) (post : α → BitVec 5 → β) :
    Confined ir (fun csr => (post (c csr).1 (c csr).2.cx, (c csr).2)) := by
  refine ofAdds h.adds hw (fun {a b} hab => ?_) post
  -- give `b` the rounding mode of `a`
  have hsame := h.same (b := { b with rm := a.rm }) hab.flags rfl
  rw [hb b a.rm] at hsame
  exact hsame

end Confined

/-! ## Functions that do not round -/

namespace Blind

lemma pure (v : α) : Blind (fun csr => (v, csr)) := fun _ _ => rfl

lemma raise (v : α) (e : BitVec 5) : Blind (fun csr => (v, csr.setCx e)) := fun _ _ => rfl

lemma ite {p : Prop} [Decidable p] {d : Csr → α × Csr} (hc : Blind c) (hd : Blind d) :
    Blind (fun csr => if p then c csr else d csr) := by
  by_cases hp : p
  · simpa only [hp, if_true] using hc
  · simpa only [hp, if_false] using hd

lemma clear (h : Blind c) : Blind (fun csr => c csr.clearCx) := by
  intro csr rm
  exact h csr.clearCx rm

lemma map (h : Blind c) (g : α → β) : Blind (fun csr => (g (c csr).1, (c csr).2)) := by
  intro csr rm
  show (g (c { csr with rm := rm }).1, (c { csr with rm := rm }).2) = _
  rw [h csr rm]

end Blind

lemma blind_nanxcpt (r : Fp f) : Blind (fun csr => nanxcpt csr r) := by
  intro csr rm
  cases csr
  simp only [nanxcpt, issnan]
  split_ifs <;> simp_all [Csr.setCx]

lemma blind_neg (x : Fp f) : Blind (fun csr => neg csr x) :=
  .ite (blind_nanxcpt x).clear (Blind.pure _).clear

lemma blind_abs (x : Fp f) : Blind (fun csr => abs csr x) :=
  .ite (blind_nanxcpt x).clear (Blind.pure _).clear

lemma blind_cmp (x y : Fp f) (mask : BitVec 4) : Blind (fun csr => cmp csr x y mask) :=
  .ite (.ite (Blind.pure _).clear (.ite (Blind.raise _ _).clear (Blind.pure _).clear))
    (.ite (Blind.pure _).clear (.ite (Blind.pure _).clear (Blind.pure _).clear))

lemma blind_tint (x : Fp f) : Blind (fun csr => tint csr x) := by
  rcases hx : explode x with ⟨c, xe, xm⟩
  cases c <;> simp only [tint, hx]
  case norm =>
    exact .ite (Blind.raise _ _).clear (.ite (Blind.raise _ _).clear (Blind.pure _).clear)
  case zero => exact (Blind.pure _).clear
  all_goals exact (Blind.raise _ _).clear

lemma blind_dpFint (x : BitVec 32) : Blind (fun csr => dpFint csr x) := by
  cases hc : fintConst (f := dp) x <;> simp only [dpFint, hc] <;> exact (Blind.pure _).clear

lemma blind_dpFsp (x : Fp sp) : Blind (fun csr => dpFsp csr x) := by
  rcases hx : explode x with ⟨c, xe, xm⟩
  cases c <;> simp only [dpFsp, hx]
  case snan | qnan => exact (blind_nanxcpt _).clear
  all_goals exact (Blind.pure _).clear

/-- The rounding mode of an instruction replaces the one of the control word. -/
lemma fresh_withRm (rm : RoundingMode) {op : Csr → α × Csr} (h : Fresh op) :
    Fresh (withRm rm op) := by
  intro csr
  obtain ⟨v, e, g, hv⟩ := h { csr with rm := rm }
  refine ⟨v, e, g, fun cx sx => ?_⟩
  have hcall : op { csr.withX cx sx with rm := rm } = _ := hv cx sx
  simp only [withRm, hcall]
  rfl

/-! ## Arithmetic instructions -/

section Arithmetic

/-- An arithmetic operation. -/
lemma confined_fresh (h : Fresh c) (wrap : α → Rv) (hr : usesRm ir) (hw : writesCx ir) :
    Confined ir (fun csr => computed wrap (c csr)) :=
  .ofFresh h hr hw fun v cx => Computed.value (wrap v) (copcsr cx)

/-- An operation that does not round. -/
lemma confined_blind (h : Fresh c) (hb : Blind c) (wrap : α → Rv) (hw : writesCx ir) :
    Confined ir (fun csr => computed wrap (c csr)) :=
  .ofBlind h hb hw fun v cx => Computed.value (wrap v) (copcsr cx)

/-- The operations of a format, if its conversions are confined. -/
lemma confined_fpuFmt (ops : FmtOps f) (sr gpr : BitVec 32) (fs ft : Fp f)
    (hsqrt : ∀ y, Raises (fun csr => ops.sqrt csr y))
    (hr : (func ir).toNat ∈ [0x00, 0x01, 0x02, 0x03, 0x04, 0x15, 0x16] → usesRm ir)
    (hx : (func ir).toNat = 0x04 → usesCx ir)
    (hw : ∀ n, (func ir).toNat = n → n ∉ [0x20, 0x21] → writesCx ir = callsLibrary n)
    (hcvts : (func ir).toNat = 0x20 → Confined ir (fun csr => convert csr (ops.cvts csr fs)))
    (hcvtd : (func ir).toNat = 0x21 → Confined ir (fun csr => convert csr (ops.cvtd csr fs))) :
    Confined ir (fun csr => fpuFmt ops ir sr gpr fs ft csr) := by
  unfold fpuFmt
  split
  case h_1 hf => exact confined_fresh (fresh_add _ _) _ (hr (by simp [hf])) (hw _ hf (by decide))
  case h_2 hf => exact confined_fresh (fresh_sub _ _) _ (hr (by simp [hf])) (hw _ hf (by decide))
  case h_3 hf => exact confined_fresh (fresh_mul _ _) _ (hr (by simp [hf])) (hw _ hf (by decide))
  case h_4 hf | h_7 hf =>
    exact confined_fresh (fresh_div _ _) _ (hr (by simp [hf])) (hw _ hf (by decide))
  case h_5 hf =>
    exact .ofRaises (hsqrt fs) (hr (by simp [hf])) (hx hf) (hw _ hf (by decide))
      fun v cx => Computed.value (ops.wrap v) (copcsr cx)
  case h_6 hf =>
    -- the division clears what the square root has left
    exact confined_fresh ((hsqrt fs).adds.bind (fresh_div _)) _ (hr (by simp [hf]))
      (hw _ hf (by decide))
  case h_8 hf | h_9 hf | h_10 hf | h_13 hf => exact .const (hw _ hf (by decide)) _
  case h_11 hf => exact confined_blind (fresh_abs _) (blind_abs _) _ (hw _ hf (by decide))
  case h_12 hf => exact confined_blind (fresh_neg _) (blind_neg _) _ (hw _ hf (by decide))
  case h_14 hf => exact hcvts hf
  case h_15 hf => exact hcvtd hf
  case h_16 hf => exact confined_blind (fresh_tint _) (blind_tint _) _ (hw _ hf (by decide))
  case h_17 hf | h_18 hf | h_19 hf | h_20 hf =>
    exact confined_blind (fresh_withRm _ (fresh_tint _)) (fun _ _ => rfl) _ (hw _ hf (by decide))
  case h_21 =>
    have hw' := hw _ rfl (by simp_all)
    by_cases hcmp : (func ir).toNat ≥ 0x30
    · simp only [hcmp]
      exact Confined.ofBlind (fresh_cmp fs ft (cmptab _)) (blind_cmp fs ft (cmptab _))
        (hw'.trans (by simp [callsLibrary, hcmp]))
        fun v cx => Computed.value (.cond v) (if _ ∧ cx &&& invalidOperation ≠ 0 then invXS else 0)
    · simp only [hcmp]
      exact .const (hw'.trans (by simp_all [callsLibrary])) _

/-- The format is the low part of the field. -/
lemma rs_of_format (n : BitVec 5) (h : n.toNat &&& 0x10 ≠ 0) : n.toNat = 16 + n.toNat % 16 := by
  revert n
  decide

/-- The computation of `fpu_emu`, case by case. -/
lemma confined_fpuCompute (status : BitVec 32) (d : Data) (hop : (opcode ir).toNat = 0x11)
    (hrs : (rs ir).toNat &&& 0x10 ≠ 0) :
    Confined ir (fun csr => fpuCompute status ir { d with csr := csr }) := by
  have hfmt := rs_of_format (rs ir) hrs
  unfold fpuCompute
  split
  case h_1 h₀ =>
    have hsp : (rs ir).toNat = 0x10 := by omega
    apply confined_fpuFmt spOps d.ctx.sr (d.regs (rt ir)) (spFromReg d.ctx (rd ir))
      (spFromReg d.ctx (rt ir)) raises_spSqrt
    · intro hf
      simp only [usesRm, hop, hsp]
      simpa using hf
    · intro hf
      simp [usesCx, hop, hsp, hf]
    · rintro n rfl hn
      simp only [List.mem_cons, List.not_mem_nil, or_false, not_or] at hn
      simp [writesCx, hop, hsp, hn.1]
    · intro hf
      exact .const (by simp [writesCx, hop, hsp, hf]) _
    · intro hf
      exact confined_blind ((fresh_dpFsp _).map Rv.d) ((blind_dpFsp _).map Rv.d) id
        (by simp [writesCx, callsLibrary, hop, hsp, hf])
  case h_2 h₁ =>
    have hdp : (rs ir).toNat = 0x11 := by omega
    apply confined_fpuFmt dpOps d.ctx.sr (d.regs (rt ir)) (dpFromReg status d.ctx (rd ir))
      (dpFromReg status d.ctx (rt ir)) raises_dpSqrt
    · intro hf
      simp only [usesRm, hop, hdp]
      simp at hf ⊢
      omega
    · intro hf
      simp [usesCx, hop, hdp, hf]
    · rintro n rfl hn
      simp only [List.mem_cons, List.not_mem_nil, or_false, not_or] at hn
      simp [writesCx, hop, hdp, hn.2]
    · intro hf
      exact confined_fresh ((fresh_spFdp _).map Rv.s) id (by simp [usesRm, hop, hdp, hf])
        (by simp [writesCx, callsLibrary, hop, hdp, hf])
    · intro hf
      exact .const (by simp [writesCx, hop, hdp, hf]) _
  case h_3 h₄ =>
    have hw : (rs ir).toNat = 0x14 := by omega
    let n := (d.ctx.regs (rd ir)).extractLsb' 0 32
    split
    case h_1 hf =>
      exact confined_fresh (fresh_spFint n) .s (by simp [usesRm, hop, hw, hf])
        (by simp [writesCx, hop, hw, hf])
    case h_2 hf =>
      exact confined_blind (fresh_dpFint n) (blind_dpFint n) .d (by simp [writesCx, hop, hw, hf])
    case h_3 h₁ h₂ => exact .const (by simpa [writesCx, hop, hw] using ⟨h₁, h₂⟩) _
  case h_4 h₀ h₁ h₄ =>
    have hrs : (rs ir).toNat ≠ 0x10 ∧ (rs ir).toNat ≠ 0x11 ∧ (rs ir).toNat ≠ 0x14 :=
      ⟨fun h => h₀ (by omega), fun h => h₁ (by omega), fun h => h₄ (by omega)⟩
    exact .const (writesCx_of_rs hop (by simpa using hrs)) _

/-- The two operations of a multiply-add. -/
lemma fresh_multiplyAdd (msub nmadd : Bool) (u v w : Fp f) :
    Fresh (fun csr => multiplyAdd msub nmadd csr u v w) := by
  apply Fresh.bind (fresh_mul _ _)
  intro p
  cases nmadd
  · cases msub
    · exact fresh_add p u
    · exact fresh_sub p u
  · cases msub
    · exact (fresh_add p u).bind fresh_neg
    · exact (fresh_sub p u).bind fresh_neg

end Arithmetic

end Confined

/-! ## Emulated instructions -/

def FpuCtx.mode (ctx : FpuCtx) : RoundingMode := ieeeRm (ctx.sr.extractLsb' 0 2)

def Data.withCsr (d : Data) (csr : Csr) : Data := { d with csr := csr }

/-- The instruction's effect, and the `cx` it leaves if it writes it, depend on what it uses of the
register; it leaves the flags alone, and `rm` as the process's own mode if it was that before. -/
structure Isolated {τ : Type} (ir : BitVec 32) (c : Data → τ × Data) : Prop where
  result : ∀ (d : Data) (b : Csr), Alike ir d.csr b → ∃ b', c (d.withCsr b) =
    ((c d).1, (c d).2.withCsr b') ∧ (writesCx ir → (c d).2.csr.cx = b'.cx)
  keeps : writesCx ir = false → ∀ d, (c d).2.csr.cx = d.csr.cx
  flags : ∀ d, (c d).2.csr.flags = d.csr.flags
  mode : ∀ d, d.csr.rm = d.ctx.mode → (c d).2.csr.rm = (c d).2.ctx.mode

namespace Isolated
variable {τ : Type} {ir : BitVec 32} {c : Data → τ × Data}

/-- An instruction that does not come near the library and leaves the mode alone. -/
lemma outside (hw : writesCx ir = false) (hc : ∀ d b, c (d.withCsr b) = ((c d).1, (c d).2.withCsr b))
    (hsr : ∀ d, (c d).2.ctx.sr = d.ctx.sr) : Isolated ir c := by
  have hcsr : ∀ d, (c d).2.csr = d.csr := by
    intro d
    have hself : c d = ((c d).1, (c d).2.withCsr d.csr) := hc d d.csr
    rw [hself]
    rfl
  constructor
  · intro d b _
    exact ⟨b, hc d b, fun h => absurd (hw.symm.trans h) Bool.false_ne_true⟩
  · intro _ d
    rw [hcsr]
  · intro d
    rw [hcsr]
  · intro d hmode
    rw [hcsr, hmode, FpuCtx.mode, FpuCtx.mode, hsr]

/-- A library computation followed by what is done with its result: the second part sees the
context, the first also the register. -/
lemma ofConfined {α : Type} {g : (BitVec 5 → BitVec 32) → FpuCtx → Csr → α × Csr}
    {k : FpuCtx → α → τ × FpuCtx}
    (hc : ∀ d, c d = ((k d.ctx (g d.regs d.ctx d.csr).1).1,
      { d with
        ctx := (k d.ctx (g d.regs d.ctx d.csr).1).2
        csr := (g d.regs d.ctx d.csr).2 }))
    (hg : ∀ regs ctx, Confined ir (g regs ctx))
    (hmode : ∀ regs ctx csr, (k ctx (g regs ctx csr).1).2.mode = ctx.mode) :
    Isolated ir c := by
  constructor
  · intro d b hab
    obtain ⟨hsame, hcx⟩ := (hg d.regs d.ctx).result hab
    refine ⟨(g d.regs d.ctx b).2, ?_, fun hw => ?_⟩
    · rw [hc, hc, hsame]
      rfl
    · rw [hc]
      exact hcx hw
  · intro hw d
    rw [hc]
    exact (hg d.regs d.ctx).keeps hw d.csr
  · intro d
    rw [hc]
    exact (hg d.regs d.ctx).flags d.csr
  · intro d hd
    rw [hc]
    exact ((hg d.regs d.ctx).rm d.csr).trans (hd.trans (hmode d.regs d.ctx d.csr).symm)

lemma map {σ : Type} (h : Isolated ir c) (g : τ → σ) :
    Isolated ir (fun d => (g (c d).1, (c d).2)) where
  result d b hab := by
    obtain ⟨b', hb, hcx⟩ := h.result d b hab
    exact ⟨b', by rw [hb], hcx⟩
  keeps := h.keeps
  flags := h.flags
  mode := h.mode

end Isolated

/-! ## The mode bits of the status register -/

/-- The bits `fpu_emu` adds are not mode bits. -/
def Computed.KeepsMode : Computed → Prop
  | .ret _ => True
  | .value _ rcsr => rcsr.extractLsb' 0 2 = 0

lemma copcsr_mode (cx : BitVec 5) : (copcsr cx).extractLsb' 0 2 = 0 := by
  revert cx
  decide

lemma copcsrX_mode (cx : BitVec 5) : (copcsrX cx).extractLsb' 0 2 = 0 := by
  revert cx
  decide

lemma keepsMode_computed {α : Type} (wrap : α → Rv) (v : α × Csr) :
    (computed wrap v).1.KeepsMode := copcsr_mode _

lemma keepsMode_moveIf (csr : Csr) (c : Bool) (rv : Rv) : (moveIf csr c rv).1.KeepsMode := by
  cases c
  · trivial
  · rfl

lemma keepsMode_fpuFmt {f : Format} (ops : FmtOps f) (ir sr gpr : BitVec 32) (fs ft : Fp f)
    (csr : Csr) (hcvts : (convert csr (ops.cvts csr fs)).1.KeepsMode)
    (hcvtd : (convert csr (ops.cvtd csr fs)).1.KeepsMode) :
    (fpuFmt ops ir sr gpr fs ft csr).1.KeepsMode := by
  unfold fpuFmt
  split
  case h_14 => exact hcvts
  case h_15 => exact hcvtd
  case h_21 =>
    split
    · simp only [compare]
      split_ifs <;> rfl
    · trivial
  all_goals first | exact keepsMode_computed _ _ | exact keepsMode_moveIf _ _ _

/-- No computation asks for a rounding mode in the control register. -/
lemma keepsMode_fpuCompute (status ir : BitVec 32) (d : Data) :
    (fpuCompute status ir d).1.KeepsMode := by
  unfold fpuCompute
  split
  case h_1 => exact keepsMode_fpuFmt _ _ _ _ _ _ _ trivial (keepsMode_computed _ _)
  case h_2 => exact keepsMode_fpuFmt _ _ _ _ _ _ _ (keepsMode_computed _ _) trivial
  case h_3 =>
    split
    iterate 2 exact keepsMode_computed _ _
    · trivial
  case h_4 => trivial

variable {sr : BitVec 32}

lemma mode_or {m : BitVec 32} (h : m.extractLsb' 0 2 = 0) :
    (sr ||| m).extractLsb' 0 2 = sr.extractLsb' 0 2 := by
  rw [BitVec.extractLsb'_or, h]
  exact BitVec.or_zero

lemma mode_and_not {m : BitVec 32} (h : m.extractLsb' 0 2 = 0) :
    (sr &&& ~~~m).extractLsb' 0 2 = sr.extractLsb' 0 2 := by
  apply BitVec.eq_of_getLsbD_eq
  intro i hi
  have hbit := congrArg (fun v => v.getLsbD i) h
  simp [hi, show i < 32 by omega] at hbit ⊢
  simp [hbit]

lemma fpucondbit_mode (i : BitVec 3) : (fpucondbit i).extractLsb' 0 2 = 0 := by
  revert i
  decide

variable {rcsr : BitVec 32}

/-- New causes leave the rounding mode as it is. -/
lemma mode_causes (h : rcsr.extractLsb' 0 2 = 0) :
    (sr &&& ~~~allX ||| rcsr).extractLsb' 0 2 = sr.extractLsb' 0 2 := by
  rw [mode_or h, mode_and_not (by decide)]

/-- What does not depend on the condition bits is that of the rewritten causes. -/
lemma fpuFinish_sr {α : Type} (f : BitVec 32 → α)
    (hclear : ∀ v i, f (v &&& ~~~fpucondbit i) = f v) (hset : ∀ v i, f (v ||| fpucondbit i) = f v)
    (status : BitVec 32) (fd : BitVec 5) (ctx : FpuCtx) (rv : Rv) (rcsr : BitVec 32) :
    f (fpuFinish status fd ctx rv rcsr).2.sr = f (ctx.sr &&& ~~~allX ||| rcsr) := by
  by_cases htrap : ((ctx.sr &&& ~~~allX ||| rcsr) >>> 5) &&& (ctx.sr &&& ~~~allX ||| rcsr) &&& allE ≠ 0
  · simp only [fpuFinish]
    rw [if_pos htrap]
  · cases rv <;> simp only [fpuFinish, htrap]
    case cond v =>
      cases v
      · exact hclear _ _
      · exact hset _ _
    all_goals rfl

/-- Storing a result does not change the rounding mode. -/
lemma fpuFinish_mode (status : BitVec 32) (fd : BitVec 5) (ctx : FpuCtx) (rv : Rv)
    (h : rcsr.extractLsb' 0 2 = 0) :
    (fpuFinish status fd ctx rv rcsr).2.mode = ctx.mode := by
  apply congrArg ieeeRm
  rw [fpuFinish_sr (·.extractLsb' 0 2) (fun _ i => mode_and_not (fpucondbit_mode i))
    (fun _ i => mode_or (fpucondbit_mode i)), mode_causes h]

lemma fpuxFinish_mode (ctx : FpuCtx) (h : rcsr.extractLsb' 0 2 = 0) :
    (fpuxFinish ctx rcsr).2.mode = ctx.mode := congrArg ieeeRm (mode_causes h)

/-! ## Every instruction is isolated -/

section Instructions
variable {ir : BitVec 32}

/-- The second half of `fpu_emu`. -/
def fpuReturn (status : BitVec 32) (fd : BitVec 5) (ctx : FpuCtx) :
    Computed → Option Signal × FpuCtx
  | .ret sig => (sig, ctx)
  | .value rv rcsr => fpuFinish status fd ctx rv rcsr

/-- The instructions of the two formats. -/
lemma isolated_fpuEmu (status : BitVec 32) (hop : (opcode ir).toNat = 0x11)
    (hrs : (rs ir).toNat &&& 0x10 ≠ 0) :
    Isolated ir (fpuEmu status ir) := by
  apply Isolated.ofConfined
    (g := fun regs ctx csr => fpuCompute status ir ⟨regs, ctx, csr, 0⟩)
    (k := fpuReturn status (re ir))
  · intro d
    have hmem : fpuCompute status ir { d with mem := 0 } = fpuCompute status ir d := rfl
    rw [fpuEmu, hmem]
    rcases fpuCompute status ir d with ⟨v, csr⟩
    cases v <;> rfl
  · intro regs ctx
    exact confined_fpuCompute status ⟨regs, ctx, .boot, 0⟩ hop hrs
  · intro regs ctx csr
    have hkeeps := keepsMode_fpuCompute status ir ⟨regs, ctx, csr, 0⟩
    cases hv : (fpuCompute status ir ⟨regs, ctx, csr, 0⟩).1 with
    | ret sig => rfl
    | value rv rcsr =>
      rw [hv] at hkeeps
      exact fpuFinish_mode _ _ _ _ hkeeps

/-- A multiplication with addition, as a result and its exceptions. -/
lemma confined_multiplyAdd {f : Format} (msub nmadd : Bool) (u v w : Fp f) (hr : usesRm ir)
    (hw : writesCx ir) : Confined ir (fun csr => (((multiplyAdd msub nmadd csr u v w).1,
      (multiplyAdd msub nmadd csr u v w).2.cx), (multiplyAdd msub nmadd csr u v w).2)) :=
  .ofFresh (fresh_multiplyAdd msub nmadd u v w) hr hw Prod.mk

/-- The multiply-adds in single precision. -/
lemma isolated_scoptop (msub nmadd : Bool) (hr : usesRm ir) (hw : writesCx ir) :
    Isolated ir (scoptop msub nmadd ir) := by
  apply Isolated.ofConfined (k := fun ctx v => fpuxFinish (spToReg ctx v.1 (re ir)) (copcsrX v.2)) _
    (fun _ ctx => confined_multiplyAdd msub nmadd (spFromReg ctx (rs ir)) (spFromReg ctx (rd ir))
      (spFromReg ctx (rt ir)) hr hw)
  · intro regs ctx csr
    exact fpuxFinish_mode _ (copcsrX_mode _)
  · intro d
    rw [scoptop]

/-- The multiply-adds in double precision. -/
lemma isolated_dcoptop (msub nmadd : Bool) (status : BitVec 32) (hr : usesRm ir)
    (hw : writesCx ir) : Isolated ir (dcoptop msub nmadd status ir) := by
  apply Isolated.ofConfined
    (k := fun ctx v => fpuxFinish (dpToReg status ctx v.1 (re ir)) (copcsrX v.2)) _
    (fun _ ctx => confined_multiplyAdd msub nmadd (dpFromReg status ctx (rs ir))
      (dpFromReg status ctx (rd ir)) (dpFromReg status ctx (rt ir)) hr hw)
  · intro regs ctx csr
    exact fpuxFinish_mode _ (copcsrX_mode _)
  · intro d
    rw [dcoptop]

lemma loadWord_sr (status : BitVec 32) (ctx : FpuCtx) (ft : BitVec 5) (val : BitVec 32) :
    (loadWord status ctx ft val).sr = ctx.sr := by
  unfold loadWord
  split_ifs <;> rfl

section Moves
variable {τ : Type} (fault : BitVec 32 → Bool) (status : BitVec 32)

section
variable (hw : writesCx ir = false)
include hw

/-- A load of a word. -/
lemma isolated_loadWord (va : (BitVec 5 → BitVec 32) → BitVec 32) (ft : BitVec 5) (t₀ t₁ : τ) :
    Isolated ir (fun d => match mipsGetWord fault status d.mem (va d.regs) with
      | none => (t₀, d)
      | some val => (t₁, { d with ctx := loadWord status d.ctx ft val })) := by
  apply Isolated.outside hw
  · intro d b
    dsimp only [Data.withCsr]
    cases mipsGetWord fault status d.mem (va d.regs) <;> rfl
  · intro d
    cases mipsGetWord fault status d.mem (va d.regs)
    · rfl
    · exact loadWord_sr _ _ _ _

/-- A store of a word. -/
lemma isolated_storeWord (va : (BitVec 5 → BitVec 32) → BitVec 32) (ft : BitVec 5) (t₀ t₁ : τ) :
    Isolated ir (fun d =>
      match mipsPutWord fault status d.mem (va d.regs) (storeWord status d.ctx ft) with
      | none => (t₀, d)
      | some mem => (t₁, { d with mem := mem })) := by
  apply Isolated.outside hw
  · intro d b
    dsimp only [Data.withCsr]
    cases mipsPutWord fault status d.mem (va d.regs) _ <;> rfl
  · intro d
    cases mipsPutWord fault status d.mem (va d.regs) _ <;> rfl

/-- A load of a double word. -/
lemma isolated_loadDword (va : (BitVec 5 → BitVec 32) → BitVec 32) (ft : BitVec 5) (t₀ t₁ : τ) :
    Isolated ir (fun d => match mipsGetDword fault status d.mem (va d.regs) with
      | none => (t₀, d.setFpr ft 0)
      | some val => (t₁, d.setFpr ft val)) := by
  apply Isolated.outside hw
  · intro d b
    dsimp only [Data.withCsr]
    cases mipsGetDword fault status d.mem (va d.regs) <;> rfl
  · intro d
    cases mipsGetDword fault status d.mem (va d.regs) <;> rfl

/-- A move into an integer register. -/
lemma isolated_setGpr (value : Data → BitVec 32) (hv : ∀ d b, value (d.withCsr b) = value d) :
    Isolated ir (fun d => (Exit.done, if rt ir ≠ 0 then d.setGpr (rt ir) (value d) else d)) := by
  apply Isolated.outside hw
  · intro d b
    rw [hv]
    split_ifs <;> rfl
  · intro d
    split_ifs <;> rfl

end

/-- The instructions of the extended opcode. -/
lemma isolated_fpuxEmu (hop : (opcode ir).toNat = 0x13) :
    Isolated ir (fun d => fpuxEmu fault status ir d) := by
  have hyes (hf : (func ir).toNat ∈ [0x20, 0x28, 0x30, 0x38, 0x21, 0x29, 0x31, 0x39]) :
      usesRm ir ∧ writesCx ir := by
    simp only [usesRm, writesCx, hop]
    simpa using hf
  have hno (hf : (func ir).toNat ∉ [0x20, 0x28, 0x30, 0x38, 0x21, 0x29, 0x31, 0x39]) :
      writesCx ir = false := by
    simp only [writesCx, hop]
    simpa using hf
  let va (regs : BitVec 5 → BitVec 32) := regs (rs ir) + regs (rt ir)
  unfold fpuxEmu
  split
  case h_1 hf => exact isolated_loadWord fault status (hno (by simp [hf])) va _ _ _
  case h_2 hf => exact isolated_storeWord fault status (hno (by simp [hf])) va _ _ _
  case h_3 hf | h_4 hf | h_5 hf | h_6 hf =>
    obtain ⟨hr, hw⟩ := hyes (by simp [hf])
    exact isolated_scoptop _ _ hr hw
  case h_7 hf => exact isolated_loadDword fault status (hno (by simp [hf])) va _ _ _
  case h_8 hf => exact .outside (hno (by simp [hf])) (fun _ _ => rfl) fun _ => rfl
  case h_13 => exact .outside (hno (by simp_all)) (fun _ _ => rfl) fun _ => rfl
  case h_9 hf | h_10 hf | h_11 hf | h_12 hf =>
    obtain ⟨hr, hw⟩ := hyes (by simp [hf])
    exact isolated_dcoptop _ _ _ hr hw

/-- The moves, the arithmetic and `ctc1`, which sets both the process's mode and the library's. -/
lemma isolated_emulCop1 (hop : (opcode ir).toNat = 0x11) :
    Isolated ir (fun d => emulCop1 status ir d) := by
  have hno (n : ℕ) (hrs : (rs ir).toNat = n) (hn : n ∉ [0x10, 0x11, 0x14]) : writesCx ir = false :=
    writesCx_of_rs hop (by rwa [hrs])
  unfold emulCop1
  split
  case h_1 hrs | h_3 hrs => exact isolated_setGpr (hno _ hrs (by decide)) _ fun _ _ => rfl
  case h_2 hrs =>
    exact .outside (hno _ hrs (by decide)) (fun _ _ => rfl) fun d => by
      unfold moveWord
      split_ifs <;> rfl
  case h_4 hrs =>
    have hw := hno _ hrs (by decide)
    by_cases hrd : rd ir = 31
    · simp only [hrd]
      constructor
      · intro d b _
        exact ⟨{ b with rm := _ }, rfl, fun h => absurd (hw.symm.trans h) Bool.false_ne_true⟩
      · intro _ d
        rfl
      · intro d
        rfl
      · intro d _
        rfl
    · simp only [hrd]
      exact .outside hw (fun _ _ => rfl) fun _ => rfl
  case h_5 =>
    by_cases hfmt : (rs ir).toNat &&& 0x10 = 0
    · simp only [hfmt]
      refine .outside (hno _ rfl fun hmem => ?_) (fun _ _ => rfl) fun _ => rfl
      simp only [List.mem_cons, List.not_mem_nil, or_false] at hmem
      rcases hmem with hmem | hmem | hmem <;> simp [hmem] at hfmt
    · simp only [hfmt]
      exact (isolated_fpuEmu status hop hfmt).map Exit.ofSig

/-- Every instruction, whatever it is. -/
lemma isolated_emulInstr (ir : BitVec 32) :
    Isolated ir (fun d => emulInstr fault status ir d) := by
  have hno (n : ℕ) (hop : (opcode ir).toNat = n) (h₁ : n ≠ 0x11) (h₂ : n ≠ 0x13) :
      writesCx ir = false :=
    writesCx_of_opcode (by rwa [hop]) (by rwa [hop])
  let va (regs : BitVec 5 → BitVec 32) := regs (rs ir) + simm ir
  unfold emulInstr
  split
  case h_1 hop => exact isolated_loadDword fault status (hno _ hop (by decide) (by decide)) va _ _ _
  case h_2 hop => exact .outside (hno _ hop (by decide) (by decide)) (fun _ _ => rfl) fun _ => rfl
  case h_3 hop => exact isolated_loadWord fault status (hno _ hop (by decide) (by decide)) va _ _ _
  case h_4 hop => exact isolated_storeWord fault status (hno _ hop (by decide) (by decide)) va _ _ _
  case h_5 hop => exact isolated_emulCop1 status hop
  case h_6 hop => exact (isolated_fpuxEmu fault status hop).map Exit.ofSig
  case h_7 hop =>
    have hw := hno _ hop (by decide) (by decide)
    by_cases hf : func ir ≠ 1
    · simp only [hf, ne_eq]
      exact .outside hw (fun _ _ => rfl) fun _ => rfl
    · simp only [hf]
      apply Isolated.outside hw
      · intro d b
        have htest : movTest (d.withCsr b).ctx.sr (rt ir) = movTest d.ctx.sr (rt ir) := rfl
        rw [htest]
        cases movTest d.ctx.sr (rt ir) <;> rfl
      · intro d
        cases movTest d.ctx.sr (rt ir) <;> rfl
  case h_8 => exact .outside (writesCx_of_opcode (by simp_all) (by simp_all)) (fun _ _ => rfl) fun _ => rfl

end Moves

end Instructions

end PsxLinux.MathEmu
