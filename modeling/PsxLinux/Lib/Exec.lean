import Mathlib.Algebra.Order.Ring.Int
import Mathlib.Data.List.Basic

/-!
# Guarded executions of a labelled step function

A component with state `S` takes actions `A` and emits events `E`. Its step function
returns `none` where an action is not enabled. `Exec step ok s as es s'` says that the
actions `as` lead from `s` to `s'` and emit `es`, and that every single step met the guard
`ok` in the state it was taken from. The guard is how a result about *some* runs is stated:
with the trivial guard `anyStep` the run is unrestricted.

Results about runs rest on `Exec.invariant` (what one guarded step keeps, a run keeps) and
`Exec.of_run` (an evaluated run is a run).
-/

namespace PsxLinux.Lib

variable {S A E : Type*}

/-- A step answers with one state and one list of events. -/
lemma some_pair_inj {α β : Type*} {a c : α} {b d : β} (h : some (a, b) = some (c, d)) :
    a = c ∧ b = d :=
  Prod.mk.inj (Option.some.inj h)

/-- An entry of a changed table is the new one or an old one. -/
lemma update_cases {α β : Type*} [DecidableEq α] {f : α → β} {t u : α} {v x : β}
    (h : Function.update f t v u = x) : u = t ∧ v = x ∨ u ≠ t ∧ f u = x := by
  by_cases hu : u = t
  · exact .inl ⟨hu, by rwa [hu, Function.update_self] at h⟩
  · exact .inr ⟨hu, by rwa [Function.update_of_ne hu] at h⟩

/-- The actions `as`, all meeting the guard `ok`, lead from one state to another and emit
the given events. -/
inductive Exec (step : S → A → Option (S × List E)) (ok : S → A → Prop) :
    S → List A → List E → S → Prop
  | refl (s : S) : Exec step ok s [] [] s
  | tail {s t u : S} {as : List A} {es fs : List E} {a : A} :
      Exec step ok s as es t → ok t a → step t a = some (u, fs) →
      Exec step ok s (as ++ [a]) (es ++ fs) u

/-- The guard that every step meets. -/
def anyStep (_ : S) (_ : A) : Prop := True

instance (s : S) (a : A) : Decidable (anyStep s a) := isTrue trivial

namespace Exec

variable {step : S → A → Option (S × List E)} {ok ok' : S → A → Prop}
variable {s t u : S} {as bs : List A} {es fs : List E}

section Invariants

variable (hrun : Exec step ok s as es t)
include hrun

/-- **Invariant rule.** What holds at the start with no events emitted, and is kept by
every guarded step, holds of the state and the events of every run. -/
theorem invariant {P : S → List E → Prop} (hinit : P s [])
    (hstep : ∀ t es a u fs, P t es → ok t a → step t a = some (u, fs) → P u (es ++ fs)) :
    P t es := by
  induction hrun with
  | refl => exact hinit
  | tail _ hok hs ih => exact hstep _ _ _ _ _ ih hok hs

lemma invariant_state {P : S → Prop} (hinit : P s)
    (hstep : ∀ t a u fs, P t → ok t a → step t a = some (u, fs) → P u) : P t :=
  hrun.invariant (P := fun t _ => P t) hinit fun t _ a u fs => hstep t a u fs

/-- The invariant rule with a second system that follows the actions. -/
lemma invariant_foldl {B : Type*} {f : B → A → B} {b : B} {P : S → B → List E → Prop}
    (hinit : P s b [])
    (hstep : ∀ t b es a u fs, P t b es → ok t a → step t a = some (u, fs) →
      P u (f b a) (es ++ fs)) : P t (as.foldl f b) es := by
  induction hrun with
  | refl => exact hinit
  | tail _ hok hs ih =>
    rw [List.foldl_append]
    exact hstep _ _ _ _ _ _ ih hok hs

/-- A run under one guard is a run under another that follows from it and an invariant. -/
lemma mono_of_invariant {P : S → Prop} (hinit : P s)
    (hstep : ∀ t a u fs, P t → ok t a → step t a = some (u, fs) → P u)
    (h : ∀ s a, P s → ok s a → ok' s a) : Exec step ok' s as es t := by
  have hboth : Exec step ok' s as es t ∧ P t := by
    induction hrun with
    | refl => exact ⟨.refl _, hinit⟩
    | tail _ hok hs ih => exact ⟨.tail ih.1 (h _ _ ih.2 hok) hs, hstep _ _ _ _ ih.2 hok hs⟩
  exact hboth.1

lemma mono (h : ∀ s a, ok s a → ok' s a) : Exec step ok' s as es t :=
  hrun.mono_of_invariant (P := fun _ => True) trivial (fun _ _ _ _ _ _ _ => trivial)
    fun s a _ => h s a

/-- A guard on the actions alone may be checked on the whole list. -/
lemma and_of_forall_mem {p : A → Prop} (h : ∀ a ∈ as, p a) :
    Exec step (fun s a => ok s a ∧ p a) s as es t := by
  induction hrun with
  | refl => exact .refl _
  | tail _ hok hs ih =>
    exact .tail (ih fun a ha => h a (List.mem_append_left _ ha)) ⟨hok, h _ (by simp)⟩ hs

end Invariants

lemma trans (h₁ : Exec step ok s as es t) (h₂ : Exec step ok t bs fs u) :
    Exec step ok s (as ++ bs) (es ++ fs) u := by
  induction h₂ with
  | refl => simpa using h₁
  | tail _ hok hs ih =>
    rw [← List.append_assoc, ← List.append_assoc]
    exact .tail ih hok hs

lemma single {a : A} (hok : ok s a) (hs : step s a = some (t, es)) : Exec step ok s [a] es t := by
  simpa using Exec.tail (.refl s) hok hs

/-- Take the actions one after another; `none` if one of them is not enabled or fails the
test. -/
def run (step : S → A → Option (S × List E)) (test : S → A → Bool) :
    S → List A → Option (S × List E)
  | s, [] => some (s, [])
  | s, a :: as =>
    if test s a then
      match step s a with
      | none => none
      | some (t, es) =>
        match run step test t as with
        | none => none
        | some (u, fs) => some (u, es ++ fs)
    else none

lemma of_run {test : S → A → Bool} (htest : ∀ s a, test s a → ok s a)
    (h : run step test s as = some (t, es)) : Exec step ok s as es t := by
  induction as generalizing s es with
  | nil =>
    obtain ⟨rfl, rfl⟩ := h
    exact .refl _
  | cons a as ih =>
    simp only [run] at h
    split_ifs at h with hok
    cases hs : step s a with
    | none => simp [hs] at h
    | some r =>
      obtain ⟨t', es'⟩ := r
      cases hr : run step test t' as with
      | none => simp [hs, hr] at h
      | some r' =>
        obtain ⟨u, fs⟩ := r'
        simp only [hs, hr] at h
        obtain ⟨rfl, rfl⟩ := h
        exact (single (htest _ _ hok) hs).trans (ih hr)

/-- An evaluated run whose end passes a test. -/
lemma exists_of_run {test : S → A → Bool} (htest : ∀ s a, test s a → ok s a)
    (p : S × List E → Bool) (h : (run step test s as).map p = some true) :
    ∃ t es, Exec step ok s as es t ∧ p (t, es) := by
  cases hr : run step test s as with
  | none => simp [hr] at h
  | some r =>
    obtain ⟨t, es⟩ := r
    rw [hr] at h
    exact ⟨t, es, of_run htest hr, by simpa using h⟩

/-- What a run with a certain end leads to. -/
lemma exists_imp {P Q : S → List E → Prop} (h : ∃ t es, Exec step ok s as es t ∧ P t es)
    (hQ : ∀ t es, Exec step ok s as es t → P t es → Q t es) :
    ∃ t es, Exec step ok s as es t ∧ Q t es := by
  obtain ⟨t, es, hrun, hend⟩ := h
  exact ⟨t, es, hrun, hQ t es hrun hend⟩

/-- An evaluated run: what follows from a test of its end. -/
lemma exists_of_test {test : S → A → Bool} (htest : ∀ s a, test s a → ok s a)
    {Q : S → List E → Prop} (P : S → List E → Prop) [∀ t es, Decidable (P t es)]
    (h : (run step test s as).map (fun r => decide (P r.1 r.2)) = some true)
    (hQ : ∀ t es, Exec step ok s as es t → P t es → Q t es) :
    ∃ t es, Exec step ok s as es t ∧ Q t es := by
  obtain ⟨t, es, hrun, hend⟩ := exists_of_run htest _ h
  exact ⟨t, es, hrun, hQ t es hrun (of_decide_eq_true hend)⟩

/-- The same with a decidable guard. -/
lemma exists_of_decide [∀ s a, Decidable (ok s a)] {Q : S → List E → Prop}
    (P : S → List E → Prop) [∀ t es, Decidable (P t es)]
    (h : (run step (fun s a => decide (ok s a)) s as).map (fun r => decide (P r.1 r.2)) = some true)
    (hQ : ∀ t es, Exec step ok s as es t → P t es → Q t es) :
    ∃ t es, Exec step ok s as es t ∧ Q t es :=
  exists_of_test (fun _ _ => of_decide_eq_true) P h hQ

/-- The same where the first state is computed. -/
lemma exists_of_start {o : Option S} {test : S → A → Bool} (htest : ∀ s a, test s a → ok s a)
    {Q : S → S → List E → Prop} (P : S → List E → Prop) [∀ t es, Decidable (P t es)]
    (h : (o.bind fun s => (run step test s as).map fun r => decide (P r.1 r.2)) = some true)
    (hQ : ∀ s t es, o = some s → Exec step ok s as es t → P t es → Q s t es) :
    ∃ s t es, o = some s ∧ Exec step ok s as es t ∧ Q s t es := by
  obtain ⟨s, rfl, hs⟩ := Option.bind_eq_some_iff.1 h
  obtain ⟨t, es, hrun⟩ := exists_of_test htest P hs (hQ s · · rfl)
  exact ⟨s, t, es, rfl, hrun⟩

end Exec
end PsxLinux.Lib
