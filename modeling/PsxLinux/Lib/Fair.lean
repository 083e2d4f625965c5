import Mathlib.Order.WellFounded
import PsxLinux.Lib.Exec

/-!
# Endless runs and weak fairness

`Endless step ok s run` says that `run` is an endless run from `s`. What holds of every finite run
holds of every state of an endless one (`Endless.exec`). `Trace.eventually` is the rule for
progress under weak fairness: a measure that no step increases, and in every state a party that
helps, whose own steps decrease it and who keeps helping until it moves.
-/

namespace PsxLinux.Lib

variable {S A E : Type*}

/-- The states, the actions and the events of a run without end. -/
structure Trace (S A E : Type*) where
  state : ℕ → S
  act : ℕ → A
  events : ℕ → List E

/-- The trace is a run from the given state, and every step of it meets the guard. -/
structure Endless (step : S → A → Option (S × List E)) (ok : S → A → Prop) (s : S)
    (run : Trace S A E) : Prop where
  start : run.state 0 = s
  guard : ∀ i, ok (run.state i) (run.act i)
  next : ∀ i, step (run.state i) (run.act i) = some (run.state (i + 1), run.events i)

/-- One more step in front of a trace. -/
def Trace.cons (s : S) (a : A) (es : List E) (run : Trace S A E) : Trace S A E where
  state
    | 0 => s
    | i + 1 => run.state i
  act
    | 0 => a
    | i + 1 => run.act i
  events
    | 0 => es
    | i + 1 => run.events i

/-- What is possible from some point on happens after it. -/
def WeaklyFair (possible happens : ℕ → Prop) : Prop :=
  ∀ i, (∀ j, i ≤ j → possible j) → ∃ j, i ≤ j ∧ happens j

namespace Endless
variable {step : S → A → Option (S × List E)} {ok : S → A → Prop} {s : S} {run : Trace S A E}

lemma exec (h : Endless step ok s run) (i : ℕ) : ∃ as es, Exec step ok s as es (run.state i) := by
  induction i with
  | zero => exact ⟨[], [], h.start ▸ .refl _⟩
  | succ i ih =>
    obtain ⟨as, es, hrun⟩ := ih
    exact ⟨_, _, .tail hrun (h.guard i) (h.next i)⟩

lemma cons {a : A} {t : S} {es : List E} (hok : ok s a) (hs : step s a = some (t, es))
    (h : Endless step ok t run) : Endless step ok s (.cons s a es run) := by
  refine ⟨rfl, fun i => ?_, fun i => ?_⟩
  · cases i with
    | zero => exact hok
    | succ i => exact h.guard i
  · cases i with
    | zero => exact hs.trans (by simp only [Trace.cons, h.start])
    | succ i => exact h.next i

lemma append {t : S} {as : List A} {es : List E} (hrun : Exec step ok s as es t)
    (h : Endless step ok t run) :
    ∃ run', Endless step ok s run' ∧ ∃ n, ∀ i, run'.state (n + i) = run.state i := by
  induction hrun generalizing run with
  | refl => exact ⟨run, h, 0, fun i => by rw [Nat.zero_add]⟩
  | tail _ hok hs ih =>
    obtain ⟨run', hrun', n, hn⟩ := ih (h.cons hok hs)
    refine ⟨run', hrun', n + 1, fun i => ?_⟩
    rw [Nat.add_assoc, hn, Nat.add_comm 1 i]
    rfl

lemma const {a : A} (hok : ok s a) (hs : step s a = some (s, [])) :
    Endless step ok s ⟨fun _ => s, fun _ => a, fun _ => []⟩ :=
  ⟨rfl, fun _ => hok, fun _ => hs⟩

end Endless

/-- **Progress under weak fairness.** While `P` holds and the goal is not met, no step increases the
measure; a step that leaves it is made by no party that helps, and who helps goes on helping. If in
every such state somebody helps, and who helps forever moves, then the goal is met. -/
theorem Trace.eventually {M T : Type*} [Preorder M] [WellFoundedLT M] (run : Trace S A E) (m : S → M)
    (P : S → Prop)
    (helps : S → T → Prop) (moves : A → T → Prop) {goal : ℕ → Prop}
    (hstep : ∀ i, P (run.state i) → goal i ∨ P (run.state (i + 1)) ∧
      (m (run.state (i + 1)) < m (run.state i) ∨ m (run.state (i + 1)) = m (run.state i) ∧
        ∀ t, helps (run.state i) t → ¬ moves (run.act i) t ∧ helps (run.state (i + 1)) t))
    (hhelp : ∀ i, P (run.state i) → ∃ t, helps (run.state i) t)
    (hfair : ∀ t, WeaklyFair (fun i => helps (run.state i) t) fun i => moves (run.act i) t)
    {i : ℕ} (hi : P (run.state i)) : ∃ j, i ≤ j ∧ goal j := by
  -- induction on the measure: it decreases later, or stays forever
  generalize hm : m (run.state i) = x
  induction x using WellFoundedLT.induction generalizing i with
  | _ x ih =>
    by_contra hno
    have hgoal : ∀ j, i ≤ j → ¬ goal j := fun j hj hg => hno ⟨j, hj, hg⟩
    obtain ⟨t, ht⟩ := hhelp i hi
    have hstay : ∀ j, i ≤ j → P (run.state j) ∧ m (run.state j) = x ∧ helps (run.state j) t := by
      intro j hj
      induction j, hj using Nat.le_induction with
      | base => exact ⟨hi, hm, ht⟩
      | succ j hj ihj =>
        obtain ⟨hP, hx, hh⟩ := ihj
        obtain ⟨hP', hless | ⟨hsame, hkeep⟩⟩ := (hstep j hP).resolve_left (hgoal j hj)
        · obtain ⟨j', hj', hg⟩ := ih _ (hx ▸ hless) hP' rfl
          exact absurd hg (hgoal j' (by omega))
        · exact ⟨hP', hsame.trans hx, (hkeep t hh).2⟩
    obtain ⟨j, hj, hmove⟩ := hfair t i fun j hj => (hstay j hj).2.2
    -- a step of the helper cannot leave the measure
    obtain ⟨hP, hx, hh⟩ := hstay j hj
    obtain ⟨-, hless | ⟨-, hkeep⟩⟩ := (hstep j hP).resolve_left (hgoal j hj)
    · have hnext := (hstay (j + 1) (by omega)).2.1
      rw [hnext, hx] at hless
      exact lt_irrefl x hless
    · exact (hkeep t hh).1 hmove

end PsxLinux.Lib
