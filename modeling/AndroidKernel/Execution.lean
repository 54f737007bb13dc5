import Mathlib.Order.Monotone.Basic
import AndroidKernel.Transition

/-!
Executions that never end, for what has to happen sooner or later. Several
parties take the steps; an execution is fair when a party that is ready again and
again acts again and again. What a party does until it is never ready any more is
bounded by a potential. Nothing here knows what the parties are.
-/

namespace AndroidKernel.Transition

universe u v w
variable {State : Type u} {Action : Type v} {Party : Type w}

structure Execution (step : State → Action → Option State) where
  state : Nat → State
  action : Nat → Action
  moves : ∀ i, step (state i) (action i) = some (state (i + 1))

namespace Execution
variable {step : State → Action → Option State} (exec : Execution step)

def actions (n : Nat) : List Action := (List.range n).map exec.action

theorem actions_succ (n : Nat) : exec.actions (n + 1) = exec.actions n ++ [exec.action n] := by
  simp [actions, List.range_succ]

theorem run {ok : State → Action → Prop} (allowed : ∀ i, ok (exec.state i) (exec.action i))
    (n : Nat) : Run step ok (exec.state 0) (exec.actions n) (exec.state n) := by
  induction n with
  | zero => exact .refl _
  | succ n ih =>
      rw [actions_succ]
      exact ih.append (.next (allowed n) (exec.moves n) (.refl _))

theorem enters (inside : State → Prop) (outside : ¬ inside (exec.state 0)) {n : Nat}
    (reached : inside (exec.state n)) :
    ∃ i < n, ¬ inside (exec.state i) ∧ inside (exec.state (i + 1)) := by
  induction n with
  | zero => exact absurd reached outside
  | succ n ih =>
      by_cases already : inside (exec.state n)
      · obtain ⟨i, below, crossing⟩ := ih already
        exact ⟨i, Nat.lt_succ_of_lt below, crossing⟩
      · exact ⟨n, Nat.lt_succ_self n, already, reached⟩

/-- A party that is ready infinitely often acts infinitely often. -/
def Fair (ready : Party → State → Prop) (acts : Party → Action → Prop) : Prop :=
  ∀ party, (∀ i, ∃ j, i ≤ j ∧ ready party (exec.state j)) →
    ∀ i, ∃ j, i ≤ j ∧ acts party (exec.action j)

variable {exec} {ready : Party → State → Prop} {acts : Party → Action → Prop}

/-- A party with a potential acts a last time. -/
theorem last_act (party : Party) {potential : Nat → Nat} (start : Nat)
    (keeps : ∀ i, start ≤ i → potential (i + 1) ≤ potential i)
    (falls : ∀ i, start ≤ i → acts party (exec.action i) → potential (i + 1) < potential i) :
    ∃ last, start ≤ last ∧ ∀ i, last ≤ i → ¬ acts party (exec.action i) := by
  have least : ∀ {i j}, start ≤ i → i ≤ j → potential j ≤ potential i := fun late after =>
    Nat.rel_of_forall_rel_succ_of_le_of_le (· ≥ ·) keeps late after
  -- on what is left of the potential, which one more act makes less
  have descent : ∀ left i, start ≤ i → potential i ≤ left →
      ∃ last, start ≤ last ∧ ∀ j, last ≤ j → ¬ acts party (exec.action j) := by
    intro left
    induction left with
    | zero =>
        intro i late spent
        refine ⟨i, late, fun j after act => ?_⟩
        have below := falls j (by omega) act
        have bounded := least late after
        omega
    | succ left ih =>
        intro i late bounded
        by_cases more : ∃ j, i ≤ j ∧ acts party (exec.action j)
        · obtain ⟨j, after, act⟩ := more
          have below := falls j (by omega) act
          have before := least late after
          exact ih (j + 1) (by omega) (by omega)
        · exact ⟨i, late, fun j after act => more ⟨j, after, act⟩⟩
  exact descent (potential start) start (Nat.le_refl _) (Nat.le_refl _)

theorem Fair.rests (fair : exec.Fair ready acts) (party : Party) {potential : Nat → Nat}
    (start : Nat) (keeps : ∀ i, start ≤ i → potential (i + 1) ≤ potential i)
    (falls : ∀ i, start ≤ i → acts party (exec.action i) → potential (i + 1) < potential i) :
    ∃ last, start ≤ last ∧ ∀ i, last ≤ i → ¬ ready party (exec.state i) := by
  obtain ⟨last, late, quiet⟩ := last_act party start keeps falls
  by_contra never
  have often : ∀ i, ∃ j, i ≤ j ∧ ready party (exec.state j) := by
    intro i
    by_contra none
    refine never ⟨max i last, by omega, fun j after isReady => none ⟨j, by omega, isReady⟩⟩
  obtain ⟨j, after, act⟩ := fair party often last
  exact quiet j after act

end Execution

end AndroidKernel.Transition
