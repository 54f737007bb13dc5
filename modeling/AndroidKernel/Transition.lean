import Mathlib.Data.List.Basic

/-!
Runs of a partial, labelled step function. A run records the actions taken;
each action must meet a side condition `ok` in the state it starts from, so a
statement about all runs takes `ok` true and a statement about the runs that
avoid a defect takes the condition that excludes it. Nothing here knows what
the states are.
-/

namespace AndroidKernel.Transition

universe u v
variable {State : Type u} {Action : Type v}

inductive Run (step : State → Action → Option State) (ok : State → Action → Prop) :
    State → List Action → State → Prop where
  | refl (state) : Run step ok state [] state
  | next {before middle after : State} {action : Action} {rest : List Action}
      (allowed : ok before action) (moved : step before action = some middle)
      (tail : Run step ok middle rest after) : Run step ok before (action :: rest) after

variable {step : State → Action → Option State} {ok : State → Action → Prop}

theorem Run.weaken {weak : State → Action → Prop} {before after : State}
    {actions : List Action} (run : Run step ok before actions after)
    (imp : ∀ state action, ok state action → weak state action) :
    Run step weak before actions after := by
  induction run with
  | refl state => exact .refl state
  | next allowed moved _ ih => exact .next (imp _ _ allowed) moved ih

/-- What every allowed step keeps, a run keeps. -/
theorem Run.invariant {inv : State → Prop} {before after : State} {actions : List Action}
    (run : Run step ok before actions after)
    (keeps : ∀ state action next, inv state → ok state action →
      step state action = some next → inv next)
    (start : inv before) : inv after := by
  induction run with
  | refl => exact start
  | next allowed moved _ ih => exact ih (keeps _ _ _ start allowed moved)

/-- The same for a side condition that follows only where the invariant holds. -/
theorem Run.weaken_invariant {inv : State → Prop} {weak : State → Action → Prop}
    {before after : State} {actions : List Action} (run : Run step ok before actions after)
    (keeps : ∀ state action next, inv state → ok state action →
      step state action = some next → inv next)
    (imp : ∀ state action, inv state → ok state action → weak state action)
    (start : inv before) : Run step weak before actions after := by
  induction run with
  | refl state => exact .refl state
  | next allowed moved _ ih =>
      exact .next (imp _ _ start allowed) moved (ih (keeps _ _ _ start allowed moved))

theorem Run.append {before middle after : State} {actions later : List Action}
    (one : Run step ok before actions middle) (two : Run step ok middle later after) :
    Run step ok before (actions ++ later) after := by
  induction one with
  | refl => exact two
  | next allowed moved _ ih => exact .next allowed moved (ih two)

/-- A side condition on the actions alone is one on the list of them. -/
theorem Run.of_actions {good : Action → Prop} {before after : State} {actions : List Action}
    (run : Run step ok before actions after) (all : ∀ action ∈ actions, good action) :
    Run step (fun _ action => good action) before actions after := by
  induction run with
  | refl state => exact .refl state
  | next _ moved _ ih =>
      have later := ih fun action inside => all action (List.mem_cons_of_mem _ inside)
      exact .next (all _ List.mem_cons_self) moved later

theorem Run.actions_good {good : Action → Prop} {before after : State} {actions : List Action}
    (run : Run step ok before actions after)
    (imp : ∀ state action next, ok state action → step state action = some next → good action) :
    ∀ action ∈ actions, good action := by
  induction run with
  | refl => exact fun _ inside => absurd inside List.not_mem_nil
  | next allowed moved _ ih =>
      intro action inside
      rcases List.mem_cons.mp inside with rfl | later
      · exact imp _ _ _ allowed moved
      · exact ih action later

theorem run_repeat (state : Nat → State) {action : Action} {count : Nat}
    (moves : ∀ i < count, step (state i) action = some (state (i + 1))) :
    Run step (fun _ _ => True) (state 0) (List.replicate count action) (state count) := by
  induction count with
  | zero => exact .refl _
  | succ count ih =>
      rw [List.replicate_succ']
      have sofar := ih fun i below => moves i (Nat.lt_succ_of_lt below)
      exact sofar.append (.next trivial (moves count (Nat.lt_succ_self count)) (.refl _))

def runActions (step : State → Action → Option State) : State → List Action → Option State
  | state, [] => some state
  | state, action :: rest =>
      match step state action with
      | none => none
      | some next => runActions step next rest

theorem run_of_actions {before after : State} {actions : List Action}
    (done : runActions step before actions = some after) :
    Run step (fun _ _ => True) before actions after := by
  induction actions generalizing before with
  | nil =>
      simp only [runActions, Option.some.injEq] at done
      subst done
      exact .refl before
  | cons action rest ih =>
      simp only [runActions] at done
      cases moved : step before action with
      | none => simp [moved] at done
      | some next =>
          simp only [moved] at done
          exact .next trivial moved (ih done)

theorem run_of_isSome (before : State) (actions : List Action)
    (done : (runActions step before actions).isSome) :
    Run step (fun _ _ => True) before actions ((runActions step before actions).get done) :=
  run_of_actions (Option.some_get done).symm

def allAllowed (step : State → Action → Option State) (ok : State → Action → Prop)
    [∀ state action, Decidable (ok state action)] : State → List Action → Bool
  | _, [] => true
  | state, action :: rest =>
      decide (ok state action) &&
        match step state action with
        | none => true
        | some next => allAllowed step ok next rest

theorem Run.of_allAllowed [∀ state action, Decidable (ok state action)] {before after : State}
    {actions : List Action} (run : Run step (fun _ _ => True) before actions after)
    (fine : allAllowed step ok before actions = true) : Run step ok before actions after := by
  induction run with
  | refl state => exact .refl state
  | next _ moved _ ih =>
      simp only [allAllowed, moved, Bool.and_eq_true, decide_eq_true_eq] at fine
      exact .next fine.1 moved (ih fine.2)

def totalCost (step : State → Action → Option State) (cost : State → Action → Nat) :
    State → List Action → Nat
  | _, [] => 0
  | state, action :: rest =>
      cost state action +
        match step state action with
        | none => 0
        | some next => totalCost step cost next rest

/-- The potential argument. `ok` says in particular that the run is still
waiting before each action; the last action may end the wait, so its cost is
bounded by itself and the potential only has to be paid while waiting goes on. -/
theorem Run.cost_le_potential {inv waits : State → Prop} {cost : State → Action → Nat}
    {potential : State → Nat} {before after : State} {actions : List Action}
    (run : Run step (fun state action => waits state ∧ ok state action) before actions after)
    (keeps : ∀ state action next, inv state → waits state → ok state action →
      step state action = some next →
      inv next ∧ cost state action ≤ potential state ∧
        (waits next → cost state action + potential next ≤ potential state))
    (start : inv before) : totalCost step cost before actions ≤ potential before := by
  induction run with
  | refl => exact Nat.zero_le _
  | @next before middle after action rest allowed moved tail ih =>
      obtain ⟨kept, single, paid⟩ := keeps _ _ _ start allowed.1 allowed.2 moved
      have later := ih kept
      simp only [totalCost, moved]
      cases tail with
      | refl => simpa [totalCost] using single
      | next allowed' _ _ =>
          have spent := paid allowed'.1
          omega

end AndroidKernel.Transition
