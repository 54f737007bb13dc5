import Mathlib.Data.Nat.Notation

/-!
A loop with a body that may fail, given up when its fuel is used. Two rules:
with a variant the loop ends, and its answer does not depend on the fuel; with an
invariant that keeps the guard true it never ends. Nothing here knows what the
states are.
-/

namespace AndroidKernel.Loop

universe u
variable {State : Type u}

def run (guard : State → Bool) (body : State → Option State) : Nat → State → Option State
  | 0, _ => none
  | fuel + 1, state =>
      if guard state then (body state).bind (run guard body fuel) else some state

variable {guard : State → Bool} {body : State → Option State} {inv : State → Prop}

/-- The total rule: the body keeps the invariant and lowers the variant. -/
theorem run_ends (variant : State → Nat)
    (step : ∀ state, inv state → guard state = true →
      ∃ next, body state = some next ∧ inv next ∧ variant next < variant state)
    (state : State) (start : inv state) :
    ∃ out, inv out ∧ guard out = false ∧
      ∀ fuel, variant state < fuel → run guard body fuel state = some out := by
  generalize bound : variant state = size
  induction size using Nat.strongRecOn generalizing state with
  | ind size ih =>
      cases going : guard state with
      | false =>
          refine ⟨state, start, going, fun fuel enough => ?_⟩
          cases fuel with
          | zero => omega
          | succ fuel => simp [run, going]
      | true =>
          obtain ⟨next, moved, kept, lower⟩ := step state start going
          obtain ⟨out, good, ended, answers⟩ := ih (variant next) (bound ▸ lower) next kept rfl
          refine ⟨out, good, ended, fun fuel enough => ?_⟩
          cases fuel with
          | zero => omega
          | succ fuel =>
              simp only [run, going, if_true, moved, Option.bind_some]
              exact answers fuel (by omega)

/-- The divergence rule: the invariant keeps the guard true. -/
theorem run_diverges (going : ∀ state, inv state → guard state = true)
    (step : ∀ state next, inv state → body state = some next → inv next)
    (fuel : Nat) (state : State) (start : inv state) : run guard body fuel state = none := by
  induction fuel generalizing state with
  | zero => rfl
  | succ fuel ih =>
      simp only [run, going state start, if_true]
      cases moved : body state with
      | none => rfl
      | some next => exact ih next (step state next start moved)

end AndroidKernel.Loop
