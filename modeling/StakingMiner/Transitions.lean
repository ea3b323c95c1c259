import Mathlib.Logic.Relation

/-!
Transition systems that choose freely among their steps: what every run keeps, and what
every run comes to.
-/

namespace LeanTransitions

open Relation

variable {σ : Type} {step : σ → σ → Prop} {goal : σ → Prop} {start : σ}

theorem kept_by_runs (holds : σ → Prop)
    (kept : ∀ before after, holds before → step before after → holds after)
    (begins : holds start) {state : σ} (run : ReflTransGen step start state) : holds state := by
  induction run with
  | refl => exact begins
  | tail _ last ih => exact kept _ _ ih last

/-- Whatever steps are chosen, the run goes on until it meets the goal. -/
inductive Inevitable (step : σ → σ → Prop) (goal : σ → Prop) : σ → Prop
  | now {state} (met : goal state) : Inevitable step goal state
  | later {state} (moves : ∃ after, step state after)
      (onward : ∀ after, step state after → Inevitable step goal after) :
      Inevitable step goal state

theorem inevitable_of_measure (holds : σ → Prop) (size : σ → Nat)
    (kept : ∀ before after, holds before → step before after → holds after)
    (shrinks : ∀ before after, holds before → step before after → size after < size before)
    (moves : ∀ state, holds state → ¬goal state → ∃ after, step state after)
    (begins : holds start) : Inevitable step goal start := by
  generalize bound : size start = count
  induction count using Nat.strongRecOn generalizing start with
  | ind count ih =>
      by_cases met : goal start
      · exact .now met
      · refine .later (moves start begins met) fun after taken => ?_
        exact ih _ (bound ▸ shrinks start after begins taken) (kept start after begins taken) rfl

theorem Inevitable.reaches (inevitable : Inevitable step goal start) :
    ∃ state, ReflTransGen step start state ∧ goal state := by
  induction inevitable with
  | now met => exact ⟨_, .refl, met⟩
  | later moves _ ih =>
      obtain ⟨after, taken⟩ := moves
      obtain ⟨state, run, met⟩ := ih after taken
      exact ⟨state, .head taken run, met⟩

end LeanTransitions
