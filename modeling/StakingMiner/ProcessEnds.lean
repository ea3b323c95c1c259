import StakingMiner.ProcessLogic

/-!
How the tasks of a process end. A task that failed or panicked stays as it is, and what its
turns are verified to end in holds of it then, whatever the other tasks do.
-/

namespace LeanProgram

variable {ι γ σ ε Op : Type} {Resp : Op → Type}

def Thread.Ended (thread : Thread σ ε Op Resp) : Prop :=
  thread.rest = .panic ∨ ∃ error, thread.rest = .fail error

theorem Thread.Ended.stays {turn : Program σ ε Op Resp Unit} {thread after : Thread σ ε Op Resp}
    (ended : thread.Ended) : ¬thread.Moves turn after := by
  intro moves
  cases moves <;> rcases ended with panicked | ⟨error, failed⟩ <;> contradiction

variable [DecidableEq ι] {process : Process ι Op Resp} {M : Monitor Op Resp γ} {task : ι}
variable {start : γ} {state after : process.State} {label : Option (ι × Event Op Resp)}

theorem Process.Step.keeps_ended (step : process.Step state label after)
    (ended : (state.thread task).Ended) : after.thread task = state.thread task := by
  cases step with
  | call issuer answer waits given =>
      by_cases same : task = issuer
      · subst same
        rcases ended with panicked | ⟨error, failed⟩
        · exact nomatch panicked.symm.trans waits
        · exact nomatch failed.symm.trans waits
      · exact answered_thread_other state _ answer _ same
  | move mover moves =>
      by_cases same : task = mover
      · subst same
        exact absurd moves ended.stays
      · exact setThread_thread_other state _ same
  | evolve evolves => rfl

theorem Process.Step.keeps_trace (step : process.Step state label after)
    (ended : (state.thread task).Ended) : after.trace task = state.trace task := by
  cases step with
  | call issuer answer waits given =>
      refine answered_trace_other state _ answer _ ?_
      rintro rfl
      rcases ended with panicked | ⟨error, failed⟩
      · exact nomatch panicked.symm.trans waits
      · exact nomatch failed.symm.trans waits
  | move mover moves => rfl
  | evolve evolves => rfl

/-- What remains of the task's turn is verified, and a turn that ends well leaves what the next
one begins with. -/
def Process.Attains (process : Process ι Op Resp) (task : ι) (M : Monitor Op Resp γ) (start : γ)
    (post : Outcome process.Failure Unit → process.Store task → γ → Prop)
    (state : process.State) : Prop :=
  wp M (state.thread task).rest post (state.thread task).store (state.ghosts M start task)

variable {post : Outcome process.Failure Unit → process.Store task → γ → Prop}

theorem Process.Attains.step
    (turns : ∀ store ghost, post (.ok ()) store ghost → wp M (process.turn task) post store ghost)
    (expects : ∀ ghost op answer, M.expects ghost op answer)
    (attains : process.Attains task M start post state) (step : process.Step state label after) :
    process.Attains task M start post after := by
  unfold Process.Attains at attains ⊢
  cases step with
  | call issuer answer waits given =>
      by_cases same : task = issuer
      · subst same
        rw [waits] at attains
        rw [answered_thread, ghosts_answered]
        exact attains.2 answer (expects _ _ answer)
      · rw [answered_thread_other state _ _ _ same, ghosts_answered_other state M start _ _ _ same]
        exact attains
  | move mover moves =>
      by_cases same : task = mover
      · subst same
        rw [setThread_thread]
        change wp M _ post _ (state.ghosts M start task)
        generalize state.thread task = thread at moves attains
        cases moves with
        | tick fired => exact attains fired
        | get => exact attains
        | set => exact attains
        | again => exact turns _ _ attains
      · rw [setThread_thread_other state _ same]
        exact attains
  | evolve evolves => exact attains

theorem Process.Attains.failed {error : process.Failure}
    (attains : process.Attains task M start post state)
    (failed : (state.thread task).rest = .fail error) :
    post (.err error) (state.thread task).store (state.ghosts M start task) := by
  unfold Process.Attains at attains
  rw [failed] at attains
  exact attains

theorem Process.Attains.panicked (attains : process.Attains task M start post state)
    (panicked : (state.thread task).rest = .panic) :
    post .panic (state.thread task).store (state.ghosts M start task) := by
  unfold Process.Attains at attains
  rw [panicked] at attains
  exact attains

end LeanProgram
