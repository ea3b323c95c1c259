import StakingMiner.ProcessLogic
import StakingMiner.ProgramPartial

/-!
The operations of one task along the runs of a process. A task whose turns are verified against
a monitor has only issued operations that the monitor allowed when they were issued, so a fact
about accepted traces is a fact about the task in every interleaving.
-/

namespace LeanProgram

variable {ι γ μ Op : Type} {Resp : Op → Type} [DecidableEq ι] {process : Process ι Op Resp}
variable {M : Monitor Op Resp γ} {task : ι} {start : γ}
variable {invariant : process.Store task → γ → Prop}

theorem Monitor.accepts_append_event (ghost : γ) (trace : Trace Op Resp) (event : Event Op Resp) :
    M.Accepts ghost (trace ++ [event]) ↔
      M.Accepts ghost trace ∧ M.allows (M.after ghost trace) event.1 :=
  (M.accepts_append ghost trace [event]).trans (and_congr_right fun _ => and_iff_left trivial)

theorem Monitor.Accepts.keeps {keeps : γ → Prop} {ghost : γ} {trace : Trace Op Resp}
    (kept : ∀ ghost op answer, M.allows ghost op → keeps ghost → keeps (M.next ghost op answer))
    (accepts : M.Accepts ghost trace) (holds : keeps ghost) : keeps (M.after ghost trace) := by
  induction trace generalizing ghost with
  | nil => exact holds
  | cons event rest ih => exact ih accepts.2 (kept ghost event.1 event.2 accepts.1 holds)

structure Process.Obeys (process : Process ι Op Resp) (task : ι) (M : Monitor Op Resp γ)
    (start : γ) (invariant : process.Store task → γ → Prop) (state : process.State) : Prop where
  follows : process.Follows task M start invariant state
  accepts : M.Accepts start (state.trace task)

theorem Process.Obeys.step {state after : process.State} {label : Option (ι × Event Op Resp)}
    (turns : ∀ store ghost, invariant store ghost → wp M (process.turn task)
      (fun outcome store ghost => outcome = .ok () → invariant store ghost) store ghost)
    (obeys : process.Obeys task M start invariant state) (step : process.Step state label after)
    (expected : ∀ event, label = some (task, event) →
      M.expects (M.after start (state.trace task)) event.1 event.2) :
    process.Obeys task M start invariant after := by
  refine ⟨obeys.follows.step turns step expected, ?_⟩
  cases step with
  | call issuer answer waits given =>
      by_cases same : task = issuer
      · subst same
        rw [answered_trace, Monitor.accepts_append_event]
        exact ⟨obeys.accepts, obeys.follows.allows ⟨_, waits⟩⟩
      · rw [answered_trace_other state _ _ _ same]
        exact obeys.accepts
  | move mover moves => exact obeys.accepts
  | evolve evolves => exact obeys.accepts

section Obeys

variable {meets : process.State → ι × Event Op Resp → Prop} {first state : process.State}

/-- A task follows a monitor along a run that gives it only answers the monitor expects. -/
theorem Process.Runs.obeys_expecting (run : process.Runs meets first state) (fresh : first.log = [])
    (turns : ∀ store ghost, invariant store ghost → wp M (process.turn task)
      (fun outcome store ghost => outcome = .ok () → invariant store ghost) store ghost)
    (expected : ∀ (state : process.State) op answer, process.Runs meets first state →
      meets state (task, ⟨op, answer⟩) → process.possible state.world task op answer →
      M.expects (M.after start (state.trace task)) op answer)
    (begins : wp M (first.thread task).rest
      (fun outcome store ghost => outcome = .ok () → invariant store ghost)
      (first.thread task).store start) :
    process.Obeys task M start invariant state := by
  induction run with
  | refl =>
      have empty : first.trace task = [] := by simp [Process.State.trace, fresh]
      refine ⟨?_, by simp [empty, Monitor.Accepts]⟩
      unfold Process.Follows
      rw [empty]
      exact begins
  | step earlier step condition ih =>
      refine ih.step turns step ?_
      rintro ⟨op, answer⟩ rfl
      cases step with
      | call issuer answer waits given =>
          exact expected _ op answer earlier (condition _ rfl) given

theorem Process.Runs.obeys (run : process.Runs meets first state) (fresh : first.log = [])
    (turns : ∀ store ghost, invariant store ghost → wp M (process.turn task)
      (fun outcome store ghost => outcome = .ok () → invariant store ghost) store ghost)
    (expects : ∀ ghost op answer, M.expects ghost op answer)
    (begins : wp M (first.thread task).rest
      (fun outcome store ghost => outcome = .ok () → invariant store ghost)
      (first.thread task).store start) :
    process.Obeys task M start invariant state :=
  run.obeys_expecting fresh turns (fun _ _ _ _ _ _ => expects _ _ _) begins

end Obeys

theorem Process.Runs.at_event {meets : process.State → ι × Event Op Resp → Prop}
    {first state : process.State} (run : process.Runs meets first state) (fresh : first.log = [])
    {before after : List (ι × Event Op Resp)} {task : ι} {op : Op} {answer : Resp op}
    (logged : state.log = before ++ (task, ⟨op, answer⟩) :: after) :
    ∃ earlier : process.State, process.Runs meets first earlier ∧ earlier.log = before ∧
      (earlier.thread task).WaitsIn op ∧ process.possible earlier.world task op answer := by
  induction run generalizing after with
  | refl => simp [fresh] at logged
  | @step current label reached runs step condition ih =>
      cases step with
      | call issuer given waits possible =>
          change current.log ++ [_] = _ at logged
          rcases List.eq_nil_or_concat' after with rfl | ⟨sooner, newest, rfl⟩
          · obtain ⟨same, ends⟩ := List.append_inj' logged rfl
            cases ends
            exact ⟨current, runs, same, ⟨_, waits⟩, possible⟩
          · rw [← List.cons_append, ← List.append_assoc] at logged
            exact ih (List.append_inj' logged rfl).1
      | move mover moves => exact ih logged
      | evolve evolves => exact ih logged

theorem answered_filterMap (state : process.State) (issuer task : ι) (op : Op) (answer : Resp op)
    (rest) (found : Event Op Resp → Option μ) :
    ((state.answered issuer op answer rest).trace task).filterMap found =
      (state.trace task).filterMap found ++
        if task = issuer then (found ⟨op, answer⟩).toList else [] := by
  by_cases same : task = issuer
  · subst same
    rw [answered_trace, List.filterMap_append, if_pos rfl]
    cases here : found ⟨op, answer⟩ <;> simp [here]
  · rw [answered_trace_other state op answer rest same, if_neg same, List.append_nil]

def Extends (kind : Op → Bool) (trace after : Trace Op Resp) : Prop :=
  ∃ passed, after = trace ++ passed ∧ ∀ event ∈ passed, kind event.1 = true

section Extensions

variable {kind more : Op → Bool} {trace after : Trace Op Resp}

theorem extends_refl (trace : Trace Op Resp) : Extends kind trace trace := ⟨[], by simp⟩

theorem Extends.later (extended : Extends kind trace after) {event : Event Op Resp}
    (same : kind event.1 = true) : Extends kind trace (after ++ [event]) := by
  obtain ⟨passed, rfl, kinds⟩ := extended
  refine ⟨passed ++ [event], by simp, ?_⟩
  simpa [or_imp, forall_and] using And.intro kinds same

theorem Extends.mono (extended : Extends kind trace after)
    (implies : ∀ op, kind op = true → more op = true) : Extends more trace after := by
  obtain ⟨passed, same, kinds⟩ := extended
  exact ⟨passed, same, fun event member => implies _ (kinds event member)⟩

end Extensions

section Since

variable {trace during : Trace Op Resp} {last event : Event Op Resp}

/-- What came after the last event with the operation of `last`, which was `last` itself. -/
def Since (trace : Trace Op Resp) (last : Event Op Resp) (during : Trace Op Resp) : Prop :=
  ∃ before, trace = before ++ last :: during ∧ ∀ event ∈ during, event.1 ≠ last.1

theorem since_last (trace : Trace Op Resp) (last : Event Op Resp) :
    Since (trace ++ [last]) last [] :=
  ⟨trace, rfl, by simp⟩

theorem Since.later (since : Since trace last during) (other : event.1 ≠ last.1) :
    Since (trace ++ [event]) last (during ++ [event]) := by
  obtain ⟨before, rfl, quiet⟩ := since
  refine ⟨before, by simp, ?_⟩
  intro later member
  rcases List.mem_append.mp member with earlier | new
  · exact quiet later earlier
  · rw [List.mem_singleton.mp new]
    exact other

theorem Since.unique {op : Op} {first second : Resp op} {other : Trace Op Resp}
    (one : Since trace ⟨op, first⟩ during) (two : Since trace ⟨op, second⟩ other) :
    first = second ∧ during = other := by
  obtain ⟨before, rfl, quiet⟩ := one
  obtain ⟨earlier, split, silent⟩ := two
  rcases List.append_eq_append_iff.mp split with ⟨between, _, same⟩ | ⟨between, _, same⟩
  · cases between with
    | nil =>
        cases same
        exact ⟨rfl, rfl⟩
    | cons event rest =>
        have later : during = rest ++ ⟨op, second⟩ :: other := (List.cons.inj same).2
        exact absurd rfl (quiet ⟨op, second⟩ (by simp [later]))
  · cases between with
    | nil =>
        cases same
        exact ⟨rfl, rfl⟩
    | cons event rest =>
        have later : other = rest ++ ⟨op, first⟩ :: during := (List.cons.inj same).2
        exact absurd rfl (silent ⟨op, first⟩ (by simp [later]))

theorem Since.extended {kind : Op → Bool} {after : Trace Op Resp}
    (since : Since trace last during) (extended : Extends kind trace after)
    (apart : ∀ op, kind op = true → op ≠ last.1) :
    ∃ passed, Since after last (during ++ passed) ∧ ∀ event ∈ passed, kind event.1 = true := by
  obtain ⟨before, rfl, quiet⟩ := since
  obtain ⟨passed, rfl, kinds⟩ := extended
  refine ⟨passed, ⟨before, by simp, ?_⟩, kinds⟩
  intro event member
  rcases List.mem_append.mp member with earlier | later
  · exact quiet event earlier
  · exact apart _ (kinds event later)

theorem Since.mem (since : Since trace last during) : last ∈ trace := by
  obtain ⟨before, rfl, _⟩ := since
  simp

end Since

end LeanProgram
