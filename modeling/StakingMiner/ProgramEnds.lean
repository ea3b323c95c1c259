import StakingMiner.ProgramLogic

/-!
How a program ends in one given environment. The weakest precondition quantifies over the
timers; here the environment decides them, so an assumption on when a timer fires can be
used at the very operation it is about.
-/

namespace LeanProgram

variable {σ τ ε Op α β : Type} {Resp : Op → Type}

/-- The run of the program that starts after `history` ends as `post` says; the last
argument of `post` is the history with the operations of the run added. -/
def Ends (env : Environment Op Resp) (program : Program σ ε Op Resp α)
    (post : Outcome ε α → σ → Trace Op Resp → Prop) (store : σ) (history : Trace Op Resp) : Prop :=
  post (run env program store history).outcome (run env program store history).store
    (history ++ (run env program store history).trace)

def continued (env : Environment Op Resp) (rest : α → Program σ ε Op Resp β)
    (post : Outcome ε β → σ → Trace Op Resp → Prop) : Outcome ε α → σ → Trace Op Resp → Prop
  | .ok value, store, history => Ends env (rest value) post store history
  | .err error, store, history => post (.err error) store history
  | .panic, store, history => post .panic store history

variable {env : Environment Op Resp} {post : Outcome ε α → σ → Trace Op Resp → Prop}
variable {store : σ} {history : Trace Op Resp}

@[simp] theorem ends_pure (value : α) :
    Ends env (Program.pure value) post store history ↔ post (.ok value) store history := by
  simp [Ends, run]

@[simp] theorem ends_return (value : α) :
    Ends env (pure value) post store history ↔ post (.ok value) store history :=
  ends_pure value

@[simp] theorem ends_fail (error : ε) :
    Ends env (Program.fail error) post store history ↔ post (.err error) store history := by
  simp [Ends, run]

@[simp] theorem ends_panic :
    Ends env Program.panic post store history ↔ post .panic store history := by
  simp [Ends, run]

@[simp] theorem ends_load {post : Outcome ε σ → σ → Trace Op Resp → Prop} :
    Ends env Program.load post store history ↔ post (.ok store) store history := by
  simp [Ends, Program.load, run]

@[simp] theorem ends_modify {post : Outcome ε Unit → σ → Trace Op Resp → Prop}
    (change : σ → σ) :
    Ends env (Program.modify change) post store history ↔
      post (.ok ()) (change store) history := by
  simp [Ends, Program.modify, run]

theorem ends_call {op : Op} {next : Resp op → Program σ ε Op Resp α} :
    Ends env (.call op next) post store history ↔
      Ends env (next (env.answer history op)) post store
        (history ++ [⟨op, env.answer history op⟩]) := by
  simp [Ends, run, Result.prepend]

@[simp] theorem ends_perform (op : Op) {post : Outcome ε (Resp op) → σ → Trace Op Resp → Prop} :
    Ends env (Program.perform op) post store history ↔
      post (.ok (env.answer history op)) store (history ++ [⟨op, env.answer history op⟩]) := by
  simp [Program.perform, ends_call]

theorem ends_bind (program : Program σ ε Op Resp α) (rest : α → Program σ ε Op Resp β)
    {post : Outcome ε β → σ → Trace Op Resp → Prop} :
    Ends env (program >>= rest) post store history ↔
      Ends env program (continued env rest post) store history := by
  unfold Ends
  rw [run_bind]
  cases ended : (run env program store history).outcome with
  | ok value => simp [Result.andThen, ended, continued, Ends]
  | err error => simp [Result.andThen, ended, continued]
  | panic => simp [Result.andThen, ended, continued]

@[simp] theorem continued_ok (rest : α → Program σ ε Op Resp β)
    {post : Outcome ε β → σ → Trace Op Resp → Prop} (value : α) :
    continued env rest post (.ok value) store history ↔ Ends env (rest value) post store history :=
  Iff.rfl

@[simp] theorem continued_err (rest : α → Program σ ε Op Resp β)
    {post : Outcome ε β → σ → Trace Op Resp → Prop} (error : ε) :
    continued env rest post (.err error) store history ↔ post (.err error) store history := Iff.rfl

@[simp] theorem continued_panic (rest : α → Program σ ε Op Resp β)
    {post : Outcome ε β → σ → Trace Op Resp → Prop} :
    continued env rest post .panic store history ↔ post .panic store history := Iff.rfl

theorem Ends.mono {program : Program σ ε Op Resp α}
    {weaker : Outcome ε α → σ → Trace Op Resp → Prop} (ends : Ends env program post store history)
    (implies : ∀ outcome store history, post outcome store history → weaker outcome store history) :
    Ends env program weaker store history :=
  implies _ _ _ ends

theorem Ends.seq {program : Program σ ε Op Resp α} {rest : α → Program σ ε Op Resp β}
    {middle : Outcome ε α → σ → Trace Op Resp → Prop}
    {post : Outcome ε β → σ → Trace Op Resp → Prop}
    (first : Ends env program middle store history)
    (second : ∀ value store history, middle (.ok value) store history →
      Ends env (rest value) post store history)
    (failed : ∀ error store history, middle (.err error) store history →
      post (.err error) store history)
    (panicked : ∀ store history, middle .panic store history → post .panic store history) :
    Ends env (program >>= rest) post store history := by
  rw [ends_bind]
  refine first.mono ?_
  rintro (value | error | _) after seen holds
  · exact second value after seen holds
  · exact failed error after seen holds
  · exact panicked after seen holds

theorem ends_attempt (program : Program σ ε Op Resp α)
    {post : Outcome ε (Except ε α) → σ → Trace Op Resp → Prop} :
    Ends env program.attempt post store history ↔
      Ends env program (caught post) store history := by
  induction program generalizing store history with
  | pure | fail | panic => simp [Program.attempt, Ends, run, caught]
  | call op next ih => simp only [Program.attempt, ends_call, ih]
  | tick issued next ih => exact ih _
  | get next ih => exact ih _
  | set written next ih => exact ih

theorem Ends.attemptSeq {program : Program σ ε Op Resp α}
    {rest : Except ε α → Program σ ε Op Resp β} {post : Outcome ε β → σ → Trace Op Resp → Prop}
    (returned : (run env program store history).outcome ≠ .panic)
    (continues : ∀ result, Ends env (rest result) post (run env program store history).store
      (history ++ (run env program store history).trace)) :
    Ends env (program.attempt >>= rest) post store history := by
  rw [ends_bind, ends_attempt]
  unfold Ends
  cases outcome : (run env program store history).outcome with
  | ok value => exact continues (.ok value)
  | err error => exact continues (.error error)
  | panic => exact absurd outcome returned

theorem ends_zoom (lens : Lens σ τ) (program : Program τ ε Op Resp α) :
    Ends env (program.zoom lens) post store history ↔
      Ends env program (fun outcome part history => post outcome (lens.update part store) history)
        (lens.view store) history := by
  induction program generalizing store history with
  | pure | fail | panic => simp [Program.zoom, Ends, run, lens.update_view]
  | call op next ih => simp only [Program.zoom, ends_call, ih]
  | tick issued next ih => exact ih _
  | get next ih => exact ih _
  | set part next ih =>
      change Ends env (next.zoom lens) post (lens.update part store) history ↔ _
      rw [ih, lens.view_update]
      simp only [lens.update_update]
      exact Iff.rfl

theorem ends_lift (program : Program Unit ε Op Resp α) :
    Ends env (program.lift : Program σ ε Op Resp α) post store history ↔
      Ends env program (fun outcome _ history => post outcome store history) () history :=
  ends_zoom Lens.unit program

theorem ends_of_issuing {issued : Op → Prop} {program : Program σ ε Op Resp α}
    {post : Outcome ε α → σ → Prop}
    (holds : wp (Monitor.issuing Resp issued) program (fun outcome store _ => post outcome store)
      store ()) :
    Ends env program (fun outcome store after => post outcome store ∧
      ∃ passed, after = history ++ passed ∧ ∀ event ∈ passed, issued event.1) store history := by
  have expected (trace : Trace Op Resp) : (Monitor.issuing Resp issued).Expected () trace := by
    induction trace with
    | nil => trivial
    | cons event rest ih => exact ⟨trivial, ih⟩
  exact ⟨(wp_run env history holds (expected _)).2, _, rfl, run_issued env history holds⟩

namespace Program

def continueTimed (suspends : Op → Suspension) (rest : α → Program σ ε Op Resp β) :
    Option (Except ε α) → Program σ ε Op Resp (Option (Except ε β))
  | none => pure none
  | some (.error error) => pure (some (.error error))
  | some (.ok value) => (rest value).timeout suspends

theorem unlessFired_bind (issued : Bool) (program : Program σ ε Op Resp (Option α))
    (rest : Option α → Program σ ε Op Resp (Option β)) (dropped : rest none = .pure none) :
    (program.unlessFired issued).bind rest = (program.bind rest).unlessFired issued := by
  simp only [unlessFired, bind]
  congr 1
  funext fired
  cases fired with
  | true => exact dropped
  | false => rfl

theorem timeout_bind (suspends : Op → Suspension) (program : Program σ ε Op Resp α)
    (rest : α → Program σ ε Op Resp β) :
    (program >>= rest).timeout suspends =
      program.timeout suspends >>= continueTimed suspends rest := by
  change (program.bind rest).timeout suspends =
    (program.timeout suspends).bind (continueTimed suspends rest)
  induction program with
  | pure | fail | panic => rfl
  | call op next ih =>
      have fires (issued : Bool) (timed : Program σ ε Op Resp (Option (Except ε α))) :=
        unlessFired_bind issued timed (continueTimed suspends rest) rfl
      simp only [bind, timeout]
      cases suspends op with
      | never => simp only [bind, ih]
      | untilEffect => simp only [fires, bind, ih]
      | untilAnswer => simp only [fires, bind, ih]
  | tick issued next ih => simp only [bind, timeout, ih]
  | get next ih => simp only [bind, timeout, ih]
  | set written next ih => simp only [bind, timeout, ih]

theorem timeout_zoom (suspends : Op → Suspension) (lens : Lens σ τ)
    (program : Program τ ε Op Resp α) :
    (program.zoom lens).timeout suspends = (program.timeout suspends).zoom lens := by
  have fires (issued : Bool) (rest : Program τ ε Op Resp (Option (Except ε α))) :
      (rest.unlessFired issued).zoom lens = (rest.zoom lens).unlessFired issued := by
    simp only [unlessFired, zoom]
    congr 1
    funext fired
    cases fired <;> rfl
  induction program with
  | pure | fail | panic => rfl
  | call op next ih =>
      simp only [zoom, timeout]
      cases suspends op with
      | never => simp only [zoom, ih]
      | untilEffect => simp only [fires, zoom, ih]
      | untilAnswer => simp only [fires, zoom, ih]
  | tick issued next ih => simp only [zoom, timeout, ih]
  | get next ih => simp only [zoom, timeout, ih]
  | set part next ih => simp only [zoom, timeout, ih]

end Program

variable {suspends : Op → Suspension}

theorem ends_timeout_lift {post : Outcome ε (Option (Except ε α)) → σ → Trace Op Resp → Prop}
    (program : Program Unit ε Op Resp α) :
    Ends env ((program.lift : Program σ ε Op Resp α).timeout suspends) post store history ↔
      Ends env (program.timeout suspends) (fun outcome _ history => post outcome store history)
        () history := by
  have lifted : (program.lift : Program σ ε Op Resp α).timeout suspends =
      (program.timeout suspends).lift := Program.timeout_zoom suspends Lens.unit program
  rw [lifted, ends_lift]

theorem run_timeout_ne_err (env : Environment Op Resp) (program : Program σ ε Op Resp α)
    (store : σ) (history : Trace Op Resp) (error : ε) :
    (run env (program.timeout suspends) store history).outcome ≠ .err error := by
  induction program generalizing store history with
  | pure | fail | panic => simp [Program.timeout, run]
  | call op next ih =>
      have dropped (issued : Bool) (rest : Program σ ε Op Resp (Option (Except ε α)))
          (later : ∀ store history, (run env rest store history).outcome ≠ .err error)
          (store : σ) (history : Trace Op Resp) :
          (run env (rest.unlessFired issued) store history).outcome ≠ .err error := by
        change (run env (if _ then _ else _) store history).outcome ≠ .err error
        split
        · simp [run]
        · exact later store history
      have called (rest : Resp op → Program σ ε Op Resp (Option (Except ε α)))
          (later : ∀ answer store history,
            (run env (rest answer) store history).outcome ≠ .err error)
          (store : σ) (history : Trace Op Resp) :
          (run env (.call op rest) store history).outcome ≠ .err error :=
        later _ _ _
      simp only [Program.timeout]
      cases suspends op with
      | never => exact called _ ih store history
      | untilEffect => exact dropped false _ (called _ ih) store history
      | untilAnswer =>
          exact dropped false _ (called _ fun answer => dropped true _ (ih answer)) store history
  | tick issued next ih => exact ih _ _ _
  | get next ih => exact ih _ _ _
  | set written next ih => exact ih _ _

theorem Ends.timeoutSeq {program : Program σ ε Op Resp α} {rest : α → Program σ ε Op Resp β}
    {middle : Outcome ε (Option (Except ε α)) → σ → Trace Op Resp → Prop}
    {post : Outcome ε (Option (Except ε β)) → σ → Trace Op Resp → Prop}
    (first : Ends env (program.timeout suspends) middle store history)
    (second : ∀ value store history, middle (.ok (some (.ok value))) store history →
      Ends env ((rest value).timeout suspends) post store history)
    (dropped : ∀ store history, middle (.ok none) store history → post (.ok none) store history)
    (failed : ∀ error store history, middle (.ok (some (.error error))) store history →
      post (.ok (some (.error error))) store history)
    (panicked : ∀ store history, middle .panic store history → post .panic store history) :
    Ends env ((program >>= rest).timeout suspends) post store history := by
  rw [Program.timeout_bind, ends_bind]
  have finishes := @run_timeout_ne_err σ ε Op α Resp suspends env program store history
  unfold Ends at first ⊢
  cases ended : (run env (program.timeout suspends) store history).outcome with
  | panic =>
      rw [ended] at first
      exact panicked _ _ first
  | err error => exact absurd ended (finishes error)
  | ok value =>
      rw [ended] at first
      rcases value with _ | error | value
      · exact ends_return _ |>.mpr (dropped _ _ first)
      · exact ends_return _ |>.mpr (failed error _ _ first)
      · exact second value _ _ first

section Gives

/-- Whatever happened before, the program ends with this outcome. -/
def Gives (env : Environment Op Resp) (program : Program Unit ε Op Resp α)
    (outcome : Outcome ε α) : Prop :=
  ∀ history, (run env program () history).outcome = outcome

variable {program : Program Unit ε Op Resp α} {rest : α → Program Unit ε Op Resp β} {value : α}

theorem gives_return (value : α) : Gives env (pure value : Program Unit ε Op Resp α) (.ok value) :=
  fun _ => rfl

theorem gives_perform {op : Op} {answer : Resp op}
    (answers : ∀ history, env.answer history op = answer) :
    Gives env (Program.perform op : Program Unit ε Op Resp (Resp op)) (.ok answer) :=
  fun history => congrArg Outcome.ok (answers history)

theorem Gives.bind {outcome : Outcome ε β} (first : Gives env program (.ok value))
    (second : Gives env (rest value) outcome) : Gives env (program >>= rest) outcome := by
  intro history
  rw [run_bind, Result.andThen, first history]
  exact second _

theorem Gives.bind_err {error : ε} (failed : Gives env program (.err error)) :
    Gives env (program >>= rest) (.err error) := by
  intro history
  rw [run_bind, Result.andThen, failed history]

theorem Gives.timeout {outcome : Outcome ε α} (gives : Gives env program outcome)
    (quiet : env.Quiet) (suspends : Op → Suspension) :
    Gives env (program.timeout suspends) outcome.inTime := by
  intro history
  rw [run_timeout env quiet, gives history]

end Gives

theorem ends_unlessFired {program : Program σ ε Op Resp (Option α)} {issued : Bool}
    {post : Outcome ε (Option α) → σ → Trace Op Resp → Prop} :
    Ends env (program.unlessFired issued) post store history ↔
      if env.fired issued history then post (.ok none) store history
      else Ends env program post store history := by
  change Ends env (if env.fired issued history then _ else _) post store history ↔ _
  split <;> simp

theorem ends_timeout (quiet : env.Quiet) (suspends : Op → Suspension)
    (program : Program σ ε Op Resp α)
    {post : Outcome ε (Option (Except ε α)) → σ → Trace Op Resp → Prop} :
    Ends env (program.timeout suspends) post store history ↔
      Ends env program (inTime post) store history := by
  unfold Ends
  rw [run_timeout env quiet]
  cases (run env program store history).outcome <;> rfl

/-- While no timer fires, a program that only sees steady answers runs the same after every
history. -/
theorem run_steady {seen : Op → Prop} (quiet : env.Quiet)
    (steady : ∀ history other op, seen op → env.answer history op = env.answer other op)
    {program : Program σ ε Op Resp α} {post : Outcome ε α → σ → Unit → Prop}
    (issues : wp (Monitor.issuing Resp seen) program post store ())
    (history other : Trace Op Resp) :
    run env program store history = run env program store other := by
  induction program generalizing store history other with
  | pure | fail | panic => rfl
  | call op next ih =>
      simp only [run]
      rw [steady history other op issues.1, ih _ (issues.2 _ trivial)]
  | tick issued next ih =>
      simp only [run, quiet issued history, quiet issued other]
      exact ih false (issues false) history other
  | get next ih => exact ih _ issues history other
  | set written next ih => exact ih issues history other

theorem ok_of_bind {program : Program σ ε Op Resp α} {rest : α → Program σ ε Op Resp β} {value : β}
    (ended : (run env (program >>= rest) store history).outcome = .ok value) :
    ∃ first, (run env program store history).outcome = .ok first ∧
      (run env (rest first) (run env program store history).store
        (history ++ (run env program store history).trace)).outcome = .ok value := by
  rw [run_bind] at ended
  generalize run env program store history = result at ended ⊢
  rcases result with ⟨first | error | _, middle, passed⟩
  · exact ⟨first, rfl, ended⟩
  · cases ended
  · cases ended

end LeanProgram
