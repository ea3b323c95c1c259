import StakingMiner.ProcessCore
import StakingMiner.ProgramLogic

/-!
Rules for processes of several tasks. A task whose turn is verified against a monitor
follows that monitor in every interleaving, because no other task touches its store or
its operations; what holds across tasks is then an invariant of single steps.
-/

namespace LeanProgram

variable {ι γ Op : Type} {Resp : Op → Type} [DecidableEq ι] {process : Process ι Op Resp}
variable {M : Monitor Op Resp γ} {task issuer : ι}

@[simp] theorem setThread_trace (state : process.State) (thread) :
    (state.setThread issuer thread).trace task = state.trace task := rfl

@[simp] theorem setThread_thread (state : process.State) (thread) :
    (state.setThread task thread).thread task = thread := by
  simp [Process.State.setThread]

theorem setThread_thread_other (state : process.State) (thread) (other : task ≠ issuer) :
    (state.setThread issuer thread).thread task = state.thread task := by
  simp [Process.State.setThread, other]

@[simp] theorem answered_thread (state : process.State) (op : Op) (answer : Resp op) (rest) :
    (state.answered task op answer rest).thread task = ⟨(state.thread task).store, rest⟩ :=
  setThread_thread state _

theorem answered_thread_other (state : process.State) (op : Op) (answer : Resp op) (rest)
    (other : task ≠ issuer) :
    (state.answered issuer op answer rest).thread task = state.thread task :=
  setThread_thread_other state _ other

@[simp] theorem answered_trace (state : process.State) (op : Op) (answer : Resp op) (rest) :
    (state.answered task op answer rest).trace task = state.trace task ++ [⟨op, answer⟩] := by
  simp [Process.State.answered, Process.State.trace]

theorem answered_trace_other (state : process.State) (op : Op) (answer : Resp op) (rest)
    (other : task ≠ issuer) :
    (state.answered issuer op answer rest).trace task = state.trace task := by
  have apart : issuer ≠ task := fun same => other same.symm
  simp [Process.State.answered, Process.State.trace, apart]

/-- What remains of the task's turn is verified, and the turn ends in the invariant with
which the next turn begins. -/
def Process.Follows (process : Process ι Op Resp) (task : ι) (M : Monitor Op Resp γ) (start : γ)
    (invariant : process.Store task → γ → Prop) (state : process.State) : Prop :=
  wp M (state.thread task).rest (fun outcome store ghost => outcome = .ok () → invariant store ghost)
    (state.thread task).store (M.after start (state.trace task))

variable {start : γ} {invariant : process.Store task → γ → Prop}

theorem Process.Follows.allows {state : process.State} {op : Op}
    (follows : process.Follows task M start invariant state)
    (waits : (state.thread task).WaitsIn op) : M.allows (M.after start (state.trace task)) op := by
  obtain ⟨next, pending⟩ := waits
  unfold Process.Follows at follows
  rw [pending] at follows
  exact follows.1

theorem Process.Follows.step {state after : process.State} {label : Option (ι × Event Op Resp)}
    (turns : ∀ store ghost, invariant store ghost → wp M (process.turn task)
      (fun outcome store ghost => outcome = .ok () → invariant store ghost) store ghost)
    (follows : process.Follows task M start invariant state)
    (step : process.Step state label after)
    (expected : ∀ event, label = some (task, event) →
      M.expects (M.after start (state.trace task)) event.1 event.2) :
    process.Follows task M start invariant after := by
  cases step with
  | call issuer answer waits given =>
      by_cases same : task = issuer
      · subst same
        unfold Process.Follows at follows ⊢
        rw [waits] at follows
        rw [answered_thread, answered_trace, Monitor.after_append_event]
        exact follows.2 answer (expected ⟨_, answer⟩ rfl)
      · unfold Process.Follows
        rw [answered_thread_other state _ _ _ same, answered_trace_other state _ _ _ same]
        exact follows
  | move mover moves =>
      by_cases same : task = mover
      · subst same
        unfold Process.Follows at follows ⊢
        rw [setThread_thread, setThread_trace]
        generalize state.thread task = thread at moves follows
        cases moves with
        | tick fired => exact follows fired
        | get => exact follows
        | set => exact follows
        | again => exact turns _ _ (follows rfl)
      · unfold Process.Follows
        rw [setThread_thread_other state _ same, setThread_trace]
        exact follows
  | evolve evolves => exact follows

variable {meets : process.State → ι × Event Op Resp → Prop} {first state : process.State}

theorem Process.Runs.keeps {holds : process.State → Prop}
    (run : process.Runs meets first state) (initially : holds first)
    (steps : ∀ state label after, holds state → process.Step state label after →
      (∀ event, label = some event → meets state event) → holds after) : holds state := by
  induction run with
  | refl => exact initially
  | step earlier step condition ih => exact steps _ _ _ ih step condition

theorem Process.Runs.trans {last : process.State} (run : process.Runs meets first state)
    (more : process.Runs meets state last) : process.Runs meets first last := by
  induction more with
  | refl => exact run
  | step earlier step condition ih => exact ih.step step condition

theorem Process.Runs.mono {weaker : process.State → ι × Event Op Resp → Prop}
    (run : process.Runs meets first state)
    (implies : ∀ state event, meets state event → weaker state event) :
    process.Runs weaker first state := by
  induction run with
  | refl => exact Process.Runs.refl
  | step earlier step condition ih =>
      exact ih.step step fun event same => implies _ event (condition event same)

def Process.State.ghosts (state : process.State) (M : Monitor Op Resp γ) (start : γ)
    (task : ι) : γ :=
  M.after start (state.trace task)

theorem ghosts_answered (state : process.State) (M : Monitor Op Resp γ) (start : γ) (issuer : ι)
    (op : Op) (answer : Resp op) (rest) :
    (state.answered issuer op answer rest).ghosts M start issuer =
      M.next (state.ghosts M start issuer) op answer := by
  unfold Process.State.ghosts
  rw [answered_trace, Monitor.after_append_event]

theorem ghosts_answered_other (state : process.State) (M : Monitor Op Resp γ) (start : γ)
    (op : Op) (answer : Resp op) (rest) (other : task ≠ issuer) :
    (state.answered issuer op answer rest).ghosts M start task = state.ghosts M start task := by
  unfold Process.State.ghosts
  rw [answered_trace_other state op answer rest other]

theorem answered_ghosts (state : process.State) (M : Monitor Op Resp γ) (start : γ) (issuer : ι)
    (op : Op) (answer : Resp op) (rest) :
    (state.answered issuer op answer rest).ghosts M start =
      Function.update (state.ghosts M start) issuer
        (M.next (state.ghosts M start issuer) op answer) := by
  funext task
  by_cases same : task = issuer
  · subst same
    rw [ghosts_answered, Function.update_self]
  · rw [ghosts_answered_other state M start op answer rest same, Function.update_of_ne same]

def Process.State.Related (state : process.State) (M : Monitor Op Resp γ) (start : γ)
    (holds : process.World → (ι → γ) → Prop) : Prop :=
  (∀ task, process.Follows task M start (fun _ _ => True) state) ∧
    holds state.world (state.ghosts M start)

/-- What relates the world to the ghost values of all tasks is kept along a run, if every
allowed operation of a single task keeps it. -/
theorem Process.Runs.related {holds : process.World → (ι → γ) → Prop}
    (run : process.Runs meets first state) (fresh : first.log = [])
    (begins : ∀ task, process.Follows task M start (fun _ _ => True) first)
    (turns : ∀ task, M.Permits (process.turn task))
    (initially : holds first.world fun _ => start)
    (expected : ∀ world ghosts task op answer, holds world ghosts →
      process.possible world task op answer → M.expects (ghosts task) op answer)
    (calls : ∀ state task op answer, holds state.world (state.ghosts M start) →
      M.allows (state.ghosts M start task) op → process.possible state.world task op answer →
      meets state (task, ⟨op, answer⟩) → holds (process.next state.world op answer)
        (Function.update (state.ghosts M start) task
          (M.next (state.ghosts M start task) op answer)))
    (evolves : ∀ world ghosts after, holds world ghosts → process.evolves world after →
      holds after ghosts) :
    state.Related M start holds := by
  induction run with
  | refl =>
      refine ⟨begins, ?_⟩
      have idle : first.ghosts M start = fun _ => start := by
        funext task
        simp [Process.State.ghosts, Process.State.trace, fresh]
      rwa [idle]
  | step earlier step condition ih =>
      obtain ⟨follows, holding⟩ := ih
      constructor
      · intro task
        refine (follows task).step ?_ step ?_
        · intro store ghost _
          exact wp_mono (turns task store ghost) fun _ _ _ _ _ => trivial
        · rintro event rfl
          cases step with
          | call issuer answer waits given => exact expected _ _ _ _ _ holding given
      · cases step with
        | call issuer answer waits given =>
            have allowed := (follows issuer).allows ⟨_, waits⟩
            rw [answered_ghosts]
            exact calls _ _ _ _ holding allowed given (condition _ rfl)
        | move mover moves => exact holding
        | evolve changes => exact evolves _ _ _ holding changes

structure Exclusive (holding : ι → Prop) (locked : Bool) : Prop where
  locked_of : ∀ task, holding task → locked = true
  unique : ∀ first second, holding first → holding second → first = second

section Locks

variable {holding : ι → Prop} {locked : Bool} {holder : ι}

omit [DecidableEq ι] in
theorem Exclusive.alone (exclusive : Exclusive holding locked) (held : holding holder) {other : ι}
    (apart : other ≠ holder) : ¬holding other :=
  fun also => apart (exclusive.unique other holder also held)

variable (holds : γ → Prop) {ghosts : ι → γ} {ghost : γ}

theorem Exclusive.update (exclusive : Exclusive (fun task => holds (ghosts task)) locked)
    (same : holds ghost → holds (ghosts holder)) :
    Exclusive (fun task => holds (Function.update ghosts holder ghost task)) locked := by
  have before : ∀ task, holds (Function.update ghosts holder ghost task) → holds (ghosts task) :=
    (Function.forall_update_iff ghosts fun task ghost => holds ghost → holds (ghosts task)).mpr
      ⟨same, fun _ _ => id⟩
  exact ⟨fun task held => exclusive.locked_of task (before task held),
    fun one other held also => exclusive.unique one other (before one held) (before other also)⟩

theorem Exclusive.acquire (exclusive : Exclusive (fun task => holds (ghosts task)) false) :
    Exclusive (fun task => holds (Function.update ghosts holder ghost task)) true := by
  have only (task : ι) (held : holds (Function.update ghosts holder ghost task)) :
      task = holder := by
    by_contra other
    rw [Function.update_of_ne other] at held
    exact Bool.false_ne_true (exclusive.locked_of task held)
  refine ⟨fun _ _ => rfl, ?_⟩
  intro one other held also
  rw [only one held, only other also]

theorem Exclusive.release (exclusive : Exclusive (fun task => holds (ghosts task)) locked)
    (held : holds (ghosts holder)) (released : ¬holds ghost) :
    Exclusive (fun task => holds (Function.update ghosts holder ghost task)) false := by
  have none : ∀ task, ¬holds (Function.update ghosts holder ghost task) :=
    (Function.forall_update_iff ghosts fun _ ghost => ¬holds ghost).mpr
      ⟨released, fun _ apart => exclusive.alone held apart⟩
  exact ⟨fun task holds => absurd holds (none task), fun one _ holds => absurd holds (none one)⟩

end Locks

def Process.State.Ready (state : process.State) (meets : process.State → ι × Event Op Resp → Prop)
    (task : ι) (answers : (op : Op) → Resp op) : Prop :=
  match (state.thread task).rest with
  | .call op _ => process.possible state.world task op (answers op) ∧
      meets state (task, ⟨op, answers op⟩)
  | _ => True

def Process.State.Plays (state : process.State) (meets : process.State → ι × Event Op Resp → Prop)
    (task : ι) (answers : (op : Op) → Resp op) : Nat → Prop
  | 0 => True
  | steps + 1 => state.Ready meets task answers ∧
      (state.advance task answers).Plays meets task answers steps

theorem Process.State.Ready.runs {answers : (op : Op) → Resp op}
    (ready : state.Ready meets task answers) :
    process.Runs meets state (state.advance task answers) := by
  unfold Process.State.Ready at ready
  unfold Process.State.advance
  have silent {thread} (moves : (state.thread task).Moves (process.turn task) thread) :
      process.Runs meets state (state.setThread task thread) :=
    Process.Runs.refl.step (Process.Step.move task moves) (by simp)
  rcases here : state.thread task with ⟨store, rest⟩
  rw [here] at ready silent
  cases rest with
  | call op next =>
      have step : process.Step state (some (task, ⟨op, answers op⟩))
          (state.answered task op (answers op) (next (answers op))) :=
        Process.Step.call task (answers op) (by rw [here]) ready.1
      refine Process.Runs.refl.step step ?_
      intro event same
      cases same
      exact ready.2
  | tick issued next => exact silent (Thread.Moves.tick false)
  | get next => exact silent Thread.Moves.get
  | set written next => exact silent Thread.Moves.set
  | pure value => exact silent Thread.Moves.again
  | fail error => exact Process.Runs.refl
  | panic => exact Process.Runs.refl

theorem Process.State.Plays.runs {answers : (op : Op) → Resp op} {steps : Nat}
    (plays : state.Plays meets task answers steps) :
    process.Runs meets state (state.advances task answers steps) := by
  induction steps generalizing state with
  | zero => exact Process.Runs.refl
  | succ steps ih => exact plays.1.runs.trans (ih plays.2)

theorem Process.Runs.play {answers : (op : Op) → Resp op} {steps : Nat}
    (run : process.Runs meets first state) (plays : state.Plays meets task answers steps) :
    process.Runs meets first (state.advances task answers steps) :=
  run.trans plays.runs

theorem Process.Runs.fire (run : process.Runs meets first state) (task : ι) :
    process.Runs meets first (state.fire task) := by
  unfold Process.State.fire
  split
  case h_1 issued next waits =>
    have moves : (state.thread task).Moves (process.turn task)
        ⟨(state.thread task).store, next true⟩ := by
      rcases here : state.thread task with ⟨store, rest⟩
      rw [here] at waits
      cases waits
      exact Thread.Moves.tick true
    exact run.step (Process.Step.move task moves) (by simp)
  case h_2 => exact run

theorem Process.Runs.evolve {world : process.World} (run : process.Runs meets first state)
    (evolves : process.evolves state.world world) :
    process.Runs meets first { state with world } :=
  run.step (Process.Step.evolve evolves) (by simp)

end LeanProgram
