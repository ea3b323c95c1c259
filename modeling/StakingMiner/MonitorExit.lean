import StakingMiner.ChainLogic
import StakingMiner.MonitorCore
import StakingMiner.ProcessEnds
import StakingMiner.ProgramPartial

/-!
How `monitor_cmd` ends. It checks the signer and the account, spawns the four tasks and returns
the error of a task that ends. A channel closes when the task at its other end is gone, so an
end can be the consequence of an earlier one; some end is always the first.
-/

namespace LeanStakingMiner

open LeanProgram

variable {T : MinerConfig} {config : ProcessConfig}

/-- What `monitor_cmd` checks before it spawns a task. -/
def monitorChecks (signer : Except Error AccountId) : Task T Unit := do
  let _ ← Program.ofExcept signer
  let atBlock ← rpc (← ask .atCurrentBlock)
  let accountInfo ← rpc (← ask (.account atBlock))
  match accountInfo with
  | none => Program.fail .accountDoesNotExists
  | some _ => pure ()

def MonitorTask.failure : MonitorTask → TaskFailureError
  | .listener => .listener
  | .miner => .miner
  | .clearOldRounds => .clearOldRounds
  | .eraPruning => .eraPruning

/-- The arm of the `select!` for one task: the error it returned, or that it panicked. -/
def joinError {σ : Type} (task : MonitorTask) : Miner T σ Unit → Option Error
  | .fail error => some error
  | .panic => some (.taskFailure task.failure)
  | _ => none

def Op.peer : Op T → MonitorTask
  | .minerSend _ | .minerTrySend _ => .miner
  | .clearOldRoundsTrySend _ => .clearOldRounds
  | .eraPruningSend _ | .eraPruningTrySend _ => .eraPruning
  | _ => .listener

def reportsClosed : (op : Op T) → Resp op → Bool
  | .minerRecv, none | .clearOldRoundsRecv, none | .eraPruningRecv, none => true
  | .minerSend _, false | .eraPruningSend _, false => true
  | .minerTrySend _, .closed | .clearOldRoundsTrySend _, .closed => true
  | .eraPruningTrySend _, .closed => true
  | _, _ => false

/-- A channel is closed when the task at its other end has ended and dropped it. -/
def ClosedByEnd (state : MonitorState T config) (event : MonitorEvent T) : Prop :=
  reportsClosed event.2.1 event.2.2 = true → (state.thread event.2.1.peer).Ended

structure ExitView where
  closed : Bool
  subscribed : Bool
deriving Repr, DecidableEq

def subscribes : (op : Op T) → Resp op → Bool
  | .streamBlocks, .ok () => true
  | _, _ => false

def exitMonitor : Monitor (Op T) Resp ExitView where
  expects _ _ _ := True
  allows _ _ := True
  next view op answer :=
    ⟨view.closed || reportsClosed op answer, view.subscribed || subscribes op answer⟩

def TurnEnds : (task : MonitorTask) → Outcome Error Unit → ExitView → Prop
  | .listener, .ok (), view => view.subscribed = true
  | .listener, .err error, view =>
      view.closed = true ∨ view.subscribed = false ∧ ∃ failed, error = .subxt failed
  | .miner, .err error, _ | .clearOldRounds, .err error, _ => isCriticalMinerError error = true
  | .eraPruning, .err _, view => view.closed = true
  | .miner, .panic, _ => True
  | _, .panic, _ => False
  | _, .ok (), _ => True

@[simp] theorem exitMonitor_allows (view : ExitView) (op : Op T) :
    exitMonitor.allows view op ↔ True := Iff.rfl

@[simp] theorem exitMonitor_expects (view : ExitView) (op : Op T) (answer : Resp op) :
    exitMonitor.expects view op answer ↔ True := Iff.rfl

@[simp] theorem exitMonitor_next (view : ExitView) (op : Op T) (answer : Resp op) :
    exitMonitor.next view op answer =
      ⟨view.closed || reportsClosed op answer, view.subscribed || subscribes op answer⟩ := rfl

theorem minerTurn_ends (state : MinerState T) (view : ExitView) :
    wp exitMonitor (minerTurn config) (fun outcome _ after => TurnEnds .miner outcome after)
      state view := by
  rw [minerTurn, wp_bind, wp_ask]
  refine ⟨trivial, fun message _ => ?_⟩
  rw [followedBy_ok]
  split
  · rfl
  · rw [wp_bind, wp_attempt]
    refine wp_mono (wp_trivial (fun _ _ => trivial) _ _ _) ?_
    rintro (_ | error | _) after seen _
    · trivial
    · change wp exitMonitor (if _ then _ else _) _ _ _
      split
      · rename_i critical
        exact critical
      · trivial
    · trivial
  · trivial

theorem cleanRounds_ends (atBlock : AtBlock) (rounds : List Nat) (cleaned : Nat)
    (view : ExitView) :
    wp exitMonitor (cleanRounds atBlock rounds cleaned : Task T Nat)
      (fun outcome _ _ => outcome ≠ .panic) () view := by
  induction rounds generalizing cleaned view with
  | nil => simp [cleanRounds]
  | cons round rest ih =>
      simp only [cleanRounds, wp_bind, wp_ask, forall_read, followedBy_ok, wp_rpc_ok, wp_rpc_error]
      refine ⟨trivial, by simp, fun submission _ => ?_⟩
      split
      · exact ih _ _
      · split
        · exact ih _ _
        · simp [clearOldRoundData, submitAndFinalize, caught, ih]

theorem clearOldRoundsTurn_ends (last : Option Nat) (view : ExitView) :
    wp exitMonitor (clearOldRoundsTurn : Miner T (Option Nat) Unit)
      (fun outcome _ after => TurnEnds .clearOldRounds outcome after) last view := by
  have cleans (currentRound : Nat) (view : ExitView) :
      wp exitMonitor (runClearOldRoundsCleanup currentRound : Miner T (Option Nat) Nat)
        (fun outcome _ _ => outcome ≠ .panic) last view := by
    simp only [runClearOldRoundsCleanup, wp_bind, wp_ask, forall_read, followedBy_ok, wp_rpc_ok,
      wp_rpc_error, wp_load]
    refine ⟨trivial, by simp, fun atBlock _ => ?_⟩
    split
    · simp
    · simp only [wp_bind, wp_lift]
      refine wp_mono (cleanRounds_ends _ _ _ _) ?_
      rintro (cleaned | error | _) _ after ends
      · simp
      · simp
      · exact absurd rfl ends
  rw [clearOldRoundsTurn, wp_bind, wp_ask]
  refine ⟨trivial, fun message _ => ?_⟩
  rw [followedBy_ok]
  split
  · rfl
  · rw [wp_bind, wp_attempt]
    refine wp_mono (cleans _ _) ?_
    rintro (_ | error | _) after seen ends
    · trivial
    · change wp exitMonitor (if _ then _ else _) _ _ _
      split
      · rename_i critical
        exact critical
      · trivial
    · exact absurd rfl ends

theorem pruneForBlock_ends (view : ExitView) :
    wp exitMonitor (pruneForBlock : Task T Unit) (fun outcome _ _ => outcome = .ok ()) () view := by
  have prunes (era : Nat) (view : ExitView) :
      wp exitMonitor (pruneOldestEra era : Task T Unit) (fun outcome _ _ => outcome = .ok ())
        () view := by
    simp [pruneOldestEra, callPruneEraStep, submitAndFinalize, caught]
  have lists (view : ExitView) :
      wp exitMonitor (getPruneableEraIndex : Task T (Nat × Option Nat))
        (fun outcome _ _ => outcome ≠ .panic) () view := by
    simp [getPruneableEraIndex]
  rw [pruneForBlock, wp_bind]
  refine wp_timeout_anywhere (wp_mono (lists view) ?_) fun _ _ => rfl
  rintro (⟨count, oldest⟩ | error | _) _ after ends
  · cases oldest with
    | none => rfl
    | some era => exact prunes era after
  · rfl
  · exact absurd rfl ends

theorem lazyEraPruningTurn_ends (active : Bool) (view : ExitView) :
    wp exitMonitor (lazyEraPruningTurn : Miner T Bool Unit)
      (fun outcome _ after => TurnEnds .eraPruning outcome after) active view := by
  rw [lazyEraPruningTurn, wp_bind, wp_ask]
  refine ⟨trivial, fun message _ => ?_⟩
  rw [followedBy_ok]
  split
  · simp [TurnEnds, reportsClosed]
  · trivial
  · trivial
  · rw [wp_bind, wp_load, followedBy_ok]
    split
    · rw [wp_lift]
      refine wp_mono (pruneForBlock_ends _) ?_
      rintro outcome _ _ rfl
      trivial
    · trivial

def IterationEnds {α : Type} (outcome : Outcome Error α) (view : ExitView) : Prop :=
  outcome ≠ .panic ∧
    ∀ error, outcome = .err error → view.closed = true ∨ isCriticalListenerError error = false

section Iterations

variable {α β σ : Type} {store : σ} {view : ExitView}

def Survivable (program : Miner T σ α) : Prop :=
  ∀ store view,
    wp exitMonitor program (fun outcome _ after => IterationEnds outcome after) store view

theorem Survivable.bind {program : Miner T σ α} {rest : α → Miner T σ β}
    (first : Survivable program) (second : ∀ value, Survivable (rest value)) :
    Survivable (program >>= rest) := by
  intro store view
  refine wp_seq (first store view) (fun value store view _ => second value store view) ?_ ?_
  · rintro error _ after ⟨_, failed⟩
    refine ⟨nofun, ?_⟩
    rintro _ ⟨⟩
    exact failed error rfl
  · rintro _ after ⟨returned, _⟩
    exact absurd rfl returned

theorem Survivable.lift {task : Task T α} (survivable : Survivable task) :
    Survivable (task.lift : Miner T σ α) := by
  intro store view
  rw [wp_lift]
  exact survivable () view

theorem survivable_return (value : α) : Survivable (pure value : Miner T σ α) :=
  fun _ _ => ⟨nofun, fun _ => nofun⟩

theorem survivable_ask (op : Op T) : Survivable (ask op : Miner T σ (Resp op)) :=
  fun _ _ => ⟨trivial, fun _ _ => ⟨nofun, fun _ => nofun⟩⟩

theorem survivable_rpc (answer : Read α) : Survivable (rpc answer : Miner T σ α) := by
  intro store view
  cases answer with
  | ok value => exact ⟨nofun, fun _ => nofun⟩
  | error failed =>
      refine ⟨nofun, ?_⟩
      rintro _ ⟨⟩
      exact Or.inr rfl

end Iterations

theorem checkRoundIncrement_survivable (lastRound : Option Nat) (currentRound : Nat)
    (phase : Phase) :
    Survivable (checkRoundIncrement lastRound currentRound phase : Task T Unit) := by
  unfold checkRoundIncrement
  split
  · intro _ view
    rw [onRoundIncrement, wp_bind, wp_ask]
    refine ⟨trivial, fun answer _ => ?_⟩
    rw [followedBy_ok]
    cases answer with
    | closed => simp [IterationEnds, reportsClosed]
    | sent | full =>
        simp only
        split
        · simp [IterationEnds, reportsClosed]
        · exact survivable_return _ _ _
  · exact survivable_return _

theorem signalEraPruning_survivable (message : EraPruningMessage) :
    Survivable (signalEraPruning message : Task T Unit) := by
  intro _ view
  simp [signalEraPruning, IterationEnds, reportsClosed]

theorem onOffPhase_survivable (lastPhase : Option Phase) (header : Header) :
    Survivable (onOffPhase lastPhase header : Task T ListenerAction) := by
  have starts : Survivable (startEraPruning lastPhase : Task T Unit) := by
    unfold startEraPruning
    split
    · exact survivable_return _
    · exact signalEraPruning_survivable _
  exact starts.bind fun _ => (survivable_ask _).bind fun _ => survivable_return _

theorem onMiningPhase_survivable (lastPhase : Option Phase) (header : Header) (phase : Phase)
    (round : Nat) :
    Survivable (onMiningPhase lastPhase header phase round : Task T ListenerAction) := by
  have stops : Survivable (stopEraPruning lastPhase : Task T Unit) := by
    unfold stopEraPruning
    split
    · exact signalEraPruning_survivable _
    · exact survivable_return _
  refine stops.bind fun _ => ?_
  refine ((survivable_ask _).bind fun answer => (survivable_rpc answer).bind fun atBlock =>
    (survivable_ask _).bind fun answer => (survivable_rpc answer).bind fun desired =>
      (survivable_ask _).bind fun nPages => survivable_return _ :
        Survivable (newBlockDetails header phase round : Task T BlockDetails)).bind
    fun details => ?_
  intro _ view
  rw [wp_bind, wp_ask]
  refine ⟨trivial, fun answer _ => ?_⟩
  rw [followedBy_ok]
  cases answer with
  | closed => simp [IterationEnds, reportsClosed]
  | sent | full => exact survivable_return _ _ _

theorem processBlockInternal_survivable (header : Header) :
    Survivable (processBlockInternal header : Miner T ListenerState ListenerAction) := by
  have reads : Survivable (getBlockState header.hash : Task T (Phase × Nat)) :=
    (survivable_ask _).bind fun answer => (survivable_rpc answer).bind fun atBlock =>
      (survivable_ask _).bind fun answer => (survivable_rpc answer).bind fun phase =>
        (survivable_ask _).bind fun answer => (survivable_rpc answer).bind fun round =>
          survivable_return _
  refine reads.lift.bind fun (phase, currentRound) => ?_
  have replaced : Survivable (replaceRound currentRound : Miner T ListenerState (Option Nat)) :=
    fun _ _ => ⟨nofun, fun _ => nofun⟩
  have recorded : Survivable (replacePhase phase : Miner T ListenerState (Option Phase)) :=
    fun _ _ => ⟨nofun, fun _ => nofun⟩
  refine replaced.bind fun lastRound => ?_
  refine (checkRoundIncrement_survivable lastRound currentRound phase).lift.bind fun _ => ?_
  refine recorded.bind fun lastPhase => (survivable_ask _).bind fun _ => ?_
  cases phase with
  | off => exact (onOffPhase_survivable lastPhase header).lift
  | signed blocks => exact (onMiningPhase_survivable lastPhase header _ currentRound).lift
  | snapshot page => exact (onMiningPhase_survivable lastPhase header _ currentRound).lift
  | _ => exact survivable_return _

theorem recreateSubscriptionWithFailover_survivable :
    Survivable (recreateSubscriptionWithFailover : Task T Unit) := by
  refine (survivable_ask .streamBlocks).bind fun answer => ?_
  cases answer with
  | ok _ => exact survivable_return _
  | error failed =>
      refine (survivable_ask .reconnect).bind fun answer => ?_
      cases answer with
      | ok _ => exact (survivable_ask _).bind fun answer => survivable_rpc answer
      | error _ => exact survivable_rpc (.error failed)

theorem recreateSubscription_survivable (action : ListenerAction) :
    Survivable (recreateSubscription action : Miner T ListenerState ListenerAction) := by
  intro state view
  rw [recreateSubscription, wp_bind, wp_modify, followedBy_ok, wp_bind, wp_load, followedBy_ok]
  split
  · exact ⟨nofun, by rintro _ ⟨⟩; exact Or.inr rfl⟩
  · exact (recreateSubscriptionWithFailover_survivable.lift.bind fun _ => survivable_return _) _ _

theorem processListenerIteration_survivable :
    Survivable (processListenerIteration : Miner T ListenerState ListenerAction) := by
  intro state view
  rw [processListenerIteration, wp_bind, wp_ask]
  refine ⟨trivial, fun answer _ => ?_⟩
  rw [followedBy_ok]
  split
  · rename_i header _
    rw [wp_bind, wp_modify, followedBy_ok, wp_bind]
    refine wp_timeout_anywhere (wp_mono (processBlockInternal_survivable header _ _) ?_)
      fun _ _ => recreateSubscription_survivable _ _ _
    rintro (action | error | _) after seen ends
    · exact ⟨nofun, fun _ => nofun⟩
    · refine ⟨nofun, ?_⟩
      rintro _ ⟨⟩
      exact ends.2 error rfl
    · exact absurd rfl ends.1
  · split
    · exact survivable_return _ _ _
    · exact ⟨nofun, by rintro _ ⟨⟩; exact Or.inr rfl⟩
  · exact recreateSubscription_survivable _ _ _
  · exact recreateSubscription_survivable _ _ _

theorem subscribed_kept (view : ExitView) (op : Op T) (answer : Resp op)
    (_ : exitMonitor.allows view op) (subscribed : view.subscribed = true) :
    (exitMonitor.next view op answer).subscribed = true := by
  simp [subscribed]

theorem listenerTurn_ends (state : ListenerState) (view : ExitView)
    (subscribed : view.subscribed = true) :
    wp exitMonitor (listenerTurn : Miner T ListenerState Unit)
      (fun outcome _ after => TurnEnds .listener outcome after) state view := by
  rw [listenerTurn, wp_bind, wp_attempt]
  refine wp_mono (wp_invariant subscribed_kept (processListenerIteration_survivable state view)
    subscribed) ?_
  rintro (action | error | _) after seen ⟨⟨returned, failed⟩, still⟩
  · exact still
  · change wp exitMonitor (if _ then _ else _) _ _ _
    split
    · rename_i critical
      refine Or.inl ((failed error rfl).resolve_right ?_)
      simp [critical]
    · exact ⟨trivial, fun _ _ => subscribed_kept _ _ _ trivial still⟩
  · exact absurd rfl returned

theorem turn_ends (task : MonitorTask)
    (store : (monitor config : Process MonitorTask (Op T) Resp).Store task) (view : ExitView)
    (begins : TurnEnds task (.ok ()) view) :
    wp exitMonitor ((monitor config : Process MonitorTask (Op T) Resp).turn task)
      (fun outcome _ after => TurnEnds task outcome after) store view := by
  cases task with
  | listener => exact listenerTurn_ends store view begins
  | miner => exact minerTurn_ends store view
  | clearOldRounds => exact clearOldRoundsTurn_ends store view
  | eraPruning => exact lazyEraPruningTurn_ends store view

section Runs

variable {state after : MonitorState T config} {label : Option (MonitorEvent T)}

def exitView (state : MonitorState T config) (task : MonitorTask) : ExitView :=
  state.ghosts exitMonitor ⟨false, false⟩ task

def TaskEnds (state : MonitorState T config) (task : MonitorTask) : Prop :=
  (monitor config).Attains task exitMonitor ⟨false, false⟩
    (fun outcome _ view => TurnEnds task outcome view) state

theorem monitorStart_ends (pages nonce : Nat) (task : MonitorTask) :
    TaskEnds (monitorStart config pages nonce : MonitorState T config) task := by
  cases task with
  | listener =>
      have subscribes : wp exitMonitor (do rpc (← ask .streamBlocks) : Miner T ListenerState Unit)
          (fun outcome _ view => TurnEnds .listener outcome view) .initial ⟨false, false⟩ := by
        simp [TurnEnds, subscribes]
      exact subscribes
  | miner => exact minerTurn_ends _ _
  | clearOldRounds => exact clearOldRoundsTurn_ends _ _
  | eraPruning => exact lazyEraPruningTurn_ends _ _

/-- A task that ended although none of its channels was closed. -/
def EndedFirst (state : MonitorState T config) (task : MonitorTask) : Prop :=
  (state.thread task).Ended ∧ (exitView state task).closed = false

def HasFirst (state : MonitorState T config) : Prop :=
  (∀ task, ¬(state.thread task).Ended ∧ (exitView state task).closed = false) ∨
    ∃ task, EndedFirst state task

theorem EndedFirst.step {task : MonitorTask} (first : EndedFirst state task)
    (step : (monitor config).Step state label after) : EndedFirst after task := by
  have same := step.keeps_ended first.1
  have silent : exitView after task = exitView state task := by
    unfold exitView Process.State.ghosts
    rw [step.keeps_trace first.1]
  exact ⟨same ▸ first.1, silent ▸ first.2⟩

theorem open_step
    (quiet : ∀ task, ¬(state.thread task).Ended ∧ (exitView state task).closed = false)
    (step : (monitor config).Step state label after)
    (closes : ∀ event, label = some event → ClosedByEnd state event) (task : MonitorTask) :
    (exitView after task).closed = false := by
  cases step with
  | call issuer answer waits given =>
      rename_i op next
      by_cases same : task = issuer
      · subst same
        have stillOpen : reportsClosed op answer = false := by
          by_contra closed
          exact (quiet op.peer).1 (closes _ rfl (Bool.eq_true_of_not_eq_false closed))
        unfold exitView
        rw [ghosts_answered, exitMonitor_next, stillOpen, Bool.or_false]
        exact (quiet task).2
      · unfold exitView
        rw [ghosts_answered_other state _ _ _ _ _ same]
        exact (quiet task).2
  | move mover moves => exact (quiet task).2
  | evolve evolves => exact (quiet task).2

theorem HasFirst.step (first : HasFirst state) (step : (monitor config).Step state label after)
    (closes : ∀ event, label = some event → ClosedByEnd state event) : HasFirst after := by
  rcases first with quiet | ⟨task, first⟩
  · by_cases ended : ∃ task, (after.thread task).Ended
    · obtain ⟨task, ended⟩ := ended
      exact Or.inr ⟨task, ended, open_step quiet step closes task⟩
    · exact Or.inl fun task => ⟨fun here => ended ⟨task, here⟩, open_step quiet step closes task⟩
  · exact Or.inr ⟨task, first.step step⟩

theorem exitView_closed (state : MonitorState T config) (task : MonitorTask) :
    (exitView state task).closed = true ↔
      ∃ event ∈ state.trace task, reportsClosed event.1 event.2 = true := by
  have marked := exitMonitor.after_marked (fun view => view.closed = true)
    (fun event : Event (Op T) Resp => reportsClosed event.1 event.2 = true)
    (fun view event => by simp) ⟨false, false⟩ (state.trace task)
  rw [exitView, Process.State.ghosts, marked]
  simp

theorem exitView_subscribed (state : MonitorState T config) (task : MonitorTask) :
    (exitView state task).subscribed = true ↔
      ∃ event ∈ state.trace task, subscribes event.1 event.2 = true := by
  have marked := exitMonitor.after_marked (fun view => view.subscribed = true)
    (fun event : Event (Op T) Resp => subscribes event.1 event.2 = true)
    (fun view event => by simp) ⟨false, false⟩ (state.trace task)
  rw [exitView, Process.State.ghosts, marked]
  simp

end Runs

/-- Why a first task can end: the listener never got its first subscription, the miner panicked
or met a critical error, or the cleanup met one. -/
inductive FirstCause (state : MonitorState T config) : Prop
  | unsubscribed (failed : SubxtError) :
      (state.thread .listener).rest = .fail (.subxt failed) →
      (∀ event ∈ state.trace .listener, subscribes event.1 event.2 = false) → FirstCause state
  | minerPanicked : (state.thread .miner).rest = .panic →
      (∀ event ∈ state.trace .miner, event ≠ ⟨.minerRecv, none⟩) → FirstCause state
  | minerFailed (cause : Error) : (state.thread .miner).rest = .fail cause →
      isCriticalMinerError cause = true →
      (∀ event ∈ state.trace .miner, event ≠ ⟨.minerRecv, none⟩) → FirstCause state
  | cleanupFailed (cause : Error) : (state.thread .clearOldRounds).rest = .fail cause →
      isCriticalMinerError cause = true →
      (∀ event ∈ state.trace .clearOldRounds, event ≠ ⟨.clearOldRoundsRecv, none⟩) →
      FirstCause state

theorem EndedFirst.cause {state : MonitorState T config} {task : MonitorTask}
    (ends : ∀ task, TaskEnds state task) (first : EndedFirst state task) : FirstCause state := by
  obtain ⟨ended, notClosed⟩ := first
  have stayedOpen (event : Event (Op T) Resp) (member : event ∈ state.trace task) :
      reportsClosed event.1 event.2 = false := by
    by_contra closed
    have seen := (exitView_closed state task).mpr
      ⟨event, member, Bool.eq_true_of_not_eq_false closed⟩
    rw [notClosed] at seen
    exact Bool.false_ne_true seen
  cases task with
  | listener =>
      rcases ended with panicked | ⟨error, failed⟩
      · exact ((ends .listener).panicked panicked).elim
      · rcases (ends .listener).failed failed with closed | ⟨unsubscribed, cause, rfl⟩
        · exact absurd (notClosed.symm.trans closed) Bool.false_ne_true
        · refine .unsubscribed cause failed fun event member => ?_
          by_contra subscribed
          have seen := (exitView_subscribed state .listener).mpr
            ⟨event, member, Bool.eq_true_of_not_eq_false subscribed⟩
          exact Bool.false_ne_true (unsubscribed.symm.trans seen)
  | miner =>
      have received (event : Event (Op T) Resp) (member : event ∈ state.trace .miner) :
          event ≠ ⟨.minerRecv, none⟩ := by
        rintro rfl
        exact nomatch stayedOpen _ member
      rcases ended with panicked | ⟨error, failed⟩
      · exact .minerPanicked panicked received
      · exact .minerFailed error failed ((ends .miner).failed failed) received
  | clearOldRounds =>
      rcases ended with panicked | ⟨error, failed⟩
      · exact ((ends .clearOldRounds).panicked panicked).elim
      · refine .cleanupFailed error failed ((ends .clearOldRounds).failed failed) ?_
        rintro _ member rfl
        exact nomatch stayedOpen _ member
  | eraPruning =>
      rcases ended with panicked | ⟨error, failed⟩
      · exact ((ends .eraPruning).panicked panicked).elim
      · exact absurd (notClosed.symm.trans ((ends .eraPruning).failed failed)) Bool.false_ne_true

/-- `monitor_cmd` returns when one of its checks fails, and no task was spawned, or from a state
of the tasks in which one of them has ended. -/
inductive MonitorCmdReturns (config : ProcessConfig) (signer : Except Error AccountId)
    (pages nonce : Nat) : Option (MonitorState T config) → Error → Prop
  | refused {error : Error} (env : MinerEnv T) (history : MinerTrace T)
      (failed : (run env (monitorChecks signer) () history).outcome = .err error) :
      MonitorCmdReturns config signer pages nonce none error
  | exited {state : MonitorState T config} {error : Error}
      (run : (monitor config).Runs ClosedByEnd (monitorStart config pages nonce) state)
      (task : MonitorTask) (joined : joinError task (state.thread task).rest = some error) :
      MonitorCmdReturns config signer pages nonce (some state) error

def RefusedBy (signer : Except Error AccountId) (error : Error) : Prop :=
  signer = .error error ∨ error = .accountDoesNotExists ∨ ∃ failed, error = .subxt failed

theorem monitorChecks_refused (signer : Except Error AccountId) (view : ExitView) :
    wp exitMonitor (monitorChecks signer : Task T Unit)
      (fun outcome _ _ => ∀ error, outcome = .err error → RefusedBy signer error) () view := by
  cases signer with
  | error failed =>
      rintro _ ⟨⟩
      exact Or.inl rfl
  | ok account =>
      have known : wp exitMonitor (do
            let atBlock ← rpc (← ask .atCurrentBlock)
            let accountInfo ← rpc (← ask (.account atBlock))
            match accountInfo with
            | none => Program.fail .accountDoesNotExists
            | some _ => pure () : Task T Unit)
          (fun outcome _ _ => ∀ error, outcome = .err error →
            error = .accountDoesNotExists ∨ ∃ failed, error = .subxt failed) () view := by
        simp only [wp_bind, wp_ask, forall_read, followedBy_ok, wp_rpc_ok, wp_rpc_error]
        refine ⟨trivial, fun _ _ => by simp, fun atBlock _ => ⟨trivial, fun _ _ => by simp, ?_⟩⟩
        rintro (_ | info) _ <;> simp
      exact wp_mono known fun outcome _ _ ends error failed => Or.inr (ends error failed)

theorem joinError_ended {state : MonitorState T config} {task : MonitorTask} {error : Error}
    (joined : joinError task (state.thread task).rest = some error) :
    (state.thread task).Ended := by
  generalize rest : (state.thread task).rest = program at joined
  cases program with
  | fail failed => exact Or.inr ⟨failed, rest⟩
  | panic => exact Or.inl rest
  | _ => exact nomatch joined

theorem monitorStart_hasFirst (pages nonce : Nat) :
    HasFirst (monitorStart config pages nonce : MonitorState T config) := by
  refine Or.inl fun task => ⟨?_, rfl⟩
  cases task <;> rintro (panicked | ⟨error, failed⟩) <;> contradiction

/-- If `monitor_cmd` returns, a check failed before the tasks were spawned, or one of the tasks
had a cause of its own, in whatever order they ran: the first subscription of the listener failed,
the miner panicked or met a critical error, or the cleanup of old rounds met one. Every other end
of a task follows such a one. -/
theorem monitor_exit_has_first_cause (config : ProcessConfig) (signer : Except Error AccountId)
    (pages nonce : Nat) (state : Option (MonitorState T config)) (error : Error)
    (returns : MonitorCmdReturns config signer pages nonce state error) :
    match state with
    | none => RefusedBy signer error
    | some state => FirstCause state := by
  cases returns with
  | refused env history failed =>
      have expected : exitMonitor.Expected ⟨false, false⟩
          (run env (monitorChecks signer : Task T Unit) () history).trace :=
        Monitor.expected_of_env (fun _ _ _ => trivial) _ _ _ _
      exact (wp_run env history (monitorChecks_refused signer _) expected).2 error failed
  | exited run task joined =>
      rename_i state
      have ends (task : MonitorTask) : TaskEnds state task :=
        run.keeps (monitorStart_ends pages nonce task) fun _ _ _ attains step _ =>
          attains.step (turn_ends task) (fun _ _ _ => trivial) step
      have first : HasFirst state := run.keeps (monitorStart_hasFirst pages nonce)
        fun _ _ _ first step closes => first.step step closes
      rcases first with quiet | ⟨origin, first⟩
      · exact absurd (joinError_ended joined) (quiet task).1
      · exact first.cause ends

def exitConfig : ProcessConfig := ⟨.ifLeading, false, 0, 10, false⟩

def unsubscribed : MonitorState sampleConfig exitConfig :=
  ((monitorStart exitConfig 2 5).advances .listener unavailable 1).advances .miner
    unavailable 1

theorem unsubscribed_runs :
    (monitor exitConfig).Runs ClosedByEnd (monitorStart exitConfig 2 5) unsubscribed := by
  apply Process.Runs.play
  · apply Process.Runs.refl.play
    exact ⟨⟨⟨rfl, trivial⟩, nofun⟩, trivial⟩
  · exact ⟨⟨⟨rfl, trivial⟩, fun _ => Or.inr ⟨_, rfl⟩⟩, trivial⟩

theorem monitor_exit_has_first_cause_unsubscribed :
    joinError .miner (unsubscribed.thread .miner).rest = some (.taskFailure .miner) ∧
      FirstCause unsubscribed :=
  ⟨rfl, monitor_exit_has_first_cause exitConfig (.ok 0) 2 5 (some unsubscribed) _
    (.exited unsubscribed_runs .miner rfl)⟩

end LeanStakingMiner
