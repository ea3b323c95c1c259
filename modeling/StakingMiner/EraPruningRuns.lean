import StakingMiner.ListenerLogic
import StakingMiner.MonitorCore
import StakingMiner.ProcessLogic
import StakingMiner.SubmitLogic

/-!
Era pruning and the start of mining. The listener enqueues the signal to stop before it
hands the first mining block over, but an enqueued signal stops nothing: pruning has
ended only when the pruning task is back at its channel by then.
-/

namespace LeanStakingMiner

open LeanProgram

variable {T : MinerConfig} {config : ProcessConfig}

structure Announced where
  followsOff : Bool
  exited : Bool
  mining : Bool
deriving Repr, DecidableEq

def announcedNext (announced : Announced) : (op : Op T) → Resp op → Announced
  | .phaseObserved last _, _ => { announced with followsOff := last = some .off }
  | .eraPruningSend .enterOffPhase, true => { announced with exited := false, mining := false }
  | .eraPruningSend .exitOffPhase, true => { announced with exited := true }
  | .minerTrySend (.processBlock _), .sent =>
      { announced with mining := announced.mining || announced.followsOff }
  | _, _ => announced

def announcedAllows (announced : Announced) : Op T → Prop
  | .minerTrySend (.processBlock _) => announced.followsOff = true → announced.exited = true
  | .eraPruningTrySend message => ∃ blockNumber, message = .newBlock blockNumber
  | _ => True

def announceMonitor : Monitor (Op T) Resp Announced where
  expects _ _ _ := True
  allows := announcedAllows
  next := announcedNext

structure Pruning where
  active : Bool
  handling : Bool
  inside : Bool
deriving Repr, DecidableEq

def pruningNext (pruning : Pruning) : (op : Op T) → Resp op → Pruning
  | .eraPruningRecv, some .enterOffPhase => { pruning with active := true, handling := false }
  | .eraPruningRecv, some .exitOffPhase => { pruning with active := false, handling := false }
  | .eraPruningRecv, some (.newBlock _) => { pruning with handling := pruning.active }
  | .eraPruningRecv, none => { pruning with handling := false }
  | .pruneEntered _, _ => { pruning with inside := true }
  | .pruneLeft, _ => { pruning with inside := false }
  | _, _ => pruning

def pruningAllows (pruning : Pruning) : Op T → Prop
  | .eraPruningRecv => pruning.inside = false
  | .pruneEntered _ => pruning.handling = true
  | _ => True

def pruningMonitor : Monitor (Op T) Resp Pruning where
  expects _ _ _ := True
  allows := pruningAllows
  next := pruningNext

theorem announceMonitor_quiet {announced : Announced} (op : Op T) (quiet : op.kind ≠ .signal) :
    announceMonitor.Ignores announced op := by
  cases op <;> first | exact absurd rfl quiet | exact ⟨trivial, fun _ => rfl⟩

theorem pruningMonitor_quiet {pruning : Pruning} (op : Op T) (quiet : op.kind ≠ .signal) :
    pruningMonitor.Ignores pruning op := by
  cases op <;> first | exact absurd rfl quiet | exact ⟨trivial, fun _ => rfl⟩

theorem announcedNext_quiet {announced : Announced} {op : Op T} (answer : Resp op)
    (quiet : op.kind ≠ .signal) : announcedNext announced op answer = announced :=
  (announceMonitor_quiet op quiet).2 answer

theorem pruningNext_quiet {pruning : Pruning} {op : Op T} (answer : Resp op)
    (quiet : op.kind ≠ .signal) : pruningNext pruning op answer = pruning :=
  (pruningMonitor_quiet op quiet).2 answer

theorem Issues.unannounced {kinds : List OpKind} {α : Type} {task : Task T α}
    {post : Outcome Error α → Prop} (issues : Issues kinds task post) (quiet : .signal ∉ kinds) :
    announceMonitor.Permits task := by
  refine issues.permits fun announced op member => (announceMonitor_quiet op ?_).1
  intro same
  rw [same] at member
  exact quiet member

theorem onMiningPhase_announced (lastPhase : Option Phase) (header : Header) (phase : Phase)
    (round : Nat) (announced : Announced)
    (same : announced.followsOff = decide (lastPhase = some .off)) :
    wp announceMonitor (onMiningPhase lastPhase header phase round : Task T _)
      (fun _ _ _ => True) () announced := by
  have stopped : wp announceMonitor (stopEraPruning lastPhase : Task T Unit)
      (fun outcome _ after => outcome = .ok () → after.followsOff = true → after.exited = true)
      () announced := by
    unfold stopEraPruning
    by_cases off : lastPhase = some .off
    · rw [if_pos off]
      refine ⟨trivial, fun sent _ => ?_⟩
      cases sent with
      | true => exact fun _ _ => rfl
      | false => exact fun ended => by simp at ended
    · rw [if_neg off]
      intro _ follows
      rw [same, decide_eq_false off] at follows
      contradiction
  refine wp_seq stopped ?_ (fun _ _ _ _ => trivial) (fun _ _ _ => trivial)
  intro _ _ after exited
  refine (newBlockDetails_issues header phase round).seq ?_ ?_ (fun _ _ => trivial)
    (fun _ => trivial)
  · intro op member
    refine announceMonitor_quiet op ?_
    rw [List.mem_singleton.mp member]
    simp
  · intro details _
    refine ⟨exited rfl, fun answer _ => ?_⟩
    cases answer <;> trivial

theorem onOffPhase_announced (lastPhase : Option Phase) (header : Header) :
    announceMonitor.Permits (onOffPhase lastPhase header : Task T _) := by
  have started : announceMonitor.Permits (startEraPruning lastPhase : Task T Unit) := by
    intro _ announced
    unfold startEraPruning
    split
    · trivial
    · refine ⟨trivial, fun sent _ => ?_⟩
      cases sent <;> trivial
  refine started.bind fun _ _ announced => ?_
  exact ⟨⟨header.number, rfl⟩, fun _ _ => trivial⟩

theorem listenerTurn_announced :
    announceMonitor.Permits (listenerTurn : Miner T ListenerState Unit) := by
  refine listenerTurn_permitted ?_ fun header => ?_
  · intro announced op follows
    cases op <;> simp [Op.followsChain] at follows <;> trivial
  · refine Monitor.Permits.bind ((getBlockState_issues header.hash).unannounced (by simp)).lift
      fun (phase, currentRound) => ?_
    refine Monitor.Permits.bind (fun _ _ => trivial) fun lastRound => ?_
    refine Monitor.Permits.bind ((checkRoundIncrement_issues lastRound currentRound phase).unannounced
      (by simp)).lift fun _ => ?_
    refine Monitor.Permits.bind (fun _ _ => trivial) fun lastPhase => ?_
    intro state announced
    refine ⟨trivial, fun _ _ => ?_⟩
    have mining (phase : Phase) := onMiningPhase_announced (T := T) lastPhase header phase
      currentRound (announcedNext announced (.phaseObserved lastPhase phase : Op T) ()) rfl
    cases phase with
    | off => exact (onOffPhase_announced lastPhase header).lift _ _
    | signed blocks => exact (wp_lift _).mpr (mining _)
    | snapshot page => exact (wp_lift _).mpr (mining _)
    | _ => trivial

def BetweenTurns (pruningActive : Bool) (pruning : Pruning) : Prop :=
  pruningActive = pruning.active ∧ pruning.inside = false

theorem getPruneableEraIndex_issues :
    Issues [.head, .other] (getPruneableEraIndex : Task T _) fun _ => True := by
  refine ((ask_issues .storageAtHead).mono (by simp [Op.kind]) fun _ holds => holds).andThen
    fun head => ?_
  cases head with
  | error error => trivial
  | ok atBlock =>
      refine ((ask_issues (.eraPruningState atBlock)).mono (by simp [Op.kind])
        fun _ holds => holds).andThen fun found => ?_
      rcases found with error | (error | entries)
      · trivial
      · trivial
      · trivial

theorem callPruneEraStep_issues (era : Nat) :
    Issues [.other, .nonce, .janitor] (callPruneEraStep era : Task T Unit) (· ≠ .panic) := by
  refine (submitAndFinalize_issues (.pruneEraStep era)).bind ?_ (by simp) (by simp)
  intro _ _
  exact (ask_issues _).mono (by simp [Op.kind]) fun _ holds => holds

theorem unsignalled {kinds : List OpKind} (quiet : .signal ∉ kinds) {pruning : Pruning} (op : Op T)
    (member : op.kind ∈ kinds) : pruningMonitor.Ignores pruning op := by
  refine pruningMonitor_quiet op ?_
  intro same
  rw [same] at member
  exact quiet member

theorem pruneOldestEra_pruning (oldestEra : Nat) (pruning : Pruning)
    (handling : pruning.handling = true) :
    wp pruningMonitor (pruneOldestEra oldestEra : Task T Unit)
      (fun _ _ after => after = { pruning with inside := false }) () pruning := by
  refine ⟨handling, fun _ _ => ?_⟩
  change wp _ (Program.attempt _ >>= _) _ _ { pruning with inside := true }
  rw [wp_bind, wp_attempt]
  refine (callPruneEraStep_issues oldestEra).keeps (unsignalled (by simp)) ?_
  intro outcome calm
  cases outcome with
  | ok _ => exact ⟨trivial, fun _ _ => rfl⟩
  | err error => exact ⟨trivial, fun _ _ => ⟨trivial, fun _ _ => rfl⟩⟩
  | panic => exact absurd rfl calm

theorem pruneForBlock_pruning (pruning : Pruning) (handling : pruning.handling = true)
    (outside : pruning.inside = false) :
    wp pruningMonitor (pruneForBlock : Task T Unit)
      (fun _ _ after => after.active = pruning.active ∧ after.inside = false) () pruning := by
  have looked : Issues [.head, .other] (tokioTimeout getPruneableEraIndex : Task T _)
      fun _ => True := by
    refine wp_timeout (wp_mono getPruneableEraIndex_issues ?_) fun _ => trivial
    intro outcome _ _ _
    cases outcome <;> trivial
  refine looked.seq (unsignalled (by simp)) ?_ (fun _ _ => ⟨rfl, outside⟩) (fun _ => ⟨rfl, outside⟩)
  intro result _
  split
  · refine wp_mono (pruneOldestEra_pruning _ pruning handling) ?_
    intro outcome _ after ended
    rw [ended]
    exact ⟨rfl, rfl⟩
  · exact ⟨rfl, outside⟩

theorem lazyEraPruningTurn_pruning (pruningActive : Bool) (pruning : Pruning)
    (between : BetweenTurns pruningActive pruning) :
    wp pruningMonitor (lazyEraPruningTurn : Miner T Bool Unit)
      (fun outcome active after => outcome = .ok () → BetweenTurns active after)
      pruningActive pruning := by
  obtain ⟨same, outside⟩ := between
  refine ⟨outside, fun message _ => ?_⟩
  match message with
  | none => exact fun ended => by simp at ended
  | some .enterOffPhase => exact fun _ => ⟨rfl, outside⟩
  | some .exitOffPhase => exact fun _ => ⟨rfl, outside⟩
  | some (.newBlock blockNumber) =>
      change wp _ (if pruningActive then _ else _) _ _ { pruning with handling := pruning.active }
      split
      · rename_i active
        rw [wp_lift]
        refine wp_mono (pruneForBlock_pruning { pruning with handling := pruning.active }
          (same.symm.trans active) outside) ?_
        intro outcome _ after kept _
        exact ⟨same.trans kept.1.symm, kept.2⟩
      · exact fun _ => ⟨same, outside⟩

def announced (state : MonitorState T config) : Announced :=
  announceMonitor.after ⟨false, false, false⟩ (state.trace .listener)

def pruning (state : MonitorState T config) : Pruning :=
  pruningMonitor.after ⟨false, false, false⟩ (state.trace .eraPruning)

def pruningChannel (state : MonitorState T config) : Option EraPruningMessage :=
  MonitorWorld.eraPruningChannel state.world

def PruningIdle (state : MonitorState T config) : Prop :=
  (state.thread .eraPruning).WaitsIn .eraPruningRecv

/-- A block that follows an Off block is handed to the miner only when the pruning task
waits for its next message. -/
def IdleBeforeMining (state : MonitorState T config) : MonitorEvent T → Prop
  | (_, ⟨.minerTrySend (.processBlock _), .sent⟩) =>
      (announced state).followsOff = true → PruningIdle state
  | _ => True

def StopPending (announced : Announced) (pruning : Pruning)
    (channel : Option EraPruningMessage) : Prop :=
  announced.exited = true → channel = some .exitOffPhase ∨
    pruning.active = false ∧ channel ≠ some .enterOffPhase

def Outside (announced : Announced) (pruning : Pruning) (idle : Prop) : Prop :=
  announced.mining = true → announced.exited = true ∧ pruning.inside = false ∧
    (pruning.handling = false ∨ idle)

def PruningStopped (state : MonitorState T config) : Prop :=
  StopPending (announced state) (pruning state) (pruningChannel state) ∧
    Outside (announced state) (pruning state) (PruningIdle state)

theorem announced_answered (state : MonitorState T config) (op : Op T) (answer : Resp op) (rest) :
    announced (state.answered .listener op answer rest) =
      announcedNext (announced state) op answer :=
  ghosts_answered state announceMonitor _ .listener op answer rest

theorem announced_answered_other (state : MonitorState T config) {issuer : MonitorTask}
    (op : Op T) (answer : Resp op) (rest) (other : .listener ≠ issuer) :
    announced (state.answered issuer op answer rest) = announced state :=
  ghosts_answered_other state announceMonitor _ op answer rest other

theorem pruning_answered (state : MonitorState T config) (op : Op T) (answer : Resp op) (rest) :
    pruning (state.answered .eraPruning op answer rest) = pruningNext (pruning state) op answer :=
  ghosts_answered state pruningMonitor _ .eraPruning op answer rest

theorem pruning_answered_other (state : MonitorState T config) {issuer : MonitorTask}
    (op : Op T) (answer : Resp op) (rest) (other : .eraPruning ≠ issuer) :
    pruning (state.answered issuer op answer rest) = pruning state :=
  ghosts_answered_other state pruningMonitor _ op answer rest other

theorem pruningIdle_answered_other (state : MonitorState T config) {issuer : MonitorTask}
    (op : Op T) (answer : Resp op) (rest) (other : .eraPruning ≠ issuer) :
    PruningIdle (state.answered issuer op answer rest) ↔ PruningIdle state := by
  unfold PruningIdle
  rw [answered_thread_other state op answer rest other]

theorem next_channel_quiet (world : MonitorWorld) {op : Op T} (answer : Resp op)
    (quiet : op.kind ≠ .signal) :
    (world.next op answer).eraPruningChannel = world.eraPruningChannel := by
  unfold MonitorWorld.next
  split <;> first | exact absurd rfl quiet | rfl

theorem StopPending.newBlock {announced : Announced} {pruning : Pruning}
    {channel : Option EraPruningMessage} (pending : StopPending announced pruning channel)
    (empty : channel = none) (blockNumber : Nat) :
    StopPending announced pruning (some (.newBlock blockNumber)) := by
  intro exited
  rcases pending exited with full | ⟨inactive, _⟩
  · rw [empty] at full
    contradiction
  · exact Or.inr ⟨inactive, by simp⟩

theorem StopPending.listener {announced : Announced} {pruning : Pruning} {world : MonitorWorld}
    {op : Op T} (answer : Resp op)
    (pending : StopPending announced pruning world.eraPruningChannel)
    (owned : op.owner.all (· = .listener) = true) (offered : world.offers op answer)
    (allowed : announcedAllows announced op) :
    StopPending (announcedNext announced op answer) pruning
      (world.next op answer).eraPruningChannel := by
  by_cases quiet : op.kind ≠ .signal
  · rw [next_channel_quiet world answer quiet, announcedNext_quiet answer quiet]
    exact pending
  · cases op with
    | phaseObserved last current => exact pending
    | minerTrySend message =>
        cases message with
        | clearSnapshots => cases answer <;> exact pending
        | processBlock details => cases answer <;> exact pending
    | eraPruningTrySend message =>
        cases answer with
        | sent =>
            obtain ⟨blockNumber, rfl⟩ := allowed
            exact pending.newBlock offered blockNumber
        | full => exact pending
        | closed => exact pending
    | eraPruningSend message =>
        cases answer with
        | false => cases message <;> exact pending
        | true =>
            cases message with
            | enterOffPhase =>
                intro exited
                simp [announcedNext] at exited
            | exitOffPhase => exact fun _ => Or.inl rfl
            | newBlock blockNumber => exact pending.newBlock offered blockNumber
    | eraPruningRecv => simp [Op.owner] at owned
    | pruneEntered era => simp [Op.owner] at owned
    | pruneLeft => simp [Op.owner] at owned
    | submitAndWatch transaction nonce mortality =>
        cases transaction <;> simp [Op.kind, Transaction.kind] at quiet
    | _ => simp [Op.kind] at quiet

theorem Outside.listener {state : MonitorState T config} {op : Op T} (answer : Resp op)
    (outside : Outside (announced state) (pruning state) (PruningIdle state))
    (allowed : announcedAllows (announced state) op)
    (resting : PruningIdle state → (pruning state).inside = false)
    (met : IdleBeforeMining state (.listener, ⟨op, answer⟩)) :
    Outside (announcedNext (announced state) op answer) (pruning state) (PruningIdle state) := by
  unfold announcedNext
  split
  · exact outside
  · intro mining
    simp at mining
  · intro mining
    exact ⟨rfl, (outside mining).2⟩
  · intro mining
    by_cases already : (announced state).mining = true
    · exact outside already
    · have follows : (announced state).followsOff = true := by
        simpa [already] using mining
      have waiting : PruningIdle state := met follows
      exact ⟨allowed follows, resting waiting, Or.inr waiting⟩
  · exact outside

theorem PruningStopped.listener {state : MonitorState T config} (stopped : PruningStopped state)
    {op : Op T} (answer : Resp op) (rest) (owned : op.owner.all (· = .listener) = true)
    (offered : MonitorWorld.offers state.world op answer)
    (allowed : announcedAllows (announced state) op)
    (resting : PruningIdle state → (pruning state).inside = false)
    (met : IdleBeforeMining state (.listener, ⟨op, answer⟩)) :
    PruningStopped (state.answered .listener op answer rest) := by
  have others : MonitorTask.eraPruning ≠ .listener := by decide
  unfold PruningStopped
  rw [announced_answered, pruning_answered_other state op answer rest others,
    pruningIdle_answered_other state op answer rest others]
  exact ⟨stopped.1.listener answer owned offered allowed,
    stopped.2.listener answer allowed resting met⟩

theorem PruningStopped.received {state : MonitorState T config} (stopped : PruningStopped state)
    (message : Option EraPruningMessage) (rest)
    (offered : MonitorWorld.offers state.world (.eraPruningRecv : Op T) message)
    (outside : (pruning state).inside = false) :
    PruningStopped (state.answered .eraPruning .eraPruningRecv message rest) := by
  unfold PruningStopped
  rw [announced_answered_other state _ _ rest (by decide), pruning_answered]
  cases message with
  | none =>
      refine ⟨stopped.1, fun mining => ?_⟩
      exact ⟨(stopped.2 mining).1, outside, Or.inl rfl⟩
  | some message =>
      have taken : pruningChannel state = some message := offered
      have session : (announced state).exited = true →
          (pruningNext (pruning state) (.eraPruningRecv : Op T) (some message)).active = false ∧
          (pruningNext (pruning state) (.eraPruningRecv : Op T) (some message)).handling = false := by
        intro exited
        have pending := stopped.1 exited
        rw [taken] at pending
        cases message with
        | enterOffPhase => simp at pending
        | exitOffPhase => exact ⟨rfl, rfl⟩
        | newBlock blockNumber =>
            simp only [Option.some.injEq, reduceCtorEq, false_or] at pending
            exact ⟨pending.1, pending.1⟩
      have still : (pruningNext (pruning state) (.eraPruningRecv : Op T) (some message)).inside =
          false := by
        cases message <;> exact outside
      constructor
      · intro exited
        exact Or.inr ⟨(session exited).1, by simp [pruningChannel, Process.State.answered, monitor,
          MonitorWorld.next]⟩
      · intro mining
        have exited := (stopped.2 mining).1
        exact ⟨exited, still, Or.inl (session exited).2⟩

theorem Outside.handlesNothing {state : MonitorState T config}
    (outside : Outside (announced state) (pruning state) (PruningIdle state))
    (busy : ¬PruningIdle state) (mining : (announced state).mining = true) :
    (announced state).exited = true ∧ (pruning state).inside = false ∧
      (pruning state).handling = false := by
  obtain ⟨exited, inside, handling | idle⟩ := outside mining
  · exact ⟨exited, inside, handling⟩
  · exact absurd idle busy

theorem PruningStopped.prunes {state : MonitorState T config} (stopped : PruningStopped state)
    {op : Op T} (answer : Resp op) (rest) (owned : op.owner.all (· = .eraPruning) = true)
    (allowed : pruningAllows (pruning state) op) (busy : ¬PruningIdle state)
    (other : op ≠ .eraPruningRecv) :
    PruningStopped (state.answered .eraPruning op answer rest) := by
  have settled := stopped.2.handlesNothing busy
  unfold PruningStopped
  rw [announced_answered_other state _ _ rest (by decide), pruning_answered]
  by_cases quiet : op.kind ≠ .signal
  · have channel : pruningChannel (state.answered .eraPruning op answer rest) =
        pruningChannel state := next_channel_quiet _ answer quiet
    rw [pruningNext_quiet answer quiet, channel]
    refine ⟨stopped.1, fun mining => ?_⟩
    obtain ⟨exited, inside, handling⟩ := settled mining
    exact ⟨exited, inside, Or.inl handling⟩
  · cases op with
    | eraPruningRecv => exact absurd rfl other
    | pruneEntered era =>
        refine ⟨stopped.1, fun mining => ?_⟩
        have handling : (pruning state).handling = true := allowed
        rw [(settled mining).2.2] at handling
        contradiction
    | pruneLeft =>
        refine ⟨stopped.1, fun mining => ?_⟩
        exact ⟨(settled mining).1, rfl, Or.inl (settled mining).2.2⟩
    | submitAndWatch transaction nonce mortality =>
        cases transaction <;> simp [Op.kind, Transaction.kind] at quiet
    | minerTrySend | eraPruningSend | eraPruningTrySend | phaseObserved => simp [Op.owner] at owned
    | _ => simp [Op.kind] at quiet

theorem PruningStopped.bystander {state : MonitorState T config} (stopped : PruningStopped state)
    {issuer : MonitorTask} {op : Op T} (answer : Resp op) (rest)
    (owned : op.owner.all (· = issuer) = true) (notListener : .listener ≠ issuer)
    (notPruner : .eraPruning ≠ issuer) :
    PruningStopped (state.answered issuer op answer rest) := by
  have quiet : op.kind ≠ .signal := by
    intro signal
    cases op with
    | submitAndWatch transaction nonce mortality =>
        cases transaction <;> simp [Op.kind, Transaction.kind] at signal
    | minerTrySend | eraPruningSend | eraPruningTrySend | phaseObserved =>
        simp [Op.owner] at owned
        exact notListener owned
    | eraPruningRecv | pruneEntered | pruneLeft =>
        simp [Op.owner] at owned
        exact notPruner owned
    | _ => simp [Op.kind] at signal
  have channel : pruningChannel (state.answered issuer op answer rest) = pruningChannel state :=
    next_channel_quiet _ answer quiet
  unfold PruningStopped
  rw [announced_answered_other state op answer rest notListener,
    pruning_answered_other state op answer rest notPruner,
    pruningIdle_answered_other state op answer rest notPruner, channel]
  exact stopped

theorem PruningStopped.move {state : MonitorState T config} (stopped : PruningStopped state)
    (task : MonitorTask) {thread}
    (moves : (state.thread task).Moves ((monitor config).turn task) thread) :
    PruningStopped (state.setThread task thread) := by
  refine ⟨stopped.1, fun mining => ?_⟩
  by_cases own : .eraPruning = task
  · subst own
    have busy : ¬PruningIdle state := by
      rintro ⟨next, waits⟩
      generalize state.thread .eraPruning = before at moves waits
      cases moves <;> simp at waits
    obtain ⟨exited, inside, handling⟩ := stopped.2.handlesNothing busy mining
    exact ⟨exited, inside, Or.inl handling⟩
  · have same : PruningIdle (state.setThread task thread) ↔ PruningIdle state := by
      unfold PruningIdle
      rw [setThread_thread_other state thread own]
    rw [same]
    exact stopped.2 mining

def ListenerFollows (state : MonitorState T config) : Prop :=
  (monitor config).Follows .listener announceMonitor ⟨false, false, false⟩ (fun _ _ => True) state

def PrunerFollows (state : MonitorState T config) : Prop :=
  (monitor config).Follows .eraPruning pruningMonitor ⟨false, false, false⟩ BetweenTurns state

theorem ListenerFollows.step {state after : MonitorState T config}
    {label : Option (MonitorEvent T)} (follows : ListenerFollows state)
    (step : (monitor config).Step state label after) : ListenerFollows after := by
  refine Process.Follows.step ?_ follows step fun _ _ => trivial
  intro store ghost _
  exact wp_mono (listenerTurn_announced store ghost) fun _ _ _ _ _ => trivial

theorem PrunerFollows.step {state after : MonitorState T config}
    {label : Option (MonitorEvent T)} (follows : PrunerFollows state)
    (step : (monitor config).Step state label after) : PrunerFollows after :=
  Process.Follows.step lazyEraPruningTurn_pruning follows step fun _ _ => trivial

theorem PruningStopped.step {state after : MonitorState T config}
    {label : Option (MonitorEvent T)} (stopped : PruningStopped state)
    (listens : ListenerFollows state) (prunes : PrunerFollows state)
    (step : (monitor config).Step state label after)
    (met : ∀ event, label = some event → IdleBeforeMining state event) : PruningStopped after := by
  have resting (idle : PruningIdle state) : (pruning state).inside = false := prunes.allows idle
  cases step with
  | move task moves => exact stopped.move task moves
  | evolve evolves => cases evolves <;> exact stopped
  | @call issuer op next answer waits given =>
      cases issuer with
      | listener =>
          exact stopped.listener answer _ given.1 given.2 (listens.allows ⟨next, waits⟩) resting
            (met _ rfl)
      | eraPruning =>
          have allowed := prunes.allows ⟨next, waits⟩
          by_cases receives : op = .eraPruningRecv
          · subst receives
            exact stopped.received answer _ given.2 allowed
          · refine stopped.prunes answer _ given.1 allowed ?_ receives
            rintro ⟨continuation, idle⟩
            rw [waits] at idle
            cases idle
            contradiction
      | miner => exact stopped.bystander answer _ given.1 (by decide) (by decide)
      | clearOldRounds => exact stopped.bystander answer _ given.1 (by decide) (by decide)

/-- In every run in which the pruning task is idle whenever a block that follows an Off
block is handed to the miner, the task stays outside `call_prune_era_step` from then on
until era pruning is started again. -/
theorem pruning_stops_before_mining (config : ProcessConfig) (pages nonce : Nat)
    (state : MonitorState T config)
    (run : (monitor config).Runs IdleBeforeMining (monitorStart config pages nonce) state) :
    (announced state).mining = true → (pruning state).inside = false := by
  have invariant : PruningStopped state ∧ ListenerFollows state ∧ PrunerFollows state := by
    apply run.keeps
    · refine ⟨⟨?_, ?_⟩, ?_, ?_⟩
      · intro exited
        simp [announced, Process.State.trace, monitorStart] at exited
      · intro mining
        simp [announced, Process.State.trace, monitorStart] at mining
      · refine ⟨trivial, fun answer _ => ?_⟩
        cases answer <;> exact fun _ => trivial
      · exact lazyEraPruningTurn_pruning false _ ⟨rfl, rfl⟩
    · intro before label after holds step met
      exact ⟨holds.1.step holds.2.1 holds.2.2 step met, holds.2.1.step step, holds.2.2.step step⟩
  intro mining
  exact (invariant.1.2 mining).2.1

def pruningConfig : ProcessConfig := ⟨.ifLeading, false, 0, 10, false⟩

def offSignalled : MonitorState sampleConfig pruningConfig :=
  (monitorStart pruningConfig 2 5).advances .listener
    (servesBlock ⟨101, 101⟩ .off 7 5 .enterOffPhase) 23

def idleAtSnapshot : MonitorState sampleConfig pruningConfig :=
  ((offSignalled.advances .listener unavailable 2).advances .eraPruning
    (servesBlock ⟨101, 101⟩ .off 7 5 .enterOffPhase) 4).advances .listener
    (servesBlock ⟨102, 102⟩ (.snapshot 0) 7 5 .exitOffPhase) 29

theorem offSignalled_runs :
    (monitor pruningConfig).Runs IdleBeforeMining (monitorStart pruningConfig 2 5)
      offSignalled := by
  apply Process.Runs.refl.play
  repeat refine ⟨by trivial, ?_⟩
  trivial

set_option maxRecDepth 2000 in
theorem idleAtSnapshot_runs :
    (monitor pruningConfig).Runs IdleBeforeMining (monitorStart pruningConfig 2 5)
      idleAtSnapshot := by
  apply Process.Runs.play
  · apply Process.Runs.play
    · apply offSignalled_runs.play
      exact ⟨⟨⟨rfl, Option.some_ne_none EraPruningMessage.enterOffPhase⟩, trivial⟩, trivial, trivial⟩
    · repeat refine ⟨by trivial, ?_⟩
      trivial
  · repeat refine ⟨by first | trivial | exact ⟨⟨rfl, rfl⟩, fun _ => ⟨_, rfl⟩⟩, ?_⟩
    trivial

set_option maxRecDepth 2000 in
theorem idleAtSnapshot_mining : (announced idleAtSnapshot).mining = true := rfl

theorem pruning_stops_before_mining_idle :
    ∃ state, (monitor pruningConfig).Runs IdleBeforeMining
        (monitorStart pruningConfig 2 5 : MonitorState sampleConfig pruningConfig) state ∧
      (announced state).mining = true ∧ (pruning state).inside = false :=
  ⟨idleAtSnapshot, idleAtSnapshot_runs, idleAtSnapshot_mining,
    pruning_stops_before_mining _ 2 5 _ idleAtSnapshot_runs idleAtSnapshot_mining⟩

def insidePruneStep : MonitorState sampleConfig pruningConfig :=
  ((offSignalled.advances .eraPruning (servesBlock ⟨101, 101⟩ .off 7 5 .enterOffPhase) 4).advances
    .listener (servesBlock ⟨101, 101⟩ .off 7 5 .enterOffPhase) 2).advances
    .eraPruning (servesBlock ⟨101, 101⟩ .off 7 5 (.newBlock 101)) 13

def snapshotDuringPrune : MonitorState sampleConfig pruningConfig :=
  insidePruneStep.advances .listener (servesBlock ⟨102, 102⟩ (.snapshot 0) 7 5 .exitOffPhase) 29

set_option maxRecDepth 2000 in
theorem insidePruneStep_runs :
    (monitor pruningConfig).Runs IdleBeforeMining (monitorStart pruningConfig 2 5)
      insidePruneStep := by
  apply Process.Runs.play
  · apply Process.Runs.play
    · apply offSignalled_runs.play
      repeat refine ⟨by trivial, ?_⟩
      trivial
    · repeat refine ⟨by trivial, ?_⟩
      trivial
  · repeat refine ⟨by trivial, ?_⟩
    trivial

set_option maxRecDepth 4000 in
theorem snapshotDuringPrune_runs :
    (monitor pruningConfig).Runs (fun _ _ => True) (monitorStart pruningConfig 2 5)
      snapshotDuringPrune := by
  apply (insidePruneStep_runs.mono fun _ _ _ => trivial).play
  repeat refine ⟨by trivial, ?_⟩
  trivial

set_option maxRecDepth 4000 in
theorem snapshotDuringPrune_inside :
    (announced snapshotDuringPrune).mining = true ∧ (pruning snapshotDuringPrune).inside = true :=
  ⟨rfl, rfl⟩

/-- A prune transaction waits for finalization while the stop signal sits in the channel
and the Snapshot block is enqueued for mining. -/
theorem mining_starts_during_prune_step :
    ∃ state, (monitor pruningConfig).Runs (fun _ _ => True)
        (monitorStart pruningConfig 2 5 : MonitorState sampleConfig pruningConfig) state ∧
      (announced state).mining = true ∧ (pruning state).inside = true :=
  ⟨snapshotDuringPrune, snapshotDuringPrune_runs, snapshotDuringPrune_inside⟩

end LeanStakingMiner
