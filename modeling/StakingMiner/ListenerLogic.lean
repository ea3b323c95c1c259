import StakingMiner.ChainLogic
import StakingMiner.ListenerCore
import StakingMiner.ProgramEnds

/-!
Rules for the listener: what a monitor permits of the handling of a block it permits of
the whole turn, as long as it lets the listener follow and recreate its subscription.
-/

namespace LeanStakingMiner

open LeanProgram

variable {T : MinerConfig} {γ : Type} {M : Monitor (Op T) Resp γ}

def Op.followsChain : Op T → Bool
  | .nextBlock | .streamBlocks | .reconnect | .sleep _ => true
  | _ => false

theorem recreateSubscription_permitted
    (follows : ∀ ghost (op : Op T), op.followsChain = true → M.allows ghost op)
    (action : ListenerAction) :
    M.Permits (recreateSubscription action : Miner T ListenerState ListenerAction) := by
  have recreated : M.Permits (recreateSubscriptionWithFailover : Task T Unit) := by
    refine Monitor.Permits.bind (ask_permitted fun _ => follows _ _ rfl) fun first => ?_
    cases first with
    | ok _ => exact fun _ _ => trivial
    | error error =>
        refine Monitor.Permits.bind (ask_permitted fun _ => follows _ _ rfl) fun failover => ?_
        cases failover with
        | error failed => exact fun _ _ => trivial
        | ok _ =>
            exact Monitor.Permits.bind (ask_permitted fun _ => follows _ _ rfl) fun second =>
              rpc_permitted second
  refine Monitor.Permits.bind (fun _ _ => trivial) fun _ => ?_
  refine Monitor.Permits.bind (fun _ _ => trivial) fun state => ?_
  split
  · exact fun _ _ => trivial
  · exact recreated.lift.bind fun _ _ _ => trivial

theorem listenerTurn_permitted
    (follows : ∀ ghost (op : Op T), op.followsChain = true → M.allows ghost op)
    (block : ∀ header, M.Permits (processBlockInternal header)) :
    M.Permits (listenerTurn : Miner T ListenerState Unit) := by
  refine Monitor.Permits.bind (Monitor.Permits.attempt ?_) fun result => ?_
  · refine Monitor.Permits.bind (ask_permitted fun _ => follows _ _ rfl) fun item => ?_
    match item with
    | none => exact recreateSubscription_permitted follows _
    | some none => exact recreateSubscription_permitted follows _
    | some (some (.error (error, willReconnect))) =>
        cases willReconnect <;> exact fun _ _ => trivial
    | some (some (.ok header)) =>
        refine Monitor.Permits.bind (fun _ _ => trivial) fun _ => ?_
        refine Monitor.Permits.bind ((block header).timeout _) fun result => ?_
        match result with
        | some (.ok _) => exact fun _ _ => trivial
        | some (.error _) => exact fun _ _ => trivial
        | none => exact recreateSubscription_permitted follows _
  · cases result with
    | ok action => exact fun _ _ => trivial
    | error error =>
        change M.Permits (if _ then _ else _)
        split
        · exact fun _ _ => trivial
        · exact ask_permitted fun _ => follows _ _ rfl

theorem getBlockState_issues (hash : Hash) :
    Issues [.phase, .other] (getBlockState hash : Task T _) fun _ => True := by
  simp [Issues, getBlockState, Op.kind]

theorem onRoundIncrement_issues (currentRound : Nat) (phase : Phase) :
    Issues [.other] (onRoundIncrement currentRound phase : Task T Unit) fun _ => True := by
  refine (ask_issues (.clearOldRoundsTrySend currentRound)).andThen fun answer => ?_
  cases answer with
  | closed => trivial
  | _ =>
      change Issues _ (if _ then _ else _) _
      split
      · refine (ask_issues (.minerSend .clearSnapshots)).andThen fun sent => ?_
        cases sent <;> trivial
      · trivial

theorem checkRoundIncrement_issues (lastRound : Option Nat) (currentRound : Nat) (phase : Phase) :
    Issues [.other] (checkRoundIncrement lastRound currentRound phase : Task T Unit)
      fun _ => True := by
  unfold checkRoundIncrement
  split
  · exact onRoundIncrement_issues currentRound phase
  · trivial

theorem signalEraPruning_issues (message : EraPruningMessage) :
    Issues [.signal] (signalEraPruning message : Task T Unit) fun _ => True := by
  refine (ask_issues (.eraPruningSend message)).andThen fun sent => ?_
  cases sent <;> trivial

theorem onOffPhase_issues (lastPhase : Option Phase) (header : Header) :
    Issues [.signal] (onOffPhase lastPhase header : Task T _) fun _ => True := by
  have started : Issues [.signal] (startEraPruning lastPhase : Task T Unit) fun _ => True := by
    unfold startEraPruning
    split
    · trivial
    · exact signalEraPruning_issues _
  refine started.andThen fun _ => ?_
  exact (ask_issues (.eraPruningTrySend _)).andThen fun _ => trivial

theorem newBlockDetails_issues (header : Header) (phase : Phase) (round : Nat) :
    Issues [.other] (newBlockDetails header phase round : Task T _) fun _ => True := by
  simp [Issues, newBlockDetails, Op.kind]

theorem onMiningPhase_issues (lastPhase : Option Phase) (header : Header) (phase : Phase)
    (round : Nat) :
    Issues [.signal, .other] (onMiningPhase lastPhase header phase round : Task T _)
      fun _ => True := by
  have stopped : Issues [.signal, .other] (stopEraPruning lastPhase : Task T Unit)
      fun _ => True := by
    unfold stopEraPruning
    split
    · exact (signalEraPruning_issues _).mono (by simp) fun _ holds => holds
    · trivial
  refine stopped.andThen fun _ => ?_
  refine ((newBlockDetails_issues header phase round).mono (by simp) fun _ holds => holds).andThen
    fun details => ?_
  refine ((ask_issues (.minerTrySend (.processBlock details))).mono (by simp [Op.kind])
    fun _ holds => holds).andThen fun answer => ?_
  cases answer <;> trivial

section Runs

variable {env : MinerEnv T} {state : ListenerState} {history : MinerTrace T}

def GoneOr {α σ : Type} (holds : σ → MinerTrace T → Prop)
    (outcome : Outcome Error (Option (Except Error α))) (store : σ) (history : MinerTrace T) :
    Prop :=
  outcome = .ok (some (.error (.channelFailure .eraPruning))) ∨ holds store history

theorem GoneOr.seq {α β σ : Type} {program : Miner T σ α} {rest : α → Miner T σ β}
    {middle holds : σ → MinerTrace T → Prop} {store : σ}
    (first : Ends env (tokioTimeout program) (GoneOr middle) store history)
    (second : ∀ value store history, middle store history →
      Ends env (tokioTimeout (rest value)) (GoneOr holds) store history)
    (stopped : ∀ store history, middle store history → holds store history) :
    Ends env (tokioTimeout (program >>= rest)) (GoneOr holds) store history := by
  refine first.timeoutSeq ?_ ?_ ?_ ?_
  · rintro value store history (gone | reached)
    · simp at gone
    · exact second value store history reached
  · rintro store history (gone | reached)
    · simp at gone
    · exact Or.inr (stopped store history reached)
  · rintro error store history (gone | reached)
    · simp only [Outcome.ok.injEq, Option.some.injEq, Except.error.injEq] at gone
      exact Or.inl (by rw [gone])
    · exact Or.inr (stopped store history reached)
  · rintro store history (gone | reached)
    · simp at gone
    · exact Or.inr (stopped store history reached)

theorem recreateSubscription_issues (action : ListenerAction) (state : ListenerState) :
    wp (kindMonitor [.other])
      (recreateSubscription action : Miner T ListenerState ListenerAction)
      (fun _ after _ => after.prevPhase = state.prevPhase) state () := by
  have recreated : Issues [.other] (recreateSubscriptionWithFailover : Task T Unit)
      fun _ => True := by
    refine (ask_issues .streamBlocks).andThen fun first => ?_
    cases first with
    | ok _ => trivial
    | error error =>
        refine (ask_issues .reconnect).andThen fun failover => ?_
        cases failover with
        | error failed => trivial
        | ok _ =>
            refine (ask_issues .streamBlocks).andThen fun second => ?_
            cases second <;> trivial
  unfold recreateSubscription
  rw [wp_bind, wp_modify, followedBy_ok, wp_bind, wp_load, followedBy_ok]
  split
  · rfl
  · rw [wp_bind, wp_lift]
    refine wp_mono recreated ?_
    intro outcome _ _ _
    cases outcome <;> rfl

def handlePhase (header : Header) (phase : Phase) (currentRound : Nat) (lastPhase : Option Phase) :
    Miner T ListenerState ListenerAction :=
  match phase with
  | .off => (onOffPhase lastPhase header).lift
  | .signed _ | .snapshot _ => (onMiningPhase lastPhase header phase currentRound).lift
  | _ => pure .goOn

def recordPhase (header : Header) (phase : Phase) (currentRound : Nat) :
    Miner T ListenerState ListenerAction := do
  let lastPhase ← replacePhase phase
  ask (.phaseObserved lastPhase phase)
  handlePhase header phase currentRound lastPhase

def handleState (header : Header) (phase : Phase) (currentRound : Nat) :
    Miner T ListenerState ListenerAction := do
  let lastRound ← replaceRound currentRound
  (checkRoundIncrement lastRound currentRound phase).lift
  recordPhase header phase currentRound

theorem processBlockInternal_eq (header : Header) :
    (processBlockInternal header : Miner T ListenerState ListenerAction) =
      (getBlockState header.hash).lift >>= fun read => handleState header read.1 read.2 := rfl

theorem recordPhase_timed (header : Header) (phase : Phase) (currentRound : Nat)
    {post : Outcome Error (Option (Except Error ListenerAction)) → ListenerState →
      MinerTrace T → Prop} :
    Ends env (tokioTimeout (recordPhase header phase currentRound)) post state history ↔
      Ends env (tokioTimeout (handlePhase header phase currentRound state.prevPhase)) post
        { state with prevPhase := some phase }
        (history ++ [⟨.phaseObserved state.prevPhase phase, ()⟩]) := by
  change Ends env (.call (.phaseObserved state.prevPhase phase) fun _ =>
    tokioTimeout (handlePhase header phase currentRound state.prevPhase)) post
      { state with prevPhase := some phase } history ↔ _
  rw [ends_call]

theorem Issues.passesTimed {α : Type} {kinds : List OpKind} {task : Task T α}
    {post : Outcome Error α → Prop} (issues : Issues kinds task post) :
    Ends env (tokioTimeout task) (fun _ _ later =>
      ∃ passed, later = history ++ passed ∧ ∀ event ∈ passed, event.1.kind ∈ kinds) () history := by
  have permitted : (kindMonitor kinds).Permits (task.timeout Op.suspends) :=
    (issues.permits fun _ _ member => member).timeout _
  exact (ends_of_issuing (permitted () ())).mono fun _ _ _ ended => ended.2

variable {holds : ListenerState → MinerTrace T → Prop}
variable (unsignalled : ∀ {state after history passed}, holds state history →
  after.prevPhase = state.prevPhase → (∀ event ∈ passed, event.1.kind ≠ .signal) →
  holds after (history ++ passed))

include unsignalled

theorem Issues.keepsTimed {α : Type} {kinds : List OpKind} {task : Task T α}
    {post : Outcome Error α → Prop} (issues : Issues kinds task post) (quiet : .signal ∉ kinds)
    (holding : holds state history) :
    Ends env (tokioTimeout (task.lift : Miner T ListenerState α))
      (GoneOr fun after later => after = state ∧ holds state later) state history := by
  refine (ends_timeout_lift task).mpr (issues.passesTimed.mono ?_)
  rintro outcome _ later ⟨passed, rfl, issued⟩
  refine Or.inr ⟨rfl, unsignalled holding rfl ?_⟩
  intro event member signal
  exact quiet (signal ▸ issued event member)

variable (handles : ∀ header phase currentRound state history, holds state history →
  Ends env (tokioTimeout (handlePhase header phase currentRound state.prevPhase)) (GoneOr holds)
    { state with prevPhase := some phase }
    (history ++ [⟨.phaseObserved state.prevPhase phase, ()⟩]))

include handles

/-- Up to the recording of the phase nothing era pruning depends on happens, so only the
handling of the recorded phase has to be looked at. -/
theorem processBlockInternal_keeps (header : Header) (holding : holds state history) :
    Ends env (tokioTimeout (processBlockInternal header)) (GoneOr holds) state history := by
  rw [processBlockInternal_eq]
  refine GoneOr.seq ((getBlockState_issues header.hash).keepsTimed unsignalled (by simp) holding) ?_ ?_
  · rintro ⟨phase, currentRound⟩ after later ⟨rfl, read⟩
    change Ends env (tokioTimeout ((checkRoundIncrement after.prevRound currentRound phase).lift >>=
      fun _ => recordPhase header phase currentRound)) (GoneOr holds)
        { after with prevRound := some currentRound } later
    have replaced : holds { after with prevRound := some currentRound } (later ++ []) :=
      unsignalled read rfl (by simp)
    rw [List.append_nil] at replaced
    refine GoneOr.seq ((checkRoundIncrement_issues _ _ _).keepsTimed unsignalled (by simp) replaced) ?_ ?_
    · rintro _ state history ⟨rfl, checked⟩
      refine (recordPhase_timed header phase currentRound).mpr ?_
      exact handles header phase currentRound _ history checked
    · rintro state history ⟨rfl, checked⟩
      exact checked
  · rintro after later ⟨rfl, read⟩
    exact read

theorem processListenerIteration_keeps (holding : holds state history) :
    Ends env processListenerIteration (fun outcome after later =>
      outcome = .err (.channelFailure .eraPruning) ∨ holds after later) state history := by
  have recreated (action : ListenerAction) {state history} (holding : holds state history) :
      Ends env (recreateSubscription action) (fun outcome after later =>
        outcome = .err (.channelFailure .eraPruning) ∨ holds after later) state history := by
    refine (ends_of_issuing (recreateSubscription_issues action state)).mono ?_
    rintro outcome after later ⟨samePhase, passed, rfl, issued⟩
    refine Or.inr (unsignalled holding samePhase ?_)
    intro event member signal
    simpa [signal] using issued event member
  have waited (item : Resp (.nextBlock : Op T)) :
      holds state (history ++ [⟨.nextBlock, item⟩]) := unsignalled holding rfl (by simp [Op.kind])
  refine ends_call.mpr ?_
  rcases env.answer history .nextBlock with _ | _ | ⟨error, willReconnect⟩ | header
  · exact recreated _ (waited _)
  · exact recreated _ (waited _)
  · cases willReconnect with
    | true => exact (ends_return _).mpr (Or.inr (waited _))
    | false => exact (ends_fail _).mpr (Or.inr (waited _))
  · have reset : holds { state with subscriptionRecreationAttempts := 0 }
        (history ++ [⟨.nextBlock, some (some (.ok header))⟩]) :=
      unsignalled holding rfl (by simp [Op.kind])
    refine (ends_bind (Program.modify _) _).mpr ((ends_modify _).mpr ?_)
    rw [continued_ok]
    refine (processBlockInternal_keeps unsignalled handles header reset).seq ?_ ?_ ?_
    · rintro result after later (gone | kept)
      · simp only [Outcome.ok.injEq] at gone
        subst gone
        exact (ends_fail _).mpr (Or.inl rfl)
      · rcases result with _ | error | action
        · exact recreated _ kept
        · exact (ends_fail _).mpr (Or.inr kept)
        · exact (ends_return _).mpr (Or.inr kept)
    · rintro error after later (gone | kept)
      · simp at gone
      · exact Or.inr kept
    · rintro after later (gone | kept)
      · simp at gone
      · exact Or.inr kept

theorem listenerTurn_keeps (holding : holds state history) :
    Ends env listenerTurn (fun outcome after later => outcome = .ok () → holds after later)
      state history := by
  unfold listenerTurn
  rw [ends_bind, ends_attempt]
  refine (processListenerIteration_keeps unsignalled handles holding).mono ?_
  rintro (action | error | _) after later reached
  · rcases reached with gone | kept
    · simp at gone
    · simp [caught, kept]
  · simp only [caught, continued_ok]
    by_cases critical : isCriticalListenerError error = true
    · rw [if_pos critical]
      simp
    · rw [if_neg critical]
      rcases reached with gone | kept
      · simp only [Outcome.err.injEq] at gone
        subst gone
        exact absurd rfl critical
      · refine (ends_perform _).mpr fun _ => unsignalled kept rfl (by simp [Op.kind])
  · simp [caught]

theorem listenerLoop_keeps (turns : Nat) (holding : holds state history) :
    Ends env (listenerLoop turns) (fun outcome after later => outcome = .ok () → holds after later)
      state history := by
  induction turns generalizing state history with
  | zero => exact (ends_return _).mpr fun _ => holding
  | succ turns ih =>
      refine (listenerTurn_keeps unsignalled handles holding).seq ?_ ?_ ?_
      · intro _ after later kept
        exact ih (kept rfl)
      · simp
      · simp

end Runs

end LeanStakingMiner
