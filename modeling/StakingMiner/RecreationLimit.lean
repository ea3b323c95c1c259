import StakingMiner.ListenerLogic
import StakingMiner.ProgramConfined

/-!
The limit on recreated subscriptions. Every stall adds one to the counter and every
received block sets it back, also a block whose own processing then times out.
-/

namespace LeanStakingMiner

open LeanProgram

variable {T : MinerConfig} {α : Type}

abbrev recreationLimit : Error :=
  .subscriptionRecreationLimitExceeded maxSubscriptionRecreationAttempts

def Op.isStream : Op T → Bool
  | .streamBlocks => true
  | _ => false

def blockReceived : (op : Op T) → Resp op → Bool
  | .nextBlock, some (some (.ok _)) => true
  | _, _ => false

structure Iteration (T : MinerConfig) where
  before : ListenerState
  result : Result ListenerState Error (Op T) Resp ListenerAction

namespace Iteration

def receives (turn : Iteration T) : Bool :=
  turn.result.trace.any fun event => blockReceived event.1 event.2

def recreates (turn : Iteration T) : Bool := turn.result.trace.any fun event => event.1.isStream

def limited (turn : Iteration T) : Bool := decide (turn.result.outcome = .err recreationLimit)

def continues (turn : Iteration T) : Bool :=
  match turn.result.outcome with
  | .ok _ => true
  | .err error => !isCriticalListenerError error
  | .panic => false

end Iteration

def iteration (env : MinerEnv T) (state : ListenerState) (history : MinerTrace T) : Iteration T :=
  ⟨state, run env processListenerIteration state history⟩

/-- The states of `listener_task` between iterations, with the iterations so far. One that
does not let the loop continue is the last. -/
inductive ListenerRun (env : MinerEnv T) : ListenerState → MinerTrace T → List (Iteration T) → Prop
  | start : ListenerRun env .initial [] []
  | turned {state history turns} : ListenerRun env state history turns →
      (∀ turn ∈ turns, turn.continues = true) →
      ListenerRun env (run env listenerTurn state history).store
        (history ++ (run env listenerTurn state history).trace)
        (turns ++ [iteration env state history])

theorem listenerTurn_store (env : MinerEnv T) (state : ListenerState) (history : MinerTrace T) :
    (run env listenerTurn state history).store = (iteration env state history).result.store := by
  have iterated : Ends env processListenerIteration (fun _ after _ =>
      after = (run env processListenerIteration state history).store) state history := rfl
  have same : Ends env listenerTurn (fun _ after _ =>
      after = (run env processListenerIteration state history).store) state history := by
    rw [listenerTurn, ends_bind, ends_attempt]
    refine iterated.mono ?_
    rintro (action | error | _) after later stored
    · simp only [caught, continued_ok]
      exact (ends_return _).mpr stored
    · simp only [caught, continued_ok]
      split
      · exact (ends_fail _).mpr stored
      · exact (ends_perform _).mpr stored
    · exact stored
  exact same

def blockBounds : Bounds ListenerState Error (Op T) where
  store state := state.subscriptionRecreationAttempts = 0
  issued op := op.isStream = false
  fails error := error ≠ recreationLimit

section Confined

variable {σ : Type} {bounds : Bounds σ Error (Op T)}

theorem ask_confined {op : Op T} (issued : bounds.issued op) :
    Confined bounds (fun _ => True) (ask op : Miner T σ (Resp op)) :=
  ⟨issued, fun _ => trivial⟩

theorem rpc_confined (subxt : ∀ error, bounds.fails (.subxt error)) (answer : Read α) :
    Confined bounds (fun _ => True) (rpc answer : Miner T σ α) := by
  cases answer with
  | ok value => trivial
  | error error => exact subxt error

end Confined

theorem subxt_unlimited (error : SubxtError) :
    (blockBounds.free : Bounds Unit Error (Op T)).fails (.subxt error) := nofun

theorem getBlockState_confined (hash : Hash) :
    Confined blockBounds.free (fun _ => True) (getBlockState hash : Task T (Phase × Nat)) := by
  refine confined_bind (ask_confined rfl) fun storage _ =>
    confined_bind (rpc_confined subxt_unlimited storage) fun atBlock _ => ?_
  refine confined_bind (ask_confined rfl) fun phase _ =>
    confined_bind (rpc_confined subxt_unlimited phase) fun phase _ => ?_
  exact confined_bind (ask_confined rfl) fun round _ =>
    confined_bind (rpc_confined subxt_unlimited round) fun _ _ => trivial

theorem checkRoundIncrement_confined (lastRound : Option Nat) (currentRound : Nat)
    (phase : Phase) :
    Confined blockBounds.free (fun _ => True)
      (checkRoundIncrement lastRound currentRound phase : Task T Unit) := by
  unfold checkRoundIncrement
  split
  · refine confined_bind (ask_confined rfl) fun answer _ => ?_
    cases answer with
    | closed => exact nofun
    | sent | full =>
        change Confined _ _ (if _ then _ else _)
        split
        · refine confined_bind (ask_confined rfl) fun sent _ => ?_
          cases sent with
          | true => trivial
          | false => exact nofun
        · trivial
  · trivial

theorem signalEraPruning_confined (message : EraPruningMessage) :
    Confined blockBounds.free (fun _ => True) (signalEraPruning message : Task T Unit) := by
  refine confined_bind (ask_confined rfl) fun sent _ => ?_
  cases sent with
  | true => trivial
  | false => exact nofun

theorem onOffPhase_confined (lastPhase : Option Phase) (header : Header) :
    Confined blockBounds.free (fun _ => True)
      (onOffPhase lastPhase header : Task T ListenerAction) := by
  have starts : Confined blockBounds.free (fun _ => True)
      (startEraPruning lastPhase : Task T Unit) := by
    unfold startEraPruning
    split
    · trivial
    · exact signalEraPruning_confined _
  exact confined_bind starts fun _ _ => confined_bind (ask_confined rfl) fun _ _ => trivial

theorem onMiningPhase_confined (lastPhase : Option Phase) (header : Header) (phase : Phase)
    (round : Nat) :
    Confined blockBounds.free (fun _ => True)
      (onMiningPhase lastPhase header phase round : Task T ListenerAction) := by
  have stops : Confined blockBounds.free (fun _ => True)
      (stopEraPruning lastPhase : Task T Unit) := by
    unfold stopEraPruning
    split
    · exact signalEraPruning_confined _
    · trivial
  have details : Confined blockBounds.free (fun _ => True)
      (newBlockDetails header phase round : Task T BlockDetails) := by
    refine confined_bind (ask_confined rfl) fun storage _ =>
      confined_bind (rpc_confined subxt_unlimited storage) fun atBlock _ => ?_
    refine confined_bind (ask_confined rfl) fun targets _ =>
      confined_bind (rpc_confined subxt_unlimited targets) fun _ _ => ?_
    exact confined_bind (ask_confined rfl) fun _ _ => trivial
  refine confined_bind stops fun _ _ => confined_bind details fun state _ => ?_
  refine confined_bind (ask_confined rfl) fun answer _ => ?_
  cases answer with
  | closed => exact nofun
  | sent | full => trivial

theorem processBlockInternal_confined (header : Header) :
    Confined blockBounds (fun _ => True)
      (processBlockInternal header : Miner T ListenerState ListenerAction) := by
  have replaces (currentRound : Nat) : Confined blockBounds (fun _ => True)
      (replaceRound currentRound : Miner T ListenerState (Option Nat)) :=
    fun _ _ _ kept => ⟨kept, trivial⟩
  have records (phase : Phase) : Confined blockBounds (fun _ => True)
      (replacePhase phase : Miner T ListenerState (Option Phase)) :=
    fun _ _ _ kept => ⟨kept, trivial⟩
  refine confined_bind (confined_lift (getBlockState_confined header.hash)) ?_
  rintro ⟨phase, currentRound⟩ _
  refine confined_bind (replaces currentRound) fun lastRound _ => ?_
  refine confined_bind (confined_lift (checkRoundIncrement_confined _ _ _)) fun _ _ => ?_
  refine confined_bind (records phase) fun lastPhase _ => ?_
  refine confined_bind (ask_confined rfl) fun _ _ => ?_
  split
  · exact confined_lift (onOffPhase_confined lastPhase header)
  · exact confined_lift (onMiningPhase_confined lastPhase header _ currentRound)
  · exact confined_lift (onMiningPhase_confined lastPhase header _ currentRound)
  · trivial

theorem recreateSubscriptionWithFailover_ends (env : MinerEnv T) (history : MinerTrace T) :
    Ends env recreateSubscriptionWithFailover (fun outcome _ later =>
      (∀ error, outcome = .err error → error ≠ recreationLimit) ∧
      ∃ passed, later = history ++ passed ∧
        (passed.any fun event => blockReceived event.1 event.2) = false ∧
        (passed.any fun event => event.1.isStream) = true) () history := by
  refine ends_call.mpr ?_
  generalize env.answer history .streamBlocks = first
  cases first with
  | ok _ => exact (ends_return _).mpr ⟨fun _ => nofun, [⟨.streamBlocks, .ok ()⟩], rfl, rfl, rfl⟩
  | error error =>
      refine ends_call.mpr ?_
      generalize env.answer _ .reconnect = failover
      cases failover with
      | error failed =>
          refine (ends_fail _).mpr
            ⟨?_, [⟨.streamBlocks, .error error⟩, ⟨.reconnect, .error failed⟩], by simp, rfl, rfl⟩
          rintro _ ⟨⟩
          exact nofun
      | ok _ =>
          refine ends_call.mpr ?_
          generalize env.answer _ .streamBlocks = second
          cases second with
          | ok _ =>
              refine (ends_return _).mpr ⟨fun _ => nofun, [⟨.streamBlocks, .error error⟩,
                ⟨.reconnect, .ok ()⟩, ⟨.streamBlocks, .ok ()⟩], by simp, rfl, rfl⟩
          | error again =>
              refine (ends_fail _).mpr ⟨?_, [⟨.streamBlocks, .error error⟩,
                ⟨.reconnect, .ok ()⟩, ⟨.streamBlocks, .error again⟩], by simp, rfl, rfl⟩
              rintro _ ⟨⟩
              exact nofun

theorem recreateSubscription_ends (action : ListenerAction) (env : MinerEnv T)
    (state : ListenerState) (history : MinerTrace T) :
    Ends env (recreateSubscription action) (fun outcome after later =>
      after.subscriptionRecreationAttempts = state.subscriptionRecreationAttempts + 1 ∧
      ∃ passed, later = history ++ passed ∧
        (passed.any fun event => blockReceived event.1 event.2) = false ∧
        (outcome = .err recreationLimit ∧
            maxSubscriptionRecreationAttempts < state.subscriptionRecreationAttempts + 1 ∨
          outcome ≠ .err recreationLimit ∧ (passed.any fun event => event.1.isStream) = true ∧
            state.subscriptionRecreationAttempts + 1 ≤ maxSubscriptionRecreationAttempts))
      state history := by
  rw [recreateSubscription, ends_bind, ends_modify, continued_ok, ends_bind, ends_load,
    continued_ok]
  split
  · rename_i beyond
    exact (ends_fail _).mpr ⟨rfl, [], by simp, rfl, Or.inl ⟨rfl, beyond⟩⟩
  · rename_i within
    rw [ends_bind, ends_lift]
    refine (recreateSubscriptionWithFailover_ends env history).mono ?_
    rintro (_ | error | _) _ later ⟨unlimited, passed, rfl, unreceived, streamed⟩
    · rw [continued_ok]
      refine (ends_return _).mpr ⟨rfl, passed, rfl, unreceived, Or.inr ⟨nofun, streamed, ?_⟩⟩
      exact Nat.le_of_not_lt within
    · refine ⟨rfl, passed, rfl, unreceived, Or.inr ⟨?_, streamed, Nat.le_of_not_lt within⟩⟩
      rintro ⟨⟩
      exact unlimited _ rfl rfl
    · exact ⟨rfl, passed, rfl, unreceived, Or.inr ⟨nofun, streamed, Nat.le_of_not_lt within⟩⟩

def Iteration.start (turn : Iteration T) : Nat :=
  if turn.receives then 0 else turn.before.subscriptionRecreationAttempts

/-- An iteration without the limit error counts its recreation, of which there is at most
one, and stays within the limit; the limit error is not returned after a received block. -/
def Iteration.Counts (turn : Iteration T) : Prop :=
  turn.limited = true ∧ turn.receives = false ∨ turn.limited = false ∧
    turn.result.store.subscriptionRecreationAttempts = turn.start + turn.recreates.toNat ∧
    (turn.recreates = true → turn.start + 1 ≤ maxSubscriptionRecreationAttempts)

theorem recreated_counts {state counted : ListenerState} (action : ListenerAction)
    (env : MinerEnv T) (history earlier : MinerTrace T)
    (reset : (if earlier.any fun event => blockReceived event.1 event.2 then 0
      else state.subscriptionRecreationAttempts) = counted.subscriptionRecreationAttempts) :
    Ends env (recreateSubscription action) (fun outcome after later =>
      ∃ passed, later = history ++ passed ∧ Iteration.Counts ⟨state, outcome, after, passed⟩)
      counted (history ++ earlier) := by
  refine (recreateSubscription_ends action env counted (history ++ earlier)).mono ?_
  rintro outcome after _ ⟨stalled, passed, rfl, unreceived, counts⟩
  have received : ((earlier ++ passed).any fun event => blockReceived event.1 event.2) =
      earlier.any fun event => blockReceived event.1 event.2 := by
    rw [List.any_append, unreceived, Bool.or_false]
  refine ⟨earlier ++ passed, by simp, ?_⟩
  rcases counts with ⟨rfl, beyond⟩ | ⟨unlimited, streamed, within⟩
  · refine Or.inl ⟨by simp [Iteration.limited], ?_⟩
    rw [Iteration.receives, received]
    by_contra reached
    rw [if_pos (by simpa using reached)] at reset
    rw [← reset] at beyond
    exact absurd beyond (by decide)
  · have starts : Iteration.start ⟨state, outcome, after, earlier ++ passed⟩ =
        counted.subscriptionRecreationAttempts := by
      rw [← reset, Iteration.start, Iteration.receives, received]
    have recreates : Iteration.recreates ⟨state, outcome, after, earlier ++ passed⟩ = true := by
      rw [Iteration.recreates, List.any_append, streamed, Bool.or_true]
    refine Or.inr ⟨by simpa [Iteration.limited] using unlimited, ?_⟩
    rw [starts, recreates]
    exact ⟨stalled, fun _ => within⟩

abbrev received (header : Header) : Event (Op T) Resp := ⟨.nextBlock, some (some (.ok header))⟩

theorem handled_counts {state after : ListenerState} {outcome : Outcome Error ListenerAction}
    {header : Header} {passed : MinerTrace T} (unlimited : outcome ≠ .err recreationLimit)
    (reset : after.subscriptionRecreationAttempts = 0)
    (unstreamed : (passed.any fun event => event.1.isStream) = false) :
    Iteration.Counts ⟨state, outcome, after, received header :: passed⟩ := by
  have recreates : Iteration.recreates
      ⟨state, outcome, after, received header :: passed⟩ = false := unstreamed
  refine Or.inr ⟨by simpa [Iteration.limited] using unlimited, ?_⟩
  rw [recreates]
  exact ⟨reset, nofun⟩

theorem processListenerIteration_counts (env : MinerEnv T) (state : ListenerState)
    (history : MinerTrace T) :
    Ends env processListenerIteration (fun outcome after later =>
      ∃ passed, later = history ++ passed ∧ Iteration.Counts ⟨state, outcome, after, passed⟩)
      state history := by
  refine ends_call.mpr ?_
  rcases env.answer history .nextBlock with _ | _ | ⟨error, willReconnect⟩ | header
  · exact recreated_counts _ env history [_] rfl
  · exact recreated_counts _ env history [_] rfl
  · cases willReconnect with
    | true => exact (ends_return _).mpr ⟨[_], rfl, Or.inr ⟨rfl, rfl, nofun⟩⟩
    | false => exact (ends_fail _).mpr ⟨[_], rfl, Or.inr ⟨by simp [Iteration.limited], rfl, nofun⟩⟩
  · refine (ends_bind (Program.modify _) _).mpr ((ends_modify _).mpr ?_)
    rw [continued_ok]
    have confined := confined_timeout (processBlockInternal_confined (T := T) header) Op.suspends
    have still {passed : MinerTrace T}
        (issued : ∀ event ∈ passed, (blockBounds (T := T)).issued event.1) :
        (passed.any fun event => event.1.isStream) = false := by
      rw [List.any_eq_false]
      exact fun event member => by simpa [blockBounds] using issued event member
    have reset : (blockBounds (T := T)).store { state with subscriptionRecreationAttempts := 0 } :=
      rfl
    refine (ends_of_confined confined reset).seq ?_ ?_ ?_
    · rintro result after _ ⟨kept, returned, _, passed, rfl, issued⟩
      have unlimited := returned result rfl
      rcases result with _ | error | action
      · rw [List.append_assoc]
        exact recreated_counts _ env history (received header :: passed) kept.symm
      · refine (ends_fail _).mpr
          ⟨received header :: passed, by simp, handled_counts ?_ kept (still issued)⟩
        rintro ⟨⟩
        exact unlimited rfl
      · exact (ends_return _).mpr
          ⟨received header :: passed, by simp, handled_counts nofun kept (still issued)⟩
    · rintro error after _ ⟨kept, _, failed, passed, rfl, issued⟩
      refine ⟨received header :: passed, by simp, handled_counts ?_ kept (still issued)⟩
      rintro ⟨⟩
      exact failed _ rfl rfl
    · rintro after _ ⟨kept, _, _, passed, rfl, issued⟩
      exact ⟨received header :: passed, by simp, handled_counts nofun kept (still issued)⟩

theorem iteration_counts (env : MinerEnv T) (state : ListenerState) (history : MinerTrace T) :
    (iteration env state history).Counts := by
  obtain ⟨passed, extended, counts⟩ := processListenerIteration_counts env state history
  obtain rfl := List.append_cancel_left extended
  exact counts

/-- In a run in which no block arrives while stalls are being counted, the counter is as high
as the number of recreations, so there are no more of them than the limit allows before the
limit error is returned. -/
theorem recreations_bounded_before_limit_error (env : MinerEnv T) {state : ListenerState}
    {history : MinerTrace T} {turns : List (Iteration T)}
    (runs : ListenerRun env state history turns)
    (fresh : ∀ turn ∈ turns, turn.receives = true →
      turn.before.subscriptionRecreationAttempts = 0)
    (unlimited : ∀ turn ∈ turns, turn.limited = false) :
    turns.countP Iteration.recreates ≤ maxSubscriptionRecreationAttempts := by
  suffices tallied : turns.countP Iteration.recreates ≤ state.subscriptionRecreationAttempts ∧
      state.subscriptionRecreationAttempts ≤ maxSubscriptionRecreationAttempts from
    tallied.1.trans tallied.2
  induction runs with
  | start => exact ⟨le_rfl, Nat.zero_le _⟩
  | @turned state history turns _ _ ih =>
      obtain ⟨counted, within⟩ := ih (fun turn member => fresh turn (by simp [member]))
        (fun turn member => unlimited turn (by simp [member]))
      have starts : (iteration env state history).start = state.subscriptionRecreationAttempts := by
        unfold Iteration.start
        split
        · rename_i received
          exact (fresh _ (by simp) received).symm
        · rfl
      rcases iteration_counts env state history with ⟨limited, _⟩ | ⟨_, counts, bounded⟩
      · rw [unlimited _ (by simp)] at limited
        contradiction
      · rw [starts] at counts bounded
        rw [listenerTurn_store, counts, List.countP_append]
        cases recreates : (iteration env state history).recreates with
        | true =>
            simp only [List.countP_singleton, recreates, ↓reduceIte, Bool.toNat_true]
            exact ⟨Nat.add_le_add_right counted 1, bounded recreates⟩
        | false => simpa [recreates] using And.intro counted within

def stallingAnswer (history : MinerTrace sampleConfig) : (op : Op sampleConfig) → Resp op
  | .nextBlock => if history.isEmpty then some (some (.ok ⟨50, 50⟩)) else none
  | .streamBlocks => .ok ()
  | op => unavailable op

def stallingNode : MinerEnv sampleConfig := ⟨stallingAnswer, fun _ _ => true⟩

theorem stalling_run :
    ∃ state history turns, ListenerRun stallingNode state history turns ∧
      (∀ turn ∈ turns, turn.limited = false) ∧
      (∀ turn ∈ turns, turn.receives = true → turn.before.subscriptionRecreationAttempts = 0) ∧
      turns.map (fun turn => (turn.receives, turn.result.outcome)) =
        [(true, .ok .blockProcessingTimeout), (false, .ok .subscriptionRecreated),
          (false, .ok .subscriptionRecreated)] := by
  refine ⟨_, _, _, .turned (.turned (.turned .start ?_) ?_) ?_, ?_, ?_, rfl⟩
  all_goals decide +kernel

theorem recreations_bounded_before_limit_error_stalled :
    ∃ state history turns, ListenerRun stallingNode state history turns ∧
      turns.map (fun turn => (turn.receives, turn.result.outcome)) =
        [(true, .ok .blockProcessingTimeout), (false, .ok .subscriptionRecreated),
          (false, .ok .subscriptionRecreated)] ∧
      turns.countP Iteration.recreates ≤ maxSubscriptionRecreationAttempts := by
  obtain ⟨state, history, turns, runs, unlimited, fresh, outcomes⟩ := stalling_run
  exact ⟨state, history, turns, runs, outcomes,
    recreations_bounded_before_limit_error stallingNode runs fresh unlimited⟩

def slowAnswer : (op : Op sampleConfig) → Resp op
  | .nextBlock => some (some (.ok ⟨50, 50⟩))
  | .streamBlocks => .ok ()
  | op => unavailable op

def slowNode : MinerEnv sampleConfig := ⟨fun _ => slowAnswer, fun _ _ => true⟩

theorem slow_iteration (state : ListenerState) (history : MinerTrace sampleConfig) :
    iteration slowNode state history = ⟨state, .ok .blockProcessingTimeout,
      { state with subscriptionRecreationAttempts := 1 },
      [⟨.nextBlock, some (some (.ok ⟨50, 50⟩))⟩, ⟨.streamBlocks, .ok ()⟩]⟩ := rfl

theorem slow_run (count : Nat) :
    ∃ state history turns, ListenerRun slowNode state history turns ∧ turns.length = count ∧
      ∀ turn ∈ turns, ∃ state history, turn = iteration slowNode state history := by
  induction count with
  | zero => exact ⟨_, _, _, .start, rfl, by simp⟩
  | succ count ih =>
      obtain ⟨state, history, turns, runs, length, slow⟩ := ih
      refine ⟨_, _, _, .turned runs ?_, by simp [length], ?_⟩
      · intro turn member
        obtain ⟨state, history, rfl⟩ := slow turn member
        rfl
      · intro turn member
        rcases List.mem_append.mp member with earlier | last
        · exact slow turn earlier
        · exact ⟨state, history, List.mem_singleton.mp last⟩

/-- Four blocks in a row are received and time out; four times the subscription is recreated
and the limit error is not returned. -/
theorem timed_out_blocks_never_reach_limit :
    ∃ state history turns, ListenerRun slowNode state history turns ∧
      (∀ turn ∈ turns, turn.receives = true ∧
        turn.result.outcome = .ok .blockProcessingTimeout ∧ turn.limited = false) ∧
      maxSubscriptionRecreationAttempts < turns.countP Iteration.recreates := by
  obtain ⟨state, history, turns, runs, length, slow⟩ :=
    slow_run (maxSubscriptionRecreationAttempts + 1)
  refine ⟨state, history, turns, runs, ?_, ?_⟩
  · intro turn member
    obtain ⟨state, history, rfl⟩ := slow turn member
    rw [slow_iteration]
    exact ⟨rfl, rfl, rfl⟩
  · have all : turns.countP Iteration.recreates = turns.length := by
      rw [List.countP_eq_length]
      intro turn member
      obtain ⟨state, history, rfl⟩ := slow turn member
      rfl
    rw [all, length]
    exact Nat.lt_succ_self _

end LeanStakingMiner
