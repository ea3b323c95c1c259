import StakingMiner.ChainCore

/-!
Executable model of the listener task of `commands/multi_block/monitor.rs`: following the
finalized blocks, informing the other tasks and recreating a stalled subscription.
-/

namespace LeanStakingMiner

open LeanProgram

variable {T : MinerConfig}

structure ListenerState where
  prevRound : Option Nat
  prevPhase : Option Phase
  subscriptionRecreationAttempts : Nat
deriving Repr, DecidableEq

def ListenerState.initial : ListenerState := ⟨none, none, 0⟩

inductive ListenerAction where
  | goOn
  | subscriptionRecreated
  | blockProcessingTimeout
deriving Repr, DecidableEq

def maxSubscriptionRecreationAttempts : Nat := 3

/-- When the failover itself fails, the error of the first attempt is returned. -/
def recreateSubscriptionWithFailover : Task T Unit := do
  match ← ask .streamBlocks with
  | .ok () => pure ()
  | .error error =>
      match ← ask .reconnect with
      | .error _ => Program.fail (.subxt error)
      | .ok () => rpc (← ask .streamBlocks)

def getBlockState (blockHash : Hash) : Task T (Phase × Nat) := do
  let atBlock ← rpc (← ask (.storageAt blockHash))
  let phase ← rpc (← ask (.currentPhase .listener atBlock))
  let currentRound ← rpc (← ask (.round atBlock))
  pure (phase.getD .off, currentRound)

def onRoundIncrement (currentRound : Nat) (phase : Phase) : Task T Unit := do
  match ← ask (.clearOldRoundsTrySend currentRound) with
  | .closed => Program.fail (.channelFailure .clearOldRounds)
  | .sent | .full =>
      if phase = .off then do
        let sent ← ask (.minerSend .clearSnapshots)
        if sent then pure ()
        else Program.fail (.other "Failed to send clear snapshots signal: channel closed")
      else pure ()

def checkRoundIncrement (lastRound : Option Nat) (currentRound : Nat) (phase : Phase) :
    Task T Unit :=
  if lastRound.any (· < currentRound) then onRoundIncrement currentRound phase else pure ()

def signalEraPruning (message : EraPruningMessage) : Task T Unit := do
  let sent ← ask (.eraPruningSend message)
  if sent then pure () else Program.fail (.channelFailure .eraPruning)

def startEraPruning (lastPhase : Option Phase) : Task T Unit :=
  if lastPhase = some .off then pure () else signalEraPruning .enterOffPhase

def stopEraPruning (lastPhase : Option Phase) : Task T Unit :=
  if lastPhase = some .off then signalEraPruning .exitOffPhase else pure ()

def onOffPhase (lastPhase : Option Phase) (header : Header) : Task T ListenerAction := do
  startEraPruning lastPhase
  let _ ← ask (.eraPruningTrySend (.newBlock header.number))
  pure .goOn

def newBlockDetails (header : Header) (phase : Phase) (round : Nat) : Task T BlockDetails := do
  let atBlock ← rpc (← ask (.storageAt header.hash))
  let desiredTargets ← rpc (← ask (.desiredTargets atBlock round))
  let nPages ← ask .pages
  pure ⟨atBlock, phase, nPages, round, desiredTargets.getD 0, header.number⟩

def onMiningPhase (lastPhase : Option Phase) (header : Header) (phase : Phase) (round : Nat) :
    Task T ListenerAction := do
  stopEraPruning lastPhase
  let state ← newBlockDetails header phase round
  match ← ask (.minerTrySend (.processBlock state)) with
  | .closed => Program.fail (.channelFailure .miner)
  | .sent | .full => pure .goOn

def replaceRound (currentRound : Nat) : Miner T ListenerState (Option Nat) := do
  let state ← Program.load
  Program.modify fun state => { state with prevRound := some currentRound }
  pure state.prevRound

def replacePhase (phase : Phase) : Miner T ListenerState (Option Phase) := do
  let state ← Program.load
  Program.modify fun state => { state with prevPhase := some phase }
  pure state.prevPhase

def processBlockInternal (header : Header) : Miner T ListenerState ListenerAction := do
  let (phase, currentRound) ← (getBlockState header.hash).lift
  let lastRound ← replaceRound currentRound
  (checkRoundIncrement lastRound currentRound phase).lift
  let lastPhase ← replacePhase phase
  ask (.phaseObserved lastPhase phase)
  match phase with
  | .off => (onOffPhase lastPhase header).lift
  | .signed _ | .snapshot _ => (onMiningPhase lastPhase header phase currentRound).lift
  | _ => pure .goOn

def recreateSubscription (action : ListenerAction) : Miner T ListenerState ListenerAction := do
  Program.modify fun state => { state with
    subscriptionRecreationAttempts := state.subscriptionRecreationAttempts + 1 }
  let state ← Program.load
  if maxSubscriptionRecreationAttempts < state.subscriptionRecreationAttempts then
    Program.fail (.subscriptionRecreationLimitExceeded maxSubscriptionRecreationAttempts)
  else do
    recreateSubscriptionWithFailover.lift
    pure action

def processListenerIteration : Miner T ListenerState ListenerAction := do
  match ← ask .nextBlock with
  | some (some (.ok header)) => do
      Program.modify fun state => { state with subscriptionRecreationAttempts := 0 }
      match ← tokioTimeout (processBlockInternal header) with
      | some result => Program.ofExcept result
      | none => recreateSubscription .blockProcessingTimeout
  | some (some (.error (error, willReconnect))) =>
      if willReconnect then pure .goOn else Program.fail (.subxt error)
  | some none | none => recreateSubscription .subscriptionRecreated

def isCriticalListenerError : Error → Bool
  | .channelFailure _ | .taskFailure _ => true
  | .other message => "Subscription terminated".toList <:+: message.toList
  | _ => false

/-- One pass of the loop of `listener_task`; a failure is the task's return. -/
def listenerTurn : Miner T ListenerState Unit := do
  match ← processListenerIteration.attempt with
  | .ok _ => pure ()
  | .error error =>
      if isCriticalListenerError error then Program.fail error else ask (.sleep 100)

def listenerLoop : Nat → Miner T ListenerState Unit
  | 0 => pure ()
  | turns + 1 => do
      listenerTurn
      listenerLoop turns

end LeanStakingMiner
