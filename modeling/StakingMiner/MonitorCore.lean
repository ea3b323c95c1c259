import StakingMiner.JanitorCore
import StakingMiner.ListenerCore
import StakingMiner.ProcessCore

/-!
The process started by `monitor_cmd`: four tasks, the three channels of capacity one that
the listener sends on, and the account's transactions on their way into the chain.
-/

namespace LeanStakingMiner

open LeanProgram

variable {T : MinerConfig}

inductive MonitorTask where
  | listener
  | miner
  | clearOldRounds
  | eraPruning
deriving Repr, DecidableEq

/-- What the tasks share. `inFlight` holds the nonces of the account's transactions that
were submitted and are neither finalized nor dropped. -/
structure MonitorWorld where
  minerChannel : Option MinerMessage
  clearOldRoundsChannel : Option Nat
  eraPruningChannel : Option EraPruningMessage
  finalizedNonce : Nat
  inFlight : List Nat
deriving Repr, DecidableEq

def Op.owner : Op T → Option MonitorTask
  | .nextBlock | .phaseObserved _ _ | .minerSend _ | .minerTrySend _ | .clearOldRoundsTrySend _
  | .eraPruningSend _ | .eraPruningTrySend _ => some .listener
  | .minerRecv => some .miner
  | .clearOldRoundsRecv => some .clearOldRounds
  | .eraPruningRecv | .pruneEntered _ | .pruneLeft => some .eraPruning
  | _ => none

/-- A message can be sent when the channel has room and is received once. The nonce read
is the one at the finalized block. Every other answer is up to the node. -/
def MonitorWorld.offers (world : MonitorWorld) : (op : Op T) → Resp op → Prop
  | .accountNonce, .ok nonce => nonce = world.finalizedNonce
  | .minerSend _, true | .minerTrySend _, .sent => world.minerChannel = none
  | .minerTrySend _, .full => world.minerChannel ≠ none
  | .minerRecv, some message => world.minerChannel = some message
  | .clearOldRoundsTrySend _, .sent => world.clearOldRoundsChannel = none
  | .clearOldRoundsTrySend _, .full => world.clearOldRoundsChannel ≠ none
  | .clearOldRoundsRecv, some round => world.clearOldRoundsChannel = some round
  | .eraPruningSend _, true | .eraPruningTrySend _, .sent => world.eraPruningChannel = none
  | .eraPruningTrySend _, .full => world.eraPruningChannel ≠ none
  | .eraPruningRecv, some message => world.eraPruningChannel = some message
  | _, _ => True

/-- A transaction is in flight as soon as it was submitted, also when the answer is an
error; one that never reached the node is dropped by a later change of the world. -/
def MonitorWorld.next (world : MonitorWorld) : (op : Op T) → Resp op → MonitorWorld
  | .submitAndWatch _ nonce _, _ => { world with inFlight := world.inFlight ++ [nonce] }
  | .minerSend message, true | .minerTrySend message, .sent =>
      { world with minerChannel := some message }
  | .minerRecv, some _ => { world with minerChannel := none }
  | .clearOldRoundsTrySend round, .sent => { world with clearOldRoundsChannel := some round }
  | .clearOldRoundsRecv, some _ => { world with clearOldRoundsChannel := none }
  | .eraPruningSend message, true | .eraPruningTrySend message, .sent =>
      { world with eraPruningChannel := some message }
  | .eraPruningRecv, some _ => { world with eraPruningChannel := none }
  | _, _ => world

/-- Chain progress: the transaction with the account's next nonce is finalized, or any
transaction in flight is dropped. -/
inductive MonitorWorld.Evolves (world : MonitorWorld) : MonitorWorld → Prop
  | finalized : world.finalizedNonce ∈ world.inFlight → Evolves world
      { world with
        inFlight := world.inFlight.erase world.finalizedNonce
        finalizedNonce := world.finalizedNonce + 1 }
  | dropped (nonce : Nat) : nonce ∈ world.inFlight → Evolves world
      { world with inFlight := world.inFlight.erase nonce }

def monitor (config : ProcessConfig) : Process MonitorTask (Op T) Resp where
  World := MonitorWorld
  Failure := Error
  Store
    | .listener => ListenerState
    | .miner => MinerState T
    | .clearOldRounds => Option Nat
    | .eraPruning => Bool
  turn
    | .listener => listenerTurn
    | .miner => minerTurn config
    | .clearOldRounds => clearOldRoundsTurn
    | .eraPruning => lazyEraPruningTurn
  possible world task op answer := op.owner.all (· = task) = true ∧ world.offers op answer
  next := MonitorWorld.next
  evolves := MonitorWorld.Evolves

abbrev MonitorState (T : MinerConfig) (config : ProcessConfig) : Type :=
  (monitor config : Process MonitorTask (Op T) Resp).State

abbrev MonitorEvent (T : MinerConfig) : Type := MonitorTask × Event (Op T) Resp

/-- All tasks have been spawned: the channels are empty, the listener is about to
subscribe and the other tasks wait for their first message. -/
def monitorStart (config : ProcessConfig) (pages nonce : Nat) : MonitorState T config where
  world := ⟨none, none, none, nonce, []⟩
  thread
    | .listener => ⟨ListenerState.initial, do rpc (← ask .streamBlocks)⟩
    | .miner => ⟨MinerState.initial pages, minerTurn config⟩
    | .clearOldRounds => ⟨none, clearOldRoundsTurn⟩
    | .eraPruning => ⟨false, lazyEraPruningTurn⟩
  log := []

def servesBlock (header : Header) (phase : Phase) (round nonce : Nat)
    (message : EraPruningMessage) : (op : Op sampleConfig) → Resp op
  | .streamBlocks => .ok ()
  | .nextBlock => some (some (.ok header))
  | .storageAt _ | .storageAtHead | .atCurrentBlock => .ok header.number
  | .currentPhase _ _ => .ok (some phase)
  | .round _ => .ok round
  | .desiredTargets _ _ => .ok (some 2)
  | .submissionMetadata _ _ => .ok (some ⟨⟨1, 1, 1⟩, [true]⟩)
  | .eraPruningState _ => .ok (.ok [3])
  | .accountNonce => .ok nonce
  | .createSigned _ _ => .ok ()
  | .submitAndWatch _ _ _ => .ok 0
  | .minerTrySend _ | .clearOldRoundsTrySend _ | .eraPruningTrySend _ => .sent
  | .clearOldRoundsRecv => some round
  | .eraPruningRecv => some message
  | op => unavailable op

end LeanStakingMiner
