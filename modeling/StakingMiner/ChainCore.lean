import Mathlib.Data.Finset.Sort
import StakingMiner.ProgramCore

/-!
The data of the staking miner and the interface through which it acts: storage reads
at a block, signed transactions, the solver, the task channels and the subscription.
Every operation below is one await or one source of nondeterminism of the source;
its answer type lists what the node, the solver or the runtime can give back.
-/

namespace LeanStakingMiner

open LeanProgram

/-- A client positioned at a finalized block, named by that block's number. -/
abbrev AtBlock := Nat
abbrev Hash := Nat
abbrev AccountId := Nat
abbrev Perbill := Nat
abbrev TxHandle := Nat
abbrev TxInBlock := Nat

def chunksFrom {α : Type} (size : Nat) : Nat → List α → List (List α)
  | 0, _ => []
  | _ + 1, [] => []
  | fuel + 1, first :: rest =>
      (first :: rest).take size :: chunksFrom size fuel ((first :: rest).drop size)

def chunks {α : Type} (size : Nat) (elements : List α) : List (List α) :=
  chunksFrom size elements.length elements

inductive Phase where
  | off
  | signed (blocksRemaining : Nat)
  | signedValidation (blocksRemaining : Nat)
  | unsigned (blocksRemaining : Nat)
  | snapshot (page : Nat)
  | done
  | export (page : Nat)
  | emergency
deriving Repr, DecidableEq

def Phase.isSigned : Phase → Bool
  | .signed _ => true
  | _ => false

def Phase.debug : Phase → String
  | .off => "Off"
  | .signed blocks => s!"Signed({blocks})"
  | .signedValidation blocks => s!"SignedValidation({blocks})"
  | .unsigned blocks => s!"Unsigned({blocks})"
  | .snapshot page => s!"Snapshot({page})"
  | .done => "Done"
  | .export page => s!"Export({page})"
  | .emergency => "Emergency"

structure ElectionScore where
  minimalStake : Nat
  sumStake : Nat
  sumStakeSquared : Nat
deriving Repr, DecidableEq

/-- The variants of `subxt::Error` that the miner's conversions and classifiers name. -/
inductive SubxtError where
  | extrinsicError
  | transactionFinalizedSuccessError
  | transactionProgressError
  | transactionStatusError
  | transactionEventsError
  | otherRpcClientError
  | backendError
  | storageError
  | storageValueError
  | onlineClientAtBlockError
  | blocksError
  | onlineClientError
  | eventsError
  | accountNonceError
  | runtimeApiError
  | constantError
  | storageKeyError
  | other
deriving Repr, DecidableEq

inductive TimeoutError where
  | mining (timeoutSecs : Nat)
  | checkExistingSubmission (timeoutSecs : Nat)
  | bail (timeoutSecs : Nat)
  | submit (timeoutSecs : Nat)
  | phaseCheck (timeoutSecs : Nat)
  | scoreCheck (timeoutSecs : Nat)
  | missingPages (timeoutSecs : Nat)
  | initialConnection (timeoutSecs attempt maxAttempts : Nat)
deriving Repr, DecidableEq

inductive ChannelFailureError where
  | miner
  | eraPruning
  | clearOldRounds
deriving Repr, DecidableEq

inductive TaskFailureError where
  | listener
  | miner
  | eraPruning
  | clearOldRounds
deriving Repr, DecidableEq

inductive Error where
  | logParse
  | io
  | rpc
  | subxt (error : SubxtError)
  | crypto
  | codec
  | accountDoesNotExists
  | invalidChain (chain : String)
  | other (message : String)
  | invalidMetadata (message : String)
  | dynamicTransaction (message : String)
  | feasibility (message : String)
  | join
  | emptySnapshot
  | missingTxEvent (transaction : String)
  | failedToSubmitPages (count : Nat)
  | insufficientSignedPhaseBlocks (blocksRemaining minBlocks : Nat)
  | phaseChangedDuringSubmission (newPhase : String) (round : Nat)
  | solutionValidation (desiredTargets solutionWinnerCount : Nat)
  | wrongPageCount (solutionPages maxPages : Nat)
  | wrongRound (solutionRound currentRound : Nat)
  | scoreBelowMinimum (score minimum : ElectionScore)
  | timeout (error : TimeoutError)
  | subscriptionRecreationLimitExceeded (maxAttempts : Nat)
  | channelFailure (error : ChannelFailureError)
  | taskFailure (error : TaskFailureError)
  | serdeJson
deriving Repr, DecidableEq

/-- What the miner takes from polkadot-sdk: the paged types of the chain at hand, the
comparison of scores and the winner count of a solution. -/
structure MinerConfig where
  Solution : Type
  emptySolution : Solution
  TargetPage : Type
  VoterPage : Type
  winnerCount : List Solution → Nat
  strictThresholdBetter : ElectionScore → ElectionScore → Perbill → Bool
  strictBetter : ElectionScore → ElectionScore → Bool

abbrev sampleConfig : MinerConfig where
  Solution := Nat
  emptySolution := 0
  TargetPage := Nat
  VoterPage := Nat
  winnerCount := List.length
  strictThresholdBetter left right _ := right.minimalStake < left.minimalStake
  strictBetter left right := right.minimalStake < left.minimalStake

variable {T : MinerConfig}

structure PagedRawSolution (T : MinerConfig) where
  solutionPages : List T.Solution
  score : ElectionScore
  round : Nat

structure MineInput (T : MinerConfig) where
  desiredTargets : Nat
  allTargets : T.TargetPage
  voterPages : List T.VoterPage
  pages : Nat
  doReduce : Bool
  round : Nat

inductive MineResult (T : MinerConfig) where
  | mined (solution : PagedRawSolution T)
  | minerError (message : String)
  | infeasible (message : String)
  | joinError (message : String)

inductive Transaction (T : MinerConfig) where
  | registerScore (score : ElectionScore)
  | submitPage (page : Nat) (maybeSolution : Option T.Solution)
  | bail
  | clearOldRoundData (round witnessPages : Nat)
  | pruneEraStep (era : Nat)

inductive ChainEvent where
  | registered (round : Nat) (who : AccountId) (score : ElectionScore)
  | stored (round : Nat) (who : AccountId) (page : Nat)
  | other
deriving Repr, DecidableEq

structure SubmissionMetadata where
  claimedScore : ElectionScore
  pages : List Bool
deriving Repr, DecidableEq

structure BlockDetails where
  atBlock : AtBlock
  phase : Phase
  nPages : Nat
  round : Nat
  desiredTargets : Nat
  blockNumber : Nat
deriving Repr, DecidableEq

inductive MinerMessage where
  | processBlock (state : BlockDetails)
  | clearSnapshots
deriving Repr, DecidableEq

inductive EraPruningMessage where
  | enterOffPhase
  | exitOffPhase
  | newBlock (blockNumber : Nat)
deriving Repr, DecidableEq

inductive TrySend where
  | sent
  | full
  | closed
deriving Repr, DecidableEq

structure Header where
  number : Nat
  hash : Hash
deriving Repr, DecidableEq

inductive Metric where
  | submissionStarted
  | submissionSuccess
  | submissionSkippedNotCompetitive
  | eraPruningSubmissionSuccess
  | eraPruningSubmissionFailure
deriving Repr, DecidableEq

/-- Which code reads the phase: the checks that validate it, the page loop that only
wants the remaining blocks for the mortality of the next transaction, or the listener. -/
inductive PhaseReader where
  | validation
  | mortality
  | listener
deriving Repr, DecidableEq

inductive Op (T : MinerConfig) where
  | storageAtHead
  | storageAt (hash : Hash)
  | atCurrentBlock
  | currentPhase (reader : PhaseReader) (storage : AtBlock)
  | round (storage : AtBlock)
  | desiredTargets (storage : AtBlock) (round : Nat)
  | account (storage : AtBlock)
  | submissionMetadata (storage : AtBlock) (round : Nat)
  | minimumScore (storage : AtBlock)
  | sortedScores (storage : AtBlock) (round : Nat)
  | voterSnapshotHash (storage : AtBlock) (round page : Nat)
  | voterSnapshot (storage : AtBlock) (round page : Nat)
  | targetSnapshotHash (storage : AtBlock) (round page : Nat)
  | targetSnapshot (storage : AtBlock) (round page : Nat)
  | eraPruningState (storage : AtBlock)
  | accountNonce
  | createSigned (transaction : Transaction T) (nonce : Nat)
  | submitAndWatch (transaction : Transaction T) (nonce : Nat) (mortality : Option Nat)
  | waitForFinalized (tx : TxHandle)
  | nextFinalized (pending : List (Nat × TxHandle))
  | waitForSuccess (tx : TxInBlock)
  | mineSolution (input : MineInput T)
  | sleep (milliseconds : Nat)
  | pages
  | hashSetIter (set : Finset Nat)
  | metric (metric : Metric)
  | submitCalled (solution : PagedRawSolution T)
  | pruneEntered (era : Nat)
  | pruneLeft
  | nextBlock
  | streamBlocks
  | reconnect
  | phaseObserved (last : Option Phase) (current : Phase)
  | minerTrySend (message : MinerMessage)
  | minerSend (message : MinerMessage)
  | minerRecv
  | clearOldRoundsTrySend (currentRound : Nat)
  | clearOldRoundsRecv
  | eraPruningSend (message : EraPruningMessage)
  | eraPruningTrySend (message : EraPruningMessage)
  | eraPruningRecv

abbrev Read (α : Type) := Except SubxtError α

/-- The answer to an operation. A stored page may be absent or fail to decode; a stream
item is a block, an error with the reconnecting flag, the end of the stream (`some none`),
or nothing within the subscription timeout (`none`). The eras being pruned can fail to be
listed at once or on the way. -/
abbrev Resp : Op T → Type
  | .storageAtHead | .storageAt _ | .atCurrentBlock => Read AtBlock
  | .currentPhase _ _ => Read (Option Phase)
  | .round _ => Read Nat
  | .desiredTargets _ _ => Read (Option Nat)
  | .account _ => Read (Option Nat)
  | .submissionMetadata _ _ => Read (Option SubmissionMetadata)
  | .minimumScore _ => Read (Option ElectionScore)
  | .sortedScores _ _ => Read (List (AccountId × ElectionScore))
  | .voterSnapshotHash _ _ _ | .targetSnapshotHash _ _ _ => Read (Option (Option Hash))
  | .voterSnapshot _ _ _ => Read (Option (Option T.VoterPage))
  | .targetSnapshot _ _ _ => Read (Option (Option T.TargetPage))
  | .eraPruningState _ => Read (Read (List Nat))
  | .accountNonce => Read Nat
  | .createSigned _ _ => Read Unit
  | .submitAndWatch _ _ _ => Read TxHandle
  | .waitForFinalized _ => Read TxInBlock
  | .nextFinalized _ => Nat × Read TxInBlock
  | .waitForSuccess _ => Read (List (Read ChainEvent))
  | .mineSolution _ => MineResult T
  | .pages => Nat
  | .hashSetIter set => { order : List Nat // order.Nodup ∧ ∀ page, page ∈ order ↔ page ∈ set }
  | .nextBlock => Option (Option (Except (SubxtError × Bool) Header))
  | .streamBlocks => Read Unit
  | .reconnect => Except Error Unit
  | .minerTrySend _ | .clearOldRoundsTrySend _ => TrySend
  | .minerSend _ | .eraPruningSend _ => Bool
  | .eraPruningTrySend _ => TrySend
  | .minerRecv => Option MinerMessage
  | .clearOldRoundsRecv => Option Nat
  | .eraPruningRecv => Option EraPruningMessage
  | .sleep _ | .metric _ | .submitCalled _ | .pruneEntered _ | .pruneLeft
  | .phaseObserved _ _ => Unit

def Op.suspends : Op T → Suspension
  | .pages | .hashSetIter _ | .metric _ | .submitCalled _ | .pruneEntered _
  | .pruneLeft | .phaseObserved _ _ | .minerTrySend _ | .clearOldRoundsTrySend _
  | .eraPruningTrySend _ => .never
  | .minerSend _ | .minerRecv | .clearOldRoundsRecv | .eraPruningSend _ | .eraPruningRecv
  | .sleep _ => .untilEffect
  | _ => .untilAnswer

abbrev Miner (T : MinerConfig) (σ : Type) (α : Type) : Type :=
  Program σ Error (Op T) Resp α

abbrev Task (T : MinerConfig) (α : Type) : Type := Miner T Unit α

abbrev MinerTrace (T : MinerConfig) : Type := Trace (Op T) Resp

abbrev MinerEnv (T : MinerConfig) : Type := Environment (Op T) Resp

def ask {σ : Type} (op : Op T) : Miner T σ (Resp op) := Program.perform op

def rpc {σ α : Type} (answer : Read α) : Miner T σ α :=
  Program.ofExcept (answer.mapError Error.subxt)

def tokioTimeout {σ α : Type} (future : Miner T σ α) : Miner T σ (Option (Except Error α)) :=
  future.timeout Op.suspends

def unavailable : (op : Op T) → Resp op
  | .storageAtHead | .storageAt _ | .atCurrentBlock => .error .backendError
  | .currentPhase _ _ | .round _ | .desiredTargets _ _ | .account _ => .error .backendError
  | .submissionMetadata _ _ | .minimumScore _ | .sortedScores _ _ => .error .backendError
  | .voterSnapshotHash _ _ _ | .targetSnapshotHash _ _ _ => .error .backendError
  | .voterSnapshot _ _ _ | .targetSnapshot _ _ _ => .error .backendError
  | .eraPruningState _ | .accountNonce | .createSigned _ _ => .error .backendError
  | .submitAndWatch _ _ _ | .waitForFinalized _ => .error .backendError
  | .nextFinalized _ => (0, .error .backendError)
  | .waitForSuccess _ => .error .backendError
  | .mineSolution _ => .minerError ""
  | .pages => 0
  | .hashSetIter set => ⟨set.sort (· ≤ ·), set.sort_nodup _, fun _ => set.mem_sort _⟩
  | .nextBlock => none
  | .streamBlocks => .error .backendError
  | .reconnect => .error .rpc
  | .minerTrySend _ | .clearOldRoundsTrySend _ | .eraPruningTrySend _ => .full
  | .minerSend _ | .eraPruningSend _ => true
  | .minerRecv | .clearOldRoundsRecv | .eraPruningRecv => none
  | .sleep _ | .metric _ | .submitCalled _ | .pruneEntered _ | .pruneLeft
  | .phaseObserved _ _ => ()

end LeanStakingMiner
