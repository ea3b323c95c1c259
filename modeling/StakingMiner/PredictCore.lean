import StakingMiner.PredictionCore
import StakingMiner.SnapshotCore

/-!
Executable model of `commands/predict.rs`, of the fetching half of
`dynamic/election_data.rs`, and of `mine_solution` as a prediction calls it.
-/

namespace LeanStakingMiner

open LeanProgram LeanPaging

inductive ElectionAlgorithm where
  | seqPhragmen
  | phragmms
deriving Repr, DecidableEq

inductive OverridesConfig where
  | path (path : String)
  | data (overrides : ElectionOverrides)
deriving Repr, DecidableEq

structure PredictConfig where
  desiredValidators : Option Nat
  balancingIterations : Nat
  doReduce : Bool
  blockNumber : Option Nat
  overrides : Option OverridesConfig
  algorithm : ElectionAlgorithm
deriving Repr, DecidableEq

abbrev Bytes : Type := List UInt8

/-- The chain at hand, with what a prediction takes from elsewhere: reading a request body, the
feasibility check of the miner and the text of an address. -/
structure PredictChain where
  Account : Type
  Solution : Type
  order : LinearOrder Account
  libraries : Libraries Account
  parseConfig : Bytes → Option PredictConfig
  checkFeasibility : (bounds : ElectionBounds) → Solution →
    BoundedVec (VoterSnapshotPage Account bounds) bounds.pages →
    TargetSnapshotPage Account bounds → Nat → Except String (List (PageSupports Account))
  score : Solution → ElectionScore
  encodeAccountId : Account → Nat → String

instance (C : PredictChain) : LinearOrder C.Account := C.order

def PredictChain.printing (C : PredictChain) (timestamp : String) :
    PredictionLibraries C.Account C.Solution :=
  ⟨C.checkFeasibility, C.score, C.encodeAccountId, timestamp⟩

structure MiningInput (C : PredictChain) (bounds : ElectionBounds) where
  desiredTargets : Nat
  allTargets : TargetSnapshotPage C.Account bounds
  voterPages : BoundedVec (VoterSnapshotPage C.Account bounds) bounds.pages
  pages : Nat
  doReduce : Bool
  round : Nat

inductive MiningOutcome (Solution : Type) where
  | mined (solution : Solution)
  | minerError (message : String)
  | infeasible (message : String)
  | joinError (message : String)

def MiningOutcome.result {Solution : Type} : MiningOutcome Solution → Except Error Solution
  | .mined solution => .ok solution
  | .minerError message | .joinError message => .error (.other message)
  | .infeasible message => .error (.feasibility message)

structure SimulateRunParameters where
  blockNumber : Nat
  desiredValidators : Nat
  balancingIterations : Nat
  doReduce : Bool
  algorithm : ElectionAlgorithm
  overrides : Option OverridesConfig
deriving Repr, DecidableEq

structure SnapshotNominator where
  account : String
  stake : String
  targets : List String
deriving Repr, DecidableEq

structure SnapshotConfig where
  blockNumber : Nat
  round : Nat
  dataSource : ElectionDataSource
deriving Repr, DecidableEq

structure SnapshotResult where
  validators : List String
  nominators : List SnapshotNominator
  config : SnapshotConfig
deriving Repr, DecidableEq

inductive Response where
  | simulated (runParameters : SimulateRunParameters) (prediction : Prediction)
  | snapshot (result : SnapshotResult)
  | error (status : Nat) (message : String)

structure ChainProperties where
  tokenSymbol : Option String
  tokenDecimals : Option Nat
deriving Repr, DecidableEq

inductive BodyError where
  | lengthLimit
  | other
deriving Repr, DecidableEq

/-- Where only the text of a failure is used, the failed call answers with that text. -/
inductive ServerOp (C : PredictChain) where
  | atCurrentBlock
  | blockNumber (atBlock : AtBlock)
  | latestBlockNumber
  | blockHash (number : Nat)
  | storageAt (hash : Hash)
  | updateMetadataConstants (atBlock : AtBlock)
  | setBalancingIterations (iterations : Nat)
  | setAlgorithm (algorithm : ElectionAlgorithm)
  | pages
  | bounds
  | round (storage : AtBlock)
  | storedRound (storage : AtBlock)
  | ss58Prefix (atBlock : AtBlock)
  | validatorCount (storage : AtBlock)
  | targetSnapshot (bounds : ElectionBounds) (storage : AtBlock) (round page : Nat)
  | voterSnapshot (bounds : ElectionBounds) (storage : AtBlock) (round page : Nat)
  | fetchCandidates (storage : AtBlock)
  | fetchVoters (limit : Nat) (storage : AtBlock)
  | readJsonFile (path : String)
  | spawnMining (bounds : ElectionBounds) (input : MiningInput C bounds)
  | joinMining (handle : Nat)
  | rpcClient
  | systemProperties
  -- the seconds since the epoch, which the clock may be before
  | systemTime
  | collectBody
  | tryAcquirePermit
  | releasePermit
  | respond (response : Response)

variable {C : PredictChain}

abbrev ServerResp : ServerOp C → Type
  | .atCurrentBlock => Read AtBlock
  | .blockNumber _ => Nat
  | .latestBlockNumber => Except String Nat
  | .blockHash _ => Except Error Hash
  | .storageAt _ => Read AtBlock
  | .updateMetadataConstants _ => Except Error Unit
  | .pages => Nat
  | .bounds => ElectionBounds
  | .round _ => Read Nat
  | .ss58Prefix _ => Except Error Nat
  | .storedRound _ => Read (Option Nat)
  | .validatorCount _ => Except String (Option (Except String Nat))
  | .targetSnapshot bounds _ _ _ =>
      Read (Option (Option (TargetSnapshotPage C.Account bounds)))
  | .voterSnapshot bounds _ _ _ => Read (Option (Option (VoterSnapshotPage C.Account bounds)))
  | .fetchCandidates _ => Except String (List (ValidatorData C.Account))
  | .fetchVoters _ _ => Except String (List (NominatorData C.Account))
  | .readJsonFile _ => Except Error ElectionOverrides
  | .spawnMining _ _ => Nat
  | .joinMining _ => MiningOutcome C.Solution
  | .rpcClient => Read Unit
  | .systemProperties => Except String ChainProperties
  | .systemTime => Option Nat
  | .collectBody => Except BodyError Bytes
  | .tryAcquirePermit => Bool
  | .setBalancingIterations _ | .setAlgorithm _ | .releasePermit | .respond _ => Unit

def ServerOp.suspends : ServerOp C → Suspension
  | .updateMetadataConstants _ | .setBalancingIterations _ | .setAlgorithm _ => .never
  | .blockNumber _ | .pages | .bounds | .readJsonFile _ | .spawnMining _ _ => .never
  | .ss58Prefix _ | .systemTime => .never
  | .tryAcquirePermit | .releasePermit | .respond _ => .never
  | .joinMining _ => .untilEffect
  | _ => .untilAnswer

abbrev ServerTask (C : PredictChain) (α : Type) : Type :=
  Program Unit Error (ServerOp C) ServerResp α

def serve (op : ServerOp C) : ServerTask C (ServerResp op) := Program.perform op

def serverTimeout {α : Type} (future : ServerTask C α) : ServerTask C (Option (Except Error α)) :=
  future.timeout ServerOp.suspends

def orFail {ε α : Type} (convert : ε → Error) (answer : Except ε α) : ServerTask C α :=
  Program.ofExcept (answer.mapError convert)

def decodedPage {α : Type} : Option (Option α) → ServerTask C α
  | none => Program.fail .emptySnapshot
  | some none => Program.fail .codec
  | some (some page) => pure page

section Fetch

variable (bounds : ElectionBounds) (nPages currentRound : Nat) (storage : AtBlock)

def fetchTargetPage (page : Nat) : ServerTask C (TargetSnapshotPage C.Account bounds) := do
  let value ← orFail .subxt (← serve (.targetSnapshot bounds storage currentRound page))
  decodedPage value

def fetchVoterPage (page : Nat) : ServerTask C (VoterSnapshotPage C.Account bounds) := do
  let value ← orFail .subxt (← serve (.voterSnapshot bounds storage currentRound page))
  decodedPage value

def fetchAllVoterPages : List Nat → ServerTask C (List (VoterSnapshotPage C.Account bounds))
  | [] => pure []
  | page :: rest => do
      let voterPage ← fetchVoterPage bounds currentRound storage page
      let voterPages ← fetchAllVoterPages rest
      pure (voterPage :: voterPages)

def tryFetchSnapshot : ServerTask C (TargetSnapshotPage C.Account bounds ×
    BoundedVec (VoterSnapshotPage C.Account bounds) bounds.pages) := do
  let chainPages := bounds.pages
  if nPages ≠ chainPages then Program.fail (.other s!"n_pages must be equal to {chainPages}")
  else do
    let target ← fetchTargetPage bounds currentRound storage (lastPage nPages)
    let voterPages ← fetchAllVoterPages bounds currentRound storage (List.range nPages)
    pure (target, .truncateFrom _ voterPages)

/-- The snapshot as raw data, or candidates and voters from the staking pallet if it cannot
be fetched. The limit is a `u32` product. -/
def getElectionData : ServerTask C (List (ValidatorData C.Account) ×
    List (NominatorData C.Account) × ElectionDataSource) := do
  match ← (tryFetchSnapshot bounds nPages currentRound storage).attempt with
  | .ok (targetSnapshot, voterPages) =>
      let candidates := targetSnapshot.items.map fun account => (account, 0)
      let voters := voterPages.items.flatMap fun page =>
        page.items.map fun voter => (voter.1, voter.2.1, voter.2.2.items)
      pure (candidates, voters, .snapshot)
  | .error _ => do
      let candidates ← orFail (fun e : String => .other s!"Failed to fetch candidates: {e}")
        (← serve (.fetchCandidates storage))
      let voterLimit := bounds.pages * bounds.voterSnapshotPerBlock % 2 ^ 32
      let voters ← orFail (fun e : String => .other s!"Failed to fetch voters: {e}")
        (← serve (.fetchVoters voterLimit storage))
      pure (candidates, voters, .staking)

def loadOverrides : OverridesConfig → ServerTask C ElectionOverrides
  | .path path => do orFail id (← serve (.readJsonFile path))
  | .data overrides => pure overrides

def fetchSnapshots (overrides : Option OverridesConfig) :
    ServerTask C (TargetSnapshotPage C.Account bounds ×
      List (VoterSnapshotPage C.Account bounds) × ElectionDataSource) := do
  let (candidates, nominators, dataSource) ← getElectionData bounds nPages currentRound storage
  let (candidates, nominators) ← (match overrides with
    | some config => do
        let overrides ← loadOverrides config
        orFail id (applyOverrides C.libraries candidates nominators overrides)
    | none => pure (candidates, nominators) : ServerTask C _)
  let (targetSnapshot, voterSnapshot) ← orFail id
    (convertElectionDataToSnapshots C.libraries bounds candidates nominators dataSource)
  pure (targetSnapshot, voterSnapshot, dataSource)

end Fetch

def Predict.mineSolution (bounds : ElectionBounds)
    (targetSnapshot : TargetSnapshotPage C.Account bounds)
    (voterSnapshot : List (VoterSnapshotPage C.Account bounds))
    (nPages round desiredTargets : Nat) (doReduce : Bool) : ServerTask C C.Solution := do
  let handle ← serve (.spawnMining bounds
    ⟨desiredTargets, targetSnapshot, .truncateFrom _ voterSnapshot, nPages, doReduce, round⟩)
  let outcome ← serve (.joinMining handle)
  orFail id outcome.result

def miningTimeoutSecs : Nat := 600

def desiredTargets (config : PredictConfig) (storage : AtBlock) : ServerTask C Nat :=
  match config.desiredValidators with
  | some targets => pure targets
  | none => do
      let fetched ← orFail
        (fun e : String => .other s!"Failed to fetch Desired Targets from chain: {e}")
        (← serve (.validatorCount storage))
      match fetched with
      | none => Program.fail (.other "Desired validators not found in chain storage")
      | some decoded =>
          orFail (fun e : String => .other s!"Failed to decode Desired Targets: {e}") decoded

/-- The block number the prediction reports and the block it reads; without a requested
number these are two separate reads of the current block. -/
def chosenBlock (config : PredictConfig) : ServerTask C (Nat × AtBlock) :=
  match config.blockNumber with
  | some number => do
      let hash ← orFail id (← serve (.blockHash number))
      let atBlock ← orFail .subxt (← serve (.storageAt hash))
      pure (number, atBlock)
  | none => do
      let number ← orFail (fun e : String => .other s!"Failed to fetch latest block number: {e}")
        (← serve .latestBlockNumber)
      let atBlock ← orFail .subxt (← serve .atCurrentBlock)
      pure (number, atBlock)

structure Mined (C : PredictChain) where
  bounds : ElectionBounds
  targetSnapshot : TargetSnapshotPage C.Account bounds
  voterSnapshot : List (VoterSnapshotPage C.Account bounds)
  solution : C.Solution

def minePrediction (config : PredictConfig) (nPages currentRound desired : Nat)
    (atBlock : AtBlock) : ServerTask C (Mined C × ElectionDataSource) := do
  let bounds ← serve .bounds
  let (targetSnapshot, voterSnapshot, dataSource) ←
    fetchSnapshots bounds nPages currentRound atBlock config.overrides
  let minedPages := max nPages voterSnapshot.length
  match ← serverTimeout (Predict.mineSolution bounds targetSnapshot voterSnapshot minedPages
      currentRound desired config.doReduce) with
  | some (.ok solution) => pure (⟨bounds, targetSnapshot, voterSnapshot, solution⟩, dataSource)
  | some (.error error) => Program.fail error
  | none => Program.fail (.timeout (.mining miningTimeoutSecs))

def configureSolver (config : PredictConfig) : ServerTask C Unit := do
  let current ← orFail .subxt (← serve .atCurrentBlock)
  orFail id (← serve (.updateMetadataConstants current))
  serve (.setBalancingIterations config.balancingIterations)
  serve (.setAlgorithm config.algorithm)

def getSs58Prefix : ServerTask C Nat := do
  let atBlock ← orFail .subxt (← serve .atCurrentBlock)
  match ← serve (.ss58Prefix atBlock) with
  | .ok ss58Prefix => pure ss58Prefix
  | .error _ => pure 0

def getChainProperties : ServerTask C (Nat × Nat × String) := do
  orFail .subxt (← serve .rpcClient)
  let response ← orFail (fun e : String => .other s!"Failed to call system_properties RPC: {e}")
    (← serve .systemProperties)
  let decimals := response.tokenDecimals.getD 10
  let symbol := response.tokenSymbol.getD "UNIT"
  let ss58Prefix ← getSs58Prefix
  pure (ss58Prefix, decimals, symbol)

def timestampText (seconds : Option Nat) : String := (seconds.map toString).getD "0"

/-- The clock is read before the predictions are built, which nothing else depends on. -/
def runPrediction (config : PredictConfig) : ServerTask C Prediction := do
  configureSolver config
  let nPages ← serve .pages
  let (blockNumber, atBlock) ← chosenBlock config
  let currentRound ← orFail .subxt (← serve (.round atBlock))
  let desired ← desiredTargets config atBlock
  let (mined, dataSource) ← minePrediction config nPages currentRound desired atBlock
  let (ss58Prefix, tokenDecimals, tokenSymbol) ← getChainProperties
  let context : PredictionContext :=
    ⟨currentRound, desired, blockNumber, ss58Prefix, tokenDecimals, tokenSymbol, dataSource⟩
  let seconds ← serve .systemTime
  Program.ofOutcome (buildPredictionsFromSolution (C.printing (timestampText seconds)) context
    mined.bounds mined.solution mined.targetSnapshot mined.voterSnapshot)

abbrev samplePredictChain : PredictChain where
  Account := Nat
  Solution := Nat
  order := inferInstance
  libraries := sampleLibraries
  parseConfig body := body.head?.map fun iterations =>
    ⟨some 1, iterations.toNat, false, none, none, .phragmms⟩
  checkFeasibility _ _ _ _ _ := .ok []
  score solution := ⟨solution, 0, 0⟩
  encodeAccountId account _ := toString account

def offline : (op : ServerOp C) → ServerResp op
  | .atCurrentBlock | .storageAt _ | .round _ | .storedRound _ => .error .backendError
  | .rpcClient => .error .backendError
  | .targetSnapshot _ _ _ _ | .voterSnapshot _ _ _ _ => .error .backendError
  | .latestBlockNumber | .validatorCount _ | .fetchCandidates _ | .fetchVoters _ _ => .error ""
  | .blockHash _ | .updateMetadataConstants _ | .readJsonFile _ => .error .rpc
  | .ss58Prefix _ => .error .rpc
  | .systemProperties => .error ""
  | .systemTime => none
  | .blockNumber _ | .pages | .spawnMining _ _ => 0
  | .bounds => ⟨0, 0, 0, 0⟩
  | .joinMining _ => .joinError ""
  | .collectBody => .error .other
  | .tryAcquirePermit => false
  | .setBalancingIterations _ | .setAlgorithm _ | .releasePermit | .respond _ => ()

end LeanStakingMiner
