import StakingMiner.PredictCore
import StakingMiner.ProcessCore

/-!
Executable model of `commands/server.rs`: the routes of the REST API, and the server as a
process of concurrent requests around the prediction permit, the process-wide parameters of
the solver and the mining computations on the blocking pool.
-/

namespace LeanStakingMiner

open LeanProgram LeanPaging

variable {C : PredictChain}

def maxConcurrentPredictions : Nat := 1

def fetchSnapshotData (blockNumber : Option Nat) : ServerTask C SnapshotResult := do
  let nPages ← serve .pages
  let (blockNumber, atBlock) ← (match blockNumber with
    | some number => do
        let hash ← orFail id (← serve (.blockHash number))
        let atBlock ← orFail .subxt (← serve (.storageAt hash))
        pure (number, atBlock)
    | none => do
        let atBlock ← orFail .subxt (← serve .atCurrentBlock)
        let number ← serve (.blockNumber atBlock)
        pure (number, atBlock) : ServerTask C (Nat × AtBlock))
  let stored ← orFail .subxt (← serve (.storedRound atBlock))
  let currentRound := stored.getD 0
  let bounds ← serve .bounds
  let (targetSnapshot, voterSnapshot, dataSource) ←
    fetchSnapshots bounds nPages currentRound atBlock none
  let ss58Prefix ← getSs58Prefix
  let encode := fun account => C.encodeAccountId account ss58Prefix
  pure
    { validators := targetSnapshot.items.map encode
      nominators := voterSnapshot.flatMap fun page => page.items.map fun voter =>
        ⟨encode voter.1, toString voter.2.1, voter.2.2.items.map encode⟩
      config := ⟨blockNumber, currentRound, dataSource⟩ }

def readConfig (queryBlockNumber : Option Nat) :
    ServerTask C (Except Response PredictConfig) := do
  match ← serve .collectBody with
  | .error .lengthLimit => pure (.error (.error 413 "Request body too large"))
  | .error .other => pure (.error (.error 400 "Failed to read body"))
  | .ok bytes =>
      match C.parseConfig bytes with
      | none => pure (.error (.error 400 "Invalid JSON"))
      | some config =>
          match queryBlockNumber with
          | some number => pure (.ok { config with blockNumber := some number })
          | none => pure (.ok config)

def predictResponse (config : PredictConfig) : ServerTask C Response := do
  match ← serverTimeout (runPrediction config) with
  | some (.ok (validators, nominators)) =>
      let metadata := validators.metadata
      pure (.simulated
        { blockNumber := metadata.blockNumber
          desiredValidators := metadata.desiredValidators
          balancingIterations := config.balancingIterations
          doReduce := config.doReduce
          algorithm := config.algorithm
          overrides := config.overrides } (validators, nominators))
  | some (.error _) => pure (.error 500 "Internal Server Error: Prediction failed")
  | none => pure (.error 504 "Gateway Timeout: Prediction took too long")

/-- What `/simulate` does with the permit in hand. The timer is the client going away, which
drops the handler wherever it waits. The permit lives until the handler has its response, is
dropped or panics; a panic then ends the task of the connection. -/
def simulatePermitted (config : PredictConfig) : ServerTask C Unit := do
  let result ← (serverTimeout (predictResponse config)).unwound
  serve .releasePermit
  match result with
  | some (some (.ok response)) => serve (.respond response)
  | some _ => pure ()
  | none => Program.panic

def simulate (queryBlockNumber : Option Nat) : ServerTask C Unit := do
  match ← serverTimeout (readConfig queryBlockNumber) with
  | some (.ok (.error response)) => serve (.respond response)
  | some (.ok (.ok config)) =>
      if ← serve .tryAcquirePermit then simulatePermitted config
      else serve (.respond (.error 503 "A prediction is already in progress"))
  | _ => pure ()

def snapshotResponse (queryBlockNumber : Option Nat) : ServerTask C Response := do
  match ← serverTimeout (fetchSnapshotData queryBlockNumber) with
  | some (.ok result) => pure (.snapshot result)
  | some (.error _) => pure (.error 500 "Internal Server Error")
  | none => pure (.error 504 "Gateway Timeout: Snapshot fetch took too long")

inductive Method where
  | get
  | post
  | other
deriving Repr, DecidableEq

structure Request where
  method : Method
  path : String
  query : List (String × String)
deriving Repr, DecidableEq

def decimalValue (digits : List Char) : Nat :=
  digits.foldl (fun value digit => 10 * value + (digit.toNat - 48)) 0

def parseU32 (text : String) : Option Nat :=
  let digits := match text.toList with
    | '+' :: digits => digits
    | digits => digits
  if digits ≠ [] ∧ digits.all Char.isDigit ∧ decimalValue digits < 2 ^ 32 then
    some (decimalValue digits)
  else none

def Request.queryBlockNumber (request : Request) : Option Nat :=
  (request.query.find? fun pair => pair.1 = "block").bind fun pair => parseU32 pair.2

def handleRequest (request : Request) : ServerTask C Unit :=
  if request.method = .post ∧ request.path = "/simulate" then simulate request.queryBlockNumber
  else if request.method = .get ∧ request.path = "/snapshot" then do
    match ← serverTimeout (snapshotResponse request.queryBlockNumber) with
    | some (.ok response) => serve (.respond response)
    | _ => pure ()
  else serve (.respond (.error 404 "Not Found"))

inductive Progress (C : PredictChain) where
  | queued
  | running
  | finished (outcome : MiningOutcome C.Solution)

/-- A `spawn_blocking` closure of `mine_solution`, with what it has read of the process-wide
parameters so far. -/
structure Computation (C : PredictChain) where
  progress : Progress C
  algorithms : List ElectionAlgorithm
  iterations : List Nat

structure ServerWorld (C : PredictChain) where
  permits : Nat
  algorithm : ElectionAlgorithm
  balancingIterations : Nat
  computations : List (Computation C)

namespace ServerWorld

def initial : ServerWorld C := ⟨maxConcurrentPredictions, .seqPhragmen, 10, []⟩

/-- A handle is the number of computations spawned before; joining waits for the end. -/
def offers (world : ServerWorld C) : (op : ServerOp C) → ServerResp op → Prop
  | .tryAcquirePermit, acquired => acquired = decide (0 < world.permits)
  | .spawnMining _ _, handle => handle = world.computations.length
  | .joinMining handle, outcome =>
      ∃ computation, world.computations[handle]? = some computation ∧
        computation.progress = .finished outcome
  | _, _ => True

def next (world : ServerWorld C) : (op : ServerOp C) → ServerResp op → ServerWorld C
  | .tryAcquirePermit, true => { world with permits := world.permits - 1 }
  | .releasePermit, _ => { world with permits := world.permits + 1 }
  | .setAlgorithm algorithm, _ => { world with algorithm }
  | .setBalancingIterations iterations, _ => { world with balancingIterations := iterations }
  | .spawnMining _ _, _ =>
      { world with computations := world.computations ++ [⟨.queued, [], []⟩] }
  | _, _ => world

inductive Works (world : ServerWorld C) : Computation C → Computation C → Prop
  | starts {computation} : computation.progress = .queued →
      Works world computation { computation with progress := .running }
  | readsAlgorithm {computation} : computation.progress = .running →
      Works world computation
        { computation with algorithms := computation.algorithms ++ [world.algorithm] }
  | readsIterations {computation} : computation.progress = .running →
      Works world computation
        { computation with iterations := computation.iterations ++ [world.balancingIterations] }
  | finishes {computation} (outcome : MiningOutcome C.Solution) :
      computation.progress = .running →
      Works world computation { computation with progress := .finished outcome }

def setComputation (world : ServerWorld C) (handle : Nat) (computation : Computation C) :
    ServerWorld C :=
  { world with computations := world.computations.set handle computation }

/-- A computation goes on whether or not the future that waits for it still exists. -/
inductive Evolves (world : ServerWorld C) : ServerWorld C → Prop
  | works (handle : Nat) {before after : Computation C} :
      world.computations[handle]? = some before → world.Works before after →
      Evolves world (world.setComputation handle after)

end ServerWorld

def server (C : PredictChain) (ι : Type) : Process ι (ServerOp C) ServerResp where
  World := ServerWorld C
  Failure := Error
  Store _ := Unit
  turn _ := pure ()
  possible world _ := world.offers
  next := ServerWorld.next
  evolves := ServerWorld.Evolves

def serverStart {ι : Type} (requests : ι → Request) : (server C ι).State where
  world := .initial
  thread request := ⟨(), handleRequest (requests request)⟩
  log := []

end LeanStakingMiner
