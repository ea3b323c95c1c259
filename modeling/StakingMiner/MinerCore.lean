import StakingMiner.SnapshotCore
import StakingMiner.SubmitCore

/-!
Executable model of the miner task of `commands/multi_block/monitor.rs`: mining with
validation, the handling of existing submissions, `process_block` and the message loop.
-/

namespace LeanStakingMiner

open LeanProgram

variable {T : MinerConfig}

inductive SubmissionStrategy where
  | always
  | ifLeading
  | claimNoWorseThan (epsilon : Perbill)
  | claimBetterThan (epsilon : Perbill)
deriving Repr, DecidableEq

def scorePassesStrategy (T : MinerConfig) (ourScore bestScore : ElectionScore) :
    SubmissionStrategy → Bool
  | .always => true
  | .ifLeading => T.strictThresholdBetter ourScore bestScore 0
  | .claimBetterThan epsilon => T.strictThresholdBetter ourScore bestScore epsilon
  | .claimNoWorseThan epsilon => !T.strictThresholdBetter bestScore ourScore epsilon

def meetsMinimumScore (T : MinerConfig) (score : ElectionScore) :
    Option ElectionScore → Bool
  | none => true
  | some minimum => T.strictBetter score minimum

structure IncompleteSubmission where
  score : ElectionScore
  pages : Finset Nat
  nPages : Nat
deriving DecidableEq

def IncompleteSubmission.getMissingPages (submission : IncompleteSubmission) : List Nat :=
  (List.range submission.nPages).filter (· ∉ submission.pages)

inductive CurrentSubmission where
  | done (score : ElectionScore)
  | incomplete (submission : IncompleteSubmission)
  | notStarted
deriving DecidableEq

def CurrentSubmission.isDone : CurrentSubmission → Bool
  | .done _ => true
  | _ => false

def submittedPages (bitfield : List Bool) : Finset Nat :=
  (bitfield.zipIdx.filterMap fun (submitted, page) => if submitted then some page else none).toFinset

def currentSubmission (nPages : Nat) : Option SubmissionMetadata → CurrentSubmission
  | none => .notStarted
  | some submission =>
      if (submittedPages submission.pages).card = nPages then .done submission.claimedScore
      else .incomplete ⟨submission.claimedScore, submittedPages submission.pages, nPages⟩

def getSubmission (storage : AtBlock) (round nPages : Nat) : Task T CurrentSubmission := do
  let maybeSubmission ← rpc (← ask (.submissionMetadata storage round))
  pure (currentSubmission nPages maybeSubmission)

def hasSubmitted (storage : AtBlock) (round nPages : Nat) : Task T Bool := do
  let submission ← getSubmission storage round nPages
  pure submission.isDone

def scoreBetter (storage : AtBlock) (score : ElectionScore) (round : Nat)
    (strategy : SubmissionStrategy) : Task T Bool := do
  let scores ← rpc (← ask (.sortedScores storage round))
  pure (scores.all fun (_, otherScore) => scorePassesStrategy T score otherScore strategy)

def fetchMinimumScore (storage : AtBlock) : Task T (Option ElectionScore) := do
  rpc (← ask (.minimumScore storage))

def signedPhase : Task T Bool := do
  let currentPhase ← readPhase .validation
  pure currentPhase.isSigned

structure ProcessConfig where
  submissionStrategy : SubmissionStrategy
  doReduce : Bool
  chunkSize : Nat
  minSignedPhaseBlocks : Nat
  shady : Bool
deriving Repr, DecidableEq

structure MinerState (T : MinerConfig) where
  snapshot : Snapshot T
  cachedSolution : Option (PagedRawSolution T)
  lastOutcompetedRound : Option Nat

def MinerState.snapshotLens : Lens (MinerState T) (Snapshot T) where
  view := MinerState.snapshot
  update snapshot state := { state with snapshot }
  view_update _ _ := rfl
  update_view _ := rfl
  update_update _ _ _ := rfl

inductive Flow where
  | proceed
  | finished
deriving Repr, DecidableEq

def withTimeout {α : Type} (error : TimeoutError) (task : Task T α) : Task T α := do
  match ← tokioTimeout task with
  | some result => Program.ofExcept result
  | none => Program.fail (.timeout error)

def fetchBalance (storage : AtBlock) : Task T Flow := do
  match ← tokioTimeout (do rpc (← ask (.account storage))) with
  | some (.ok (some _)) => pure .proceed
  | some (.ok none) => Program.fail .accountDoesNotExists
  | some (.error error) => Program.fail error
  | none => pure .finished

def checkPhase (minSignedPhaseBlocks : Nat) (details : BlockDetails) :
    Miner T (MinerState T) Flow :=
  match details.phase with
  | .snapshot _ => do
      (fetchMissingSnapshotsLossy details.atBlock details.round).zoom MinerState.snapshotLens
      pure .finished
  | .signed blocksRemaining =>
      if blocksRemaining ≤ minSignedPhaseBlocks then pure .finished else pure .proceed
  | _ => pure .finished

def alreadySubmitted (details : BlockDetails) : Task T Bool :=
  withTimeout (.checkExistingSubmission 300) do
    let storage ← rpc (← ask .storageAtHead)
    hasSubmitted storage details.round details.nPages

/-- `BoundedVec::truncate_from` keeps as many voter pages as `Pages` currently allows. -/
def mineSolution (targetSnapshot : T.TargetPage) (voterSnapshotPaged : List T.VoterPage)
    (nPages round desiredTargets : Nat) (doReduce : Bool) : Task T (PagedRawSolution T) := do
  let bound ← ask .pages
  let mined ← ask (.mineSolution
    ⟨desiredTargets, targetSnapshot, voterSnapshotPaged.take bound, nPages, doReduce, round⟩)
  match mined with
  | .mined solution => pure solution
  | .minerError message => Program.fail (.other message)
  | .infeasible message => Program.fail (.feasibility message)
  | .joinError message => Program.fail (.other message)

def validateSolution (solution : PagedRawSolution T) (round desiredTargets : Nat) :
    Task T (PagedRawSolution T) :=
  if round ≠ solution.round then Program.fail (.wrongRound solution.round round)
  else do
    let maxPages ← ask .pages
    if maxPages < solution.solutionPages.length then
      Program.fail (.wrongPageCount solution.solutionPages.length maxPages)
    else if desiredTargets ≠ T.winnerCount solution.solutionPages then
      Program.fail (.solutionValidation desiredTargets (T.winnerCount solution.solutionPages))
    else pure solution

def mineAndValidate (details : BlockDetails) (doReduce : Bool) :
    Fetch T (PagedRawSolution T) := do
  fetchMissingSnapshots details.atBlock details.round
  let snapshot ← Program.load
  match snapshot.get with
  | none => Program.panic
  | some (targetSnapshot, voterSnapshot) => do
      let solution ← (withTimeout (.mining 600) (mineSolution targetSnapshot voterSnapshot
        details.nPages details.round details.desiredTargets doReduce)).lift
      (validateSolution solution details.round details.desiredTargets).lift

def refreshCache (details : BlockDetails) (doReduce : Bool) : Miner T (MinerState T) Unit := do
  let state ← Program.load
  if state.cachedSolution.map PagedRawSolution.round ≠ some details.round then do
    let solution ← (mineAndValidate details doReduce).zoom MinerState.snapshotLens
    Program.modify fun state => { state with cachedSolution := some solution }
  else pure ()

def executeShadyBehavior (phase : Phase) : Task T Unit :=
  match phase with
  | .signed remaining => do
      let maxScore : ElectionScore := ⟨2 ^ 128 - 1, 2 ^ 128 - 1, 2 ^ 128 - 1⟩
      let txStatus ← registerLoop (fun error => error == .transactionProgressError ||
        error == .transactionStatusError) maxScore remaining 9
      let tx ← rpc (← ask (.waitForFinalized txStatus))
      let events ← rpc (← ask (.waitForSuccess tx))
      if hasRegistered events then pure ()
      else Program.fail (.missingTxEvent "Register malicious score")
  | _ => Program.fail (.other "Not in SignedPhase for shady behavior")

def existingSubmission (details : BlockDetails) : Task T (AtBlock × CurrentSubmission) :=
  withTimeout (.checkExistingSubmission 300) do
    let storageHead ← rpc (← ask .storageAtHead)
    let submission ← getSubmission storageHead details.round details.nPages
    pure (storageHead, submission)

def bailIfSigned : Task T Flow := do
  let stillSigned ← withTimeout (.phaseCheck 60) signedPhase
  if stillSigned then do
    withTimeout (.bail 120) bail
    pure .proceed
  else pure .finished

/-- The missing pages with their solutions; an index outside the solution panics. -/
def missingSolutions (solutionPages : List T.Solution) :
    List Nat → Task T (List (Nat × T.Solution))
  | [] => pure []
  | page :: rest =>
      match solutionPages[page]? with
      | none => Program.panic
      | some solution => do
          let others ← missingSolutions solutionPages rest
          pure ((page, solution) :: others)

/-- The resume branch: the pages that failed again are returned but not looked at. -/
def resumeSubmission (config : ProcessConfig) (round : Nat) (submission : IncompleteSubmission)
    (solution : PagedRawSolution T) : Task T Unit := do
  let missingPages ← missingSolutions solution.solutionPages submission.getMissingPages
  withTimeout (.missingPages 1800) do
    let _ ← innerSubmitPages missingPages config.chunkSize round config.minSignedPhaseBlocks
    pure ()
  ask (.metric .submissionSuccess)

def handleExisting (config : ProcessConfig) (round : Nat) (solution : PagedRawSolution T) :
    CurrentSubmission → Task T Flow
  | .done score =>
      if scorePassesStrategy T solution.score score config.submissionStrategy then bailIfSigned
      else pure .finished
  | .incomplete submission =>
      if submission.score = solution.score then do
        resumeSubmission config round submission solution
        pure .finished
      else bailIfSigned
  | .notStarted => pure .proceed

def checkCompetitive (config : ProcessConfig) (storageHead : AtBlock) (round : Nat)
    (score : ElectionScore) : Task T Bool :=
  if config.shady then pure true
  else withTimeout (.scoreCheck 60) (scoreBetter storageHead score round config.submissionStrategy)

def skipNotCompetitive (round : Nat) : Miner T (MinerState T) Unit := do
  let state ← Program.load
  if state.lastOutcompetedRound ≠ some round then do
    Program.modify fun state => { state with lastOutcompetedRound := some round }
    ask (.metric .submissionSkippedNotCompetitive)
  else pure ()

def competeAndSubmit (config : ProcessConfig) (round : Nat) (solution : PagedRawSolution T)
    (storageHead : AtBlock) : Miner T (MinerState T) Unit := do
  let isCompetitive ← (checkCompetitive config storageHead round solution.score).lift
  if isCompetitive then do
    ask (.submitCalled solution)
    (withTimeout (.submit 1800)
      (submit solution config.chunkSize round config.minSignedPhaseBlocks)).lift
  else skipNotCompetitive round

def submitSolution (config : ProcessConfig) (details : BlockDetails)
    (solution : PagedRawSolution T) : Miner T (MinerState T) Unit := do
  let minimum ← (fetchMinimumScore details.atBlock).lift
  match minimum, meetsMinimumScore T solution.score minimum with
  | some floor, false => Program.fail (.scoreBelowMinimum solution.score floor)
  | none, false => Program.panic
  | _, true => do
      let existing ← (existingSubmission details).lift
      let flow ← (handleExisting config details.round solution existing.2).lift
      match flow with
      | .finished => pure ()
      | .proceed => competeAndSubmit config details.round solution existing.1

def mineAndSubmit (config : ProcessConfig) (details : BlockDetails) :
    Miner T (MinerState T) Unit := do
  refreshCache details config.doReduce
  let state ← Program.load
  match state.cachedSolution with
  | none => Program.panic
  | some solution =>
      if config.shady then (executeShadyBehavior details.phase).lift
      else submitSolution config details solution

def processSignedBlock (config : ProcessConfig) (details : BlockDetails) :
    Miner T (MinerState T) Unit := do
  let submitted ← (alreadySubmitted details).lift
  if submitted then pure () else mineAndSubmit config details

def processBlock (config : ProcessConfig) (details : BlockDetails) :
    Miner T (MinerState T) Unit := do
  let balance ← (fetchBalance details.atBlock).lift
  match balance with
  | .finished => pure ()
  | .proceed => do
      let flow ← checkPhase config.minSignedPhaseBlocks details
      match flow with
      | .finished => pure ()
      | .proceed => processSignedBlock config details

def isCriticalMinerError : Error → Bool
  | .join | .feasibility _ | .emptySnapshot | .failedToSubmitPages _ | .solutionValidation _ _
  | .wrongPageCount _ _ | .wrongRound _ _ | .scoreBelowMinimum _ _ | .timeout _ => false
  | .subxt .extrinsicError | .subxt .transactionFinalizedSuccessError
  | .subxt .transactionProgressError | .subxt .transactionStatusError
  | .subxt .transactionEventsError | .subxt .otherRpcClientError | .subxt .backendError
  | .subxt .storageError | .subxt .storageValueError => false
  | .insufficientSignedPhaseBlocks _ _ | .phaseChangedDuringSubmission _ _ => false
  | _ => true

def minerContinues : Outcome Error Unit → Bool
  | .ok () => true
  | .err error => !isCriticalMinerError error
  | .panic => false

def MinerState.initial (pages : Nat) : MinerState T := ⟨Snapshot.new pages, none, none⟩

def MinerState.clearSnapshots (state : MinerState T) : MinerState T :=
  { state with snapshot := state.snapshot.clear, cachedSolution := none }

def minerTurn (config : ProcessConfig) : Miner T (MinerState T) Unit := do
  match ← ask .minerRecv with
  | none => Program.fail (.taskFailure .miner)
  | some (.processBlock details) =>
      match ← (processBlock config details).attempt with
      | .ok () => pure ()
      | .error error => if isCriticalMinerError error then Program.fail error else pure ()
  | some .clearSnapshots => Program.modify MinerState.clearSnapshots

structure ProcessedBlock (T : MinerConfig) where
  details : BlockDetails
  before : MinerState T
  history : MinerTrace T
  result : Result (MinerState T) Error (Op T) Resp Unit

def handleBlock (config : ProcessConfig) (env : MinerEnv T) (details : BlockDetails)
    (state : MinerState T) (history : MinerTrace T) : ProcessedBlock T :=
  ⟨details, state, history, run env (processBlock config details) state history⟩

/-- The states of `miner_task` between messages, with the blocks it has processed and
every operation so far. Messages come in any order and number; a call that does not let
the loop continue is the last one. -/
inductive MinerRun (config : ProcessConfig) (env : MinerEnv T) (pages : Nat) :
    MinerState T → MinerTrace T → List (ProcessedBlock T) → Prop
  | start : MinerRun config env pages (MinerState.initial pages) [] []
  | cleared {state history blocks} : MinerRun config env pages state history blocks →
      MinerRun config env pages state.clearSnapshots history blocks
  | processed {state history blocks} (details : BlockDetails) :
      MinerRun config env pages state history blocks →
      (∀ block ∈ blocks, minerContinues block.result.outcome = true) →
      MinerRun config env pages (handleBlock config env details state history).result.store
        (history ++ (handleBlock config env details state history).result.trace)
        (blocks ++ [handleBlock config env details state history])

end LeanStakingMiner
