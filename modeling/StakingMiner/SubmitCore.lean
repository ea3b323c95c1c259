import StakingMiner.ChainCore

/-!
Executable model of the submission side of `dynamic/multi_block.rs`: phase validation,
bailing, page batches, the two page strategies and `submit` itself.
-/

namespace LeanStakingMiner

open LeanProgram

variable {T : MinerConfig}

/-- The phase at the latest finalized head; an absent value reads as `Off`. -/
def readPhase (reader : PhaseReader) : Task T Phase := do
  let storage ← rpc (← ask .storageAtHead)
  let phase ← rpc (← ask (.currentPhase reader storage))
  pure (phase.getD .off)

/-- Sign with the on-chain nonce, submit and wait for finalization. The transactions
outside the page loop are all sent this way. -/
def submitAndFinalize (transaction : Transaction T) : Task T TxInBlock := do
  let _ ← rpc (← ask .atCurrentBlock)
  let nonce ← rpc (← ask .accountNonce)
  rpc (← ask (.createSigned transaction nonce))
  let tx ← rpc (← ask (.submitAndWatch transaction nonce none))
  rpc (← ask (.waitForFinalized tx))

def bail : Task T Unit := do
  let _ ← submitAndFinalize .bail
  pure ()

def bailIncomplete : Option SubmissionMetadata → Task T Unit
  | some submission => if submission.pages.all id then pure () else bail
  | none => pure ()

def validateSignedPhaseOrBail (currentPhase : Phase) (round minSignedPhaseBlocks : Nat) :
    Task T Unit :=
  match currentPhase with
  | .signed blocksRemaining =>
      if blocksRemaining ≤ minSignedPhaseBlocks then do
        let storage ← rpc (← ask .storageAtHead)
        let maybeSubmission ← rpc (← ask (.submissionMetadata storage round))
        bailIncomplete maybeSubmission
        Program.fail (.insufficientSignedPhaseBlocks blocksRemaining minSignedPhaseBlocks)
      else pure ()
  | other => Program.fail (.phaseChangedDuringSubmission other.debug round)

def getSignedPhaseBlocksRemaining : Phase → Task T Nat
  | .signed blocksRemaining => pure blocksRemaining
  | _ => Program.panic

/-- The mortality is computed in `u32`, which wraps in the shipped release build. -/
def submitInner (transaction : Transaction T) (nonce blocksRemaining : Nat) :
    Task T TxHandle := do
  let mortality := (blocksRemaining + 1) % 2 ^ 32
  let _ ← rpc (← ask .atCurrentBlock)
  rpc (← ask (.createSigned transaction nonce))
  rpc (← ask (.submitAndWatch transaction nonce (some mortality)))

structure SubmissionResult where
  failedPages : List Nat
  submittedPages : Finset Nat

def SubmissionResult.allSuccessful (result : SubmissionResult) : Bool :=
  result.failedPages.isEmpty

def submitPageTxs : List (Nat × T.Solution) → Nat → Task T (List (Nat × TxHandle))
  | [], _ => pure []
  | (page, solution) :: rest, nonce => do
      let currentPhase ← readPhase .mortality
      let blocksRemaining ← getSignedPhaseBlocksRemaining currentPhase
      let txStatus ← submitInner (.submitPage page (some solution)) nonce blocksRemaining
      let txs ← submitPageTxs rest (nonce + 1)
      pure ((page, txStatus) :: txs)

def collectStored : List (Read ChainEvent) → Finset Nat → Read (Finset Nat)
  | [], submitted => .ok submitted
  | .error error :: _, _ => .error error
  | .ok (.stored _ _ page) :: rest, submitted => collectStored rest (insert page submitted)
  | .ok _ :: rest, submitted => collectStored rest submitted

/-- The `FuturesUnordered` loop: the environment picks which pending page completes. -/
def awaitPageTxs : Nat → List (Nat × TxHandle) → Finset Nat → Finset Nat →
    Task T (Finset Nat × Finset Nat)
  | 0, _, failed, submitted => pure (failed, submitted)
  | remaining + 1, pending, failed, submitted => do
      let completed ← ask (.nextFinalized pending)
      let index := completed.1 % pending.length
      match pending[index]?, completed.2 with
      | none, _ => pure (failed, submitted)
      | some _, .ok tx => do
          let events ← rpc (← ask (.waitForSuccess tx))
          let submitted ← rpc (collectStored events submitted)
          awaitPageTxs remaining (pending.eraseIdx index) failed submitted
      | some (page, _), .error _ =>
          awaitPageTxs remaining (pending.eraseIdx index) (insert page failed) submitted

def submitPagesBatch (pagesToSubmit : List (Nat × T.Solution))
    (round minSignedPhaseBlocks : Nat) : Task T SubmissionResult := do
  let currentPhase ← readPhase .validation
  validateSignedPhaseOrBail currentPhase round minSignedPhaseBlocks
  let nonce ← rpc (← ask .accountNonce)
  let expectedPages := (pagesToSubmit.map Prod.fst).toFinset
  let txs ← submitPageTxs pagesToSubmit nonce
  let (failedPagesSet, submittedPages) ← awaitPageTxs txs.length txs ∅ ∅
  let missingPages := expectedPages \ submittedPages
  let failedPages ← ask (.hashSetIter (failedPagesSet ∪ missingPages))
  pure ⟨failedPages.val, submittedPages⟩

def innerSubmitPagesConcurrent (pages : List (Nat × T.Solution))
    (round minSignedPhaseBlocks : Nat) : Task T (List Nat) := do
  let result ← submitPagesBatch pages round minSignedPhaseBlocks
  if result.allSuccessful then pure [] else pure result.failedPages

/-- The chunk loop stops at the first chunk with a failed page and reports that
chunk's failures only; `failed_pages` is empty until then. -/
def submitChunks (totalPages round minSignedPhaseBlocks : Nat) :
    List (List (Nat × T.Solution)) → Finset Nat → Task T (List Nat)
  | [], _ => pure []
  | chunk :: rest, submittedPages => do
      let currentPhase ← readPhase .validation
      validateSignedPhaseOrBail currentPhase round minSignedPhaseBlocks
      let result ← submitPagesBatch chunk round minSignedPhaseBlocks
      if result.allSuccessful then
        let submittedPages := submittedPages ∪ result.submittedPages
        if submittedPages.card = totalPages then pure []
        else submitChunks totalPages round minSignedPhaseBlocks rest submittedPages
      else pure result.failedPages

def innerSubmitPagesChunked (pages : List (Nat × T.Solution))
    (chunkSize round minSignedPhaseBlocks : Nat) : Task T (List Nat) :=
  if chunkSize = 0 then Program.panic
  else submitChunks pages.length round minSignedPhaseBlocks (chunks chunkSize pages) ∅

def innerSubmitPages (pages : List (Nat × T.Solution))
    (chunkSize round minSignedPhaseBlocks : Nat) : Task T (List Nat) :=
  if chunkSize = 0 then innerSubmitPagesConcurrent pages round minSignedPhaseBlocks
  else innerSubmitPagesChunked pages chunkSize round minSignedPhaseBlocks

def registerAttempt (retryable : SubxtError → Bool) (score : ElectionScore)
    (blocksRemaining : Nat) (retry : SubxtError → Task T TxHandle) : Task T TxHandle := do
  let nonce ← rpc (← ask .accountNonce)
  match ← (submitInner (.registerScore score) nonce blocksRemaining).attempt with
  | .ok tx => pure tx
  | .error (.subxt error) =>
      if retryable error then retry error else Program.fail (.subxt error)
  | .error error => Program.fail error

def registerLoop (retryable : SubxtError → Bool) (score : ElectionScore)
    (blocksRemaining : Nat) : Nat → Task T TxHandle
  | 0 => registerAttempt retryable score blocksRemaining fun error => Program.fail (.subxt error)
  | retries + 1 => registerAttempt retryable score blocksRemaining fun _ => do
      ask (.sleep 6000)
      registerLoop retryable score blocksRemaining retries

def hasRegistered (events : List (Read ChainEvent)) : Bool :=
  events.any fun
    | .ok (.registered _ _ _) => true
    | _ => false

/-- The pages to retry: each is moved out of the solution with `mem::take`. -/
def takePages : List Nat → List T.Solution → Task T (List (Nat × T.Solution))
  | [], _ => pure []
  | page :: rest, solutionPages =>
      match solutionPages[page]? with
      | none => Program.panic
      | some solution => do
          let others ← takePages rest (solutionPages.set page T.emptySolution)
          pure ((page, solution) :: others)

def enumeratePages (solutionPages : List T.Solution) : List (Nat × T.Solution) :=
  solutionPages.zipIdx.map fun (solution, page) => (page, solution)

def revalidate (round minSignedPhaseBlocks : Nat) : Task T Unit := do
  let currentPhase ← readPhase .validation
  validateSignedPhaseOrBail currentPhase round minSignedPhaseBlocks

def retryFailedPages (solutionPages : List T.Solution) (failedPages : List Nat)
    (chunkSize round minSignedPhaseBlocks : Nat) : Task T Unit := do
  revalidate round minSignedPhaseBlocks
  let solutions ← takePages failedPages solutionPages
  let failedPages ← innerSubmitPages solutions chunkSize round minSignedPhaseBlocks
  if failedPages.isEmpty then ask (.metric .submissionSuccess)
  else do
    revalidate round minSignedPhaseBlocks
    Program.fail (.failedToSubmitPages failedPages.length)

def submitAllPages (solutionPages : List T.Solution)
    (chunkSize round minSignedPhaseBlocks : Nat) : Task T Unit := do
  let failedPages ← innerSubmitPages (enumeratePages solutionPages) chunkSize round
    minSignedPhaseBlocks
  if failedPages.isEmpty then ask (.metric .submissionSuccess)
  else retryFailedPages solutionPages failedPages chunkSize round minSignedPhaseBlocks

def registerAndConfirm (score : ElectionScore) (blocksRemaining : Nat) : Task T Unit := do
  let txStatus ← registerLoop (· == .extrinsicError) score blocksRemaining 9
  let tx ← rpc (← ask (.waitForFinalized txStatus))
  let events ← rpc (← ask (.waitForSuccess tx))
  if hasRegistered events then ask (.metric .submissionStarted)
  else Program.fail (.missingTxEvent "Register score")

def submit (pagedRawSolution : PagedRawSolution T)
    (chunkSize round minSignedPhaseBlocks : Nat) : Task T Unit := do
  let currentPhase ← readPhase .validation
  validateSignedPhaseOrBail currentPhase round minSignedPhaseBlocks
  let blocksRemaining ← getSignedPhaseBlocksRemaining currentPhase
  registerAndConfirm pagedRawSolution.score blocksRemaining
  revalidate round minSignedPhaseBlocks
  submitAllPages pagedRawSolution.solutionPages chunkSize round minSignedPhaseBlocks

end LeanStakingMiner
