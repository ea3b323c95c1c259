import StakingMiner.MinerCore

/-!
Executable model of the two cleaning tasks of `commands/multi_block/monitor.rs`: clearing
the data of old rounds, and lazy era pruning during the Off phase.
-/

namespace LeanStakingMiner

open LeanProgram

variable {T : MinerConfig}

def clearOldRoundsScanRounds : Nat := 5

def clearOldRoundData (round witnessPages : Nat) : Task T Unit := do
  let _ ← submitAndFinalize (.clearOldRoundData round witnessPages)
  pure ()

/-- The first round to scan; natural subtraction saturates as the source's does. -/
def startRound (currentRound : Nat) : Option Nat → Nat
  | some last => max (last + 1) (currentRound - clearOldRoundsScanRounds)
  | none => currentRound - clearOldRoundsScanRounds

/-- The loop over old rounds, all read at one block. A round that cannot be cleared is
skipped; a failed read ends the scan. -/
def cleanRounds (atBlock : AtBlock) : List Nat → Nat → Task T Nat
  | [], cleanedCount => pure cleanedCount
  | oldRound :: rest, cleanedCount => do
      let maybeSubmission ← rpc (← ask (.submissionMetadata atBlock oldRound))
      match maybeSubmission with
      | none => cleanRounds atBlock rest cleanedCount
      | some submission =>
          let witnessPages := submission.pages.count true
          if witnessPages = 0 then cleanRounds atBlock rest cleanedCount
          else do
            match ← (clearOldRoundData oldRound witnessPages).attempt with
            | .ok () => cleanRounds atBlock rest (cleanedCount + 1)
            | .error _ => cleanRounds atBlock rest cleanedCount

def runClearOldRoundsCleanup (currentRound : Nat) : Miner T (Option Nat) Nat := do
  let atBlock ← rpc (← ask .storageAtHead)
  let start := startRound currentRound (← Program.load)
  if currentRound = 0 ∨ currentRound ≤ start then pure 0
  else do
    let cleanedCount ← (cleanRounds atBlock (List.range' start (currentRound - start)) 0).lift
    Program.modify fun _ => some (currentRound - 1)
    pure cleanedCount

def clearOldRoundsTurn : Miner T (Option Nat) Unit := do
  match ← ask .clearOldRoundsRecv with
  | none => Program.fail (.taskFailure .clearOldRounds)
  | some currentRound =>
      match ← (runClearOldRoundsCleanup currentRound).attempt with
      | .ok _ => pure ()
      | .error error => if isCriticalMinerError error then Program.fail error else pure ()

def getPruneableEraIndex : Task T (Nat × Option Nat) := do
  let atBlock ← rpc (← ask .storageAtHead)
  match ← ask (.eraPruningState atBlock) with
  | .error _ => pure (0, none)
  | .ok entries => do
      let eraIndices ← rpc entries
      pure (eraIndices.length, eraIndices.min?)

def callPruneEraStep (era : Nat) : Task T Unit := do
  let _ ← submitAndFinalize (.pruneEraStep era)
  ask (.metric .eraPruningSubmissionSuccess)

/-- The call as the task makes it, between the marks that say where it begins and ends. -/
def pruneOldestEra (oldestEra : Nat) : Task T Unit := do
  ask (.pruneEntered oldestEra)
  let result ← (callPruneEraStep oldestEra).attempt
  ask .pruneLeft
  match result with
  | .ok () => pure ()
  | .error _ => ask (.metric .eraPruningSubmissionFailure)

def pruneForBlock : Task T Unit := do
  match ← tokioTimeout getPruneableEraIndex with
  | some (.ok (_, some oldestEra)) => pruneOldestEra oldestEra
  | _ => pure ()

/-- One pass of the loop of `lazy_era_pruning_task`; the store is `pruning_active`. -/
def lazyEraPruningTurn : Miner T Bool Unit := do
  match ← ask .eraPruningRecv with
  | none => Program.fail (.taskFailure .eraPruning)
  | some .enterOffPhase => Program.modify fun _ => true
  | some .exitOffPhase => Program.modify fun _ => false
  | some (.newBlock _) => do
      let pruningActive ← Program.load
      if pruningActive then pruneForBlock.lift else pure ()

def lazyEraPruningLoop : Nat → Miner T Bool Unit
  | 0 => pure ()
  | turns + 1 => do
      lazyEraPruningTurn
      lazyEraPruningLoop turns

end LeanStakingMiner
