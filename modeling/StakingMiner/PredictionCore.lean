import Mathlib.Data.List.DropRight
import StakingMiner.ElectionDataCore
import StakingMiner.KeyedLists

/-!
Executable model of `build_predictions_from_solution` in `dynamic/election_data.rs` and of the
texts it prints. The predictions are first made with accounts and amounts, then printed.
-/

namespace LeanStakingMiner

open LeanKeyed LeanPaging LeanProgram

def saturatingAddU128 (left right : Nat) : Nat := min (left + right) (2 ^ 128 - 1)

section Print

/-- `none` is the division by zero that panics: the power is taken modulo `2 ^ 128`. -/
def planckToToken (planck decimals : Nat) (symbol : String) : Option String :=
  let divisor := 10 ^ decimals % 2 ^ 128
  if divisor = 0 then none
  else
    let whole := planck / divisor
    let remainder := planck % divisor
    let amountStr :=
      if remainder = 0 then toString whole
      else
        let remainderStr := (toString remainder).toList.leftpad decimals '0'
        let remainderTrimmed := remainderStr.rdropWhile (· = '0')
        if remainderTrimmed.isEmpty then toString whole
        else s!"{whole}.{String.ofList remainderTrimmed}"
    some s!"{amountStr} {symbol}"

structure NominatorAllocation where
  address : String
  allocatedStake : String
deriving Repr, DecidableEq

structure ValidatorInfo where
  account : String
  totalStake : String
  selfStake : String
  nominatorCount : Nat
  nominators : List NominatorAllocation
deriving Repr, DecidableEq

structure ValidatorStakeAllocation where
  validator : String
  allocatedStake : String
deriving Repr, DecidableEq

structure NominatorPrediction where
  address : String
  stake : String
  activeValidators : List ValidatorStakeAllocation
  inactiveValidators : List String
  waitingValidators : List String
deriving Repr, DecidableEq

structure PredictionMetadata where
  timestamp : String
  desiredValidators : Nat
  round : Nat
  blockNumber : Nat
  solutionScore : Option ElectionScore
  dataSource : String
deriving Repr, DecidableEq

structure ValidatorsPrediction where
  metadata : PredictionMetadata
  results : List ValidatorInfo
deriving Repr, DecidableEq

structure NominatorsPrediction where
  nominators : List NominatorPrediction
deriving Repr, DecidableEq

end Print

abbrev Prediction : Type := ValidatorsPrediction × NominatorsPrediction

structure PredictionContext where
  round : Nat
  desiredTargets : Nat
  blockNumber : Nat
  ss58Prefix : Nat
  tokenDecimals : Nat
  tokenSymbol : String
  dataSource : ElectionDataSource
deriving Repr, DecidableEq

structure Support (Account : Type) where
  total : Nat
  voters : List (Account × Nat)
deriving Repr, DecidableEq

abbrev PageSupports (Account : Type) : Type := List (Account × Support Account)

structure ValidatorView (Account : Type) where
  account : Account
  totalStake : Nat
  selfStake : Nat
  nominators : List (Account × Nat)
deriving Repr, DecidableEq

structure NominatorView (Account : Type) where
  account : Account
  stake : Nat
  activeValidators : List (Account × Nat)
  inactiveValidators : List Account
  waitingValidators : List Account
deriving Repr, DecidableEq

section Views

variable {Account : Type} [LinearOrder Account]

def addSupport (support : Support Account) (existing : Option (Support Account)) :
    Support Account :=
  let entry := existing.getD ⟨0, []⟩
  ⟨saturatingAddU128 entry.total support.total, entry.voters ++ support.voters⟩

def winnerSupportMap (pageSupports : List (PageSupports Account)) :
    Table Account (Support Account) :=
  pageSupports.foldl (fun map page =>
    page.foldl (fun map entry => map.alter entry.1 (addSupport entry.2)) map) .empty

def addStake (stake : Nat) : Option Nat → Nat
  | none => stake
  | some existing => saturatingAddU128 existing stake

def allocationMap (winners : Table Account (Support Account)) : Table Account (Table Account Nat) :=
  winners.inOrder.foldl (fun map winner =>
    winner.2.voters.foldl (fun map backing =>
      map.alter backing.1 fun existing =>
        (existing.getD .empty).alter winner.1 (addStake backing.2)) map) .empty

def winnersSorted (winners : Table Account (Support Account)) (desiredTargets : Nat) :
    List (Account × Support Account) :=
  let sorted := winners.inOrder.mergeSort fun a b => b.2.total ≤ a.2.total
  if desiredTargets < sorted.length then sorted.take desiredTargets else sorted

def validatorView (winner : Account × Support Account) : ValidatorView Account where
  account := winner.1
  totalStake := winner.2.total
  selfStake := ((winner.2.voters.find? fun backing => backing.1 = winner.1).map Prod.snd).getD 0
  nominators := (winner.2.voters.filter fun backing => backing.1 ≠ winner.1).mergeSort
    fun a b => b.2 ≤ a.2

def validatorsWithOnlySelfVote (activeSet : List Account)
    (allVoters : List (NominatorData Account)) : List Account :=
  (allVoters.filter fun voter => voter.1 ∈ activeSet ∨ voter.2.2 = [voter.1]).map Prod.fst

def allocated (allocations : Table Account (Table Account Nat)) (nominator target : Account) :
    Nat :=
  ((allocations.find nominator).bind fun stakes => stakes.find target).getD 0

def nominatorView (activeSet : List Account) (allocations : Table Account (Table Account Nat))
    (voter : NominatorData Account) : NominatorView Account where
  account := voter.1
  stake := voter.2.1
  activeValidators := (voter.2.2.filter fun target =>
    target ∈ activeSet ∧ 0 < allocated allocations voter.1 target).map fun target =>
      (target, allocated allocations voter.1 target)
  inactiveValidators := voter.2.2.filter fun target =>
    target ∈ activeSet ∧ ¬0 < allocated allocations voter.1 target
  waitingValidators := voter.2.2.filter fun target => target ∉ activeSet

def validatorViews (pageSupports : List (PageSupports Account)) (desiredTargets : Nat) :
    List (ValidatorView Account) :=
  (winnersSorted (winnerSupportMap pageSupports) desiredTargets).map validatorView

def nominatorViews (pageSupports : List (PageSupports Account)) (desiredTargets : Nat)
    (allVoters : List (NominatorData Account)) : List (NominatorView Account) :=
  let winners := winnerSupportMap pageSupports
  let activeSet := (winnersSorted winners desiredTargets).map Prod.fst
  let onlySelfVote := validatorsWithOnlySelfVote activeSet allVoters
  (allVoters.filter fun voter => voter.1 ∉ onlySelfVote).map
    (nominatorView activeSet (allocationMap winners))

end Views

section Build

variable {Account : Type}

/-- What `build_predictions_from_solution` takes from elsewhere: the feasibility check of the
miner, the text of an address, and the time. -/
structure PredictionLibraries (Account Solution : Type) where
  checkFeasibility : (bounds : ElectionBounds) → Solution →
    BoundedVec (VoterSnapshotPage Account bounds) bounds.pages →
    TargetSnapshotPage Account bounds → Nat → Except String (List (PageSupports Account))
  score : Solution → ElectionScore
  encodeAccountId : Account → Nat → String
  timestamp : String

variable {Solution : Type} (libraries : PredictionLibraries Account Solution)
  (context : PredictionContext)

def PredictionContext.token (planck : Nat) : Option String :=
  planckToToken planck context.tokenDecimals context.tokenSymbol

def ValidatorView.print (view : ValidatorView Account) : Option ValidatorInfo := do
  let encode account := libraries.encodeAccountId account context.ss58Prefix
  let nominators ← view.nominators.mapM fun backing => do
    pure (NominatorAllocation.mk (encode backing.1) (← context.token backing.2))
  pure ⟨encode view.account, ← context.token view.totalStake, ← context.token view.selfStake,
    view.nominators.length, nominators⟩

def NominatorView.print (view : NominatorView Account) : Option NominatorPrediction := do
  let encode account := libraries.encodeAccountId account context.ss58Prefix
  let activeValidators ← view.activeValidators.mapM fun supported => do
    pure (ValidatorStakeAllocation.mk (encode supported.1) (← context.token supported.2))
  pure ⟨encode view.account, ← context.token view.stake, activeValidators,
    view.inactiveValidators.map encode, view.waitingValidators.map encode⟩

def ElectionDataSource.text : ElectionDataSource → String
  | .snapshot => "snapshot"
  | .staking => "staking"

def allVoters {bounds : ElectionBounds} (voterSnapshot : List (VoterSnapshotPage Account bounds)) :
    List (NominatorData Account) :=
  voterSnapshot.flatMap fun page =>
    page.items.map fun voter => (voter.1, voter.2.1, voter.2.2.items)

def buildPredictionsFromSolution [LinearOrder Account] (bounds : ElectionBounds)
    (solution : Solution) (targetSnapshot : TargetSnapshotPage Account bounds)
    (voterSnapshot : List (VoterSnapshotPage Account bounds)) :
    Outcome Error Prediction :=
  match libraries.checkFeasibility bounds solution (.truncateFrom _ voterSnapshot) targetSnapshot
      context.desiredTargets with
  | .error err => .err (.other s!"Failed to evaluate solution supports: {err}")
  | .ok pageSupports =>
      let validators := validatorViews pageSupports context.desiredTargets
      let nominators := nominatorViews pageSupports context.desiredTargets (allVoters voterSnapshot)
      let metadata := ⟨libraries.timestamp, context.desiredTargets, context.round,
        context.blockNumber, some (libraries.score solution), context.dataSource.text⟩
      match validators.mapM (ValidatorView.print libraries context),
          nominators.mapM (NominatorView.print libraries context) with
      | some results, some predictions => .ok (⟨metadata, results⟩, ⟨predictions⟩)
      | _, _ => .panic

end Build

end LeanStakingMiner
