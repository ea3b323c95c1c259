import StakingMiner.ChainCore
import StakingMiner.Paging

/-!
Executable model of the pure part of `dynamic/election_data.rs`: applying overrides to
candidates and voters, and arranging them in the pages the miner expects.
-/

namespace LeanStakingMiner

open LeanPaging

structure ElectionBounds where
  pages : Nat
  targetSnapshotPerBlock : Nat
  voterSnapshotPerBlock : Nat
  maxVotesPerVoter : Nat
deriving Repr, DecidableEq

abbrev ValidatorData (Account : Type) : Type := Account × Nat

abbrev NominatorData (Account : Type) : Type := Account × Nat × List Account

abbrev Voter (Account : Type) (bounds : ElectionBounds) : Type :=
  Account × Nat × BoundedVec Account bounds.maxVotesPerVoter

abbrev TargetSnapshotPage (Account : Type) (bounds : ElectionBounds) : Type :=
  BoundedVec Account bounds.targetSnapshotPerBlock

abbrev VoterSnapshotPage (Account : Type) (bounds : ElectionBounds) : Type :=
  BoundedVec (Voter Account bounds) bounds.voterSnapshotPerBlock

inductive ElectionDataSource where
  | snapshot
  | staking
deriving Repr, DecidableEq

inductive CandidateInclude where
  | address (address : String)
  | withSelfStake (address : String) (selfStake : Nat)
deriving Repr, DecidableEq

def CandidateInclude.parts : CandidateInclude → String × Nat
  | .address text => (text, 0)
  | .withSelfStake text selfStake => (text, selfStake)

structure ElectionOverrides where
  candidatesInclude : List CandidateInclude
  candidatesExclude : List String
  votersInclude : List (String × Nat × List String)
  votersExclude : List String
deriving Repr, DecidableEq

/-- What other crates do here: reading an address, and an unstable sort by descending key,
of which only the order of the keys is known. -/
structure Libraries (Account : Type) where
  parseAccount : String → Except String Account
  sortDescending : (Nat → Nat) → List Nat → List Nat
  sortDescending_perm : ∀ key indices, (sortDescending key indices).Perm indices
  sortDescending_sorted : ∀ key indices, ((sortDescending key indices).map key).Pairwise (· ≥ ·)

variable {Account : Type} [DecidableEq Account] (libraries : Libraries Account)

section Overrides

def parseAs (role address : String) : Except Error Account :=
  match libraries.parseAccount address with
  | .ok account => .ok account
  | .error e => .error (.other s!"Invalid {role} {address}: {e}")

def upsert {β : Type} (isEntry : β → Bool) (change : β → β) (fresh : β) : List β → List β
  | [] => [fresh]
  | entry :: rest =>
      if isEntry entry then change entry :: rest else entry :: upsert isEntry change fresh rest

def includeCandidate (data : List (ValidatorData Account) × List (NominatorData Account))
    (candidate : CandidateInclude) :
    Except Error (List (ValidatorData Account) × List (NominatorData Account)) := do
  let (address, selfStake) := candidate.parts
  let account ← parseAs libraries "candidate include" address
  let candidates := upsert (fun entry => entry.1 = account) (fun entry => (entry.1, selfStake))
    (account, selfStake) data.1
  if selfStake = 0 then pure (candidates, data.2)
  else
    let selfVote := (account, selfStake, [account])
    pure (candidates, upsert (fun entry => entry.1 = account) (fun _ => selfVote) selfVote data.2)

/-- The index `voter_map` holds for an account: later entries replace earlier ones. -/
def voterIndex (voters : List (NominatorData Account)) (account : Account) : Option Nat :=
  (voters.zipIdx.filter fun entry => entry.1.1 = account).getLast?.map Prod.snd

/-- The map was made before the loop, so it does not know the voters the loop has added. -/
def includeVoter (mapped voters : List (NominatorData Account))
    (override : String × Nat × List String) : Except Error (List (NominatorData Account)) := do
  let (address, stake, targetAddresses) := override
  let account ← parseAs libraries "voter include" address
  let targets ← targetAddresses.mapM (parseAs libraries "voter target")
  match voterIndex mapped account with
  | some index => pure (voters.set index (account, stake, targets))
  | none => pure (voters ++ [(account, stake, targets)])

def applyOverrides (candidates : List (ValidatorData Account))
    (voters : List (NominatorData Account)) (overrides : ElectionOverrides) :
    Except Error (List (ValidatorData Account) × List (NominatorData Account)) := do
  let candidatesExclude ←
    overrides.candidatesExclude.mapM (parseAs libraries "candidate exclude")
  let candidates := candidates.filter fun entry => entry.1 ∉ candidatesExclude
  let (candidates, voters) ←
    overrides.candidatesInclude.foldlM (includeCandidate libraries) (candidates, voters)
  let votersExclude ← overrides.votersExclude.mapM (parseAs libraries "voter exclude")
  let voters := voters.filter fun entry => entry.1 ∉ votersExclude
  let voters ← overrides.votersInclude.foldlM (includeVoter libraries voters) voters
  pure (candidates, voters)

end Overrides

section Convert

variable (bounds : ElectionBounds)

omit [DecidableEq Account] in
def dropWeakest (voters : List (NominatorData Account)) : List (NominatorData Account) :=
  let capacity := bounds.pages * bounds.voterSnapshotPerBlock
  if 0 < capacity ∧ capacity < voters.length then
    let byStake := libraries.sortDescending (fun i => (voters[i]?.map fun voter => voter.2.1).getD 0)
      (List.range voters.length)
    let dropped := byStake.drop capacity
    (voters.zipIdx.filter fun entry => entry.2 ∉ dropped).map Prod.fst
  else voters

def convertVoter (voter : NominatorData Account) : Voter Account bounds :=
  (voter.1, voter.2.1, .truncateFrom _ voter.2.2)

variable {bounds}

def pushVoter (pages : List (VoterSnapshotPage Account bounds)) (voter : Voter Account bounds) :
    List (VoterSnapshotPage Account bounds) :=
  match pages.getLast? with
  | none => pages ++ [.truncateFrom _ [voter]]
  | some last =>
      if bounds.voterSnapshotPerBlock ≤ last.items.length then pages ++ [.truncateFrom _ [voter]]
      else
        match last.tryPush voter with
        | .ok fuller => pages.dropLast ++ [fuller]
        | .error voter => pages ++ [.truncateFrom _ [voter]]

variable (bounds)

def convertElectionDataToSnapshots (candidates : List (ValidatorData Account))
    (voters : List (NominatorData Account)) (dataSource : ElectionDataSource) :
    Except Error (TargetSnapshotPage Account bounds × List (VoterSnapshotPage Account bounds)) :=
  let targetSnapshot := .truncateFrom _ (candidates.map Prod.fst)
  let voters := (dropWeakest libraries bounds voters).map (convertVoter bounds)
  let voterPages := voters.foldl pushVoter []
  match dataSource with
  | .staking => .ok (targetSnapshot, voterPages.reverse)
  | .snapshot => .ok (targetSnapshot, voterPages)

end Convert

def sampleLibraries : Libraries Nat where
  parseAccount text := .error text
  sortDescending key indices := indices.mergeSort fun left right => key right ≤ key left
  sortDescending_perm key indices := List.mergeSort_perm indices _
  sortDescending_sorted key indices := by
    rw [List.pairwise_map]
    have sorted : (indices.mergeSort fun left right => key right ≤ key left).Pairwise
        fun left right => decide (key right ≤ key left) = true :=
      List.pairwise_mergeSort (by simp; omega) (by simp; omega) indices
    simpa using sorted

end LeanStakingMiner
