import Mathlib
import StakingMiner.ChainCore

/-!
Executable model of the snapshot cache (`commands/multi_block/types.rs`) and of the
functions of `dynamic/multi_block.rs` that fill it from the storage of a block.
-/

namespace LeanStakingMiner

open LeanProgram

variable {T : MinerConfig}

structure Snapshot (T : MinerConfig) where
  target : Option (T.TargetPage × Hash)
  voter : Std.TreeMap Nat (T.VoterPage × Hash)
  nPages : Nat

namespace Snapshot

def new (nPages : Nat) : Snapshot T := ⟨none, ∅, nPages⟩

def needsTargetSnapshot (snapshot : Snapshot T) (hash : Hash) : Bool :=
  match snapshot.target with
  | some (_, targetHash) => targetHash != hash
  | none => true

def needsVoterPage (snapshot : Snapshot T) (page : Nat) (hash : Hash) : Bool :=
  match snapshot.voter[page]? with
  | some (_, voterHash) => voterHash != hash
  | none => true

def setTargetSnapshot (snapshot : Snapshot T) (target : T.TargetPage) (hash : Hash) :
    Snapshot T :=
  { snapshot with target := some (target, hash) }

/-- `none` when the assertion on the page index fails. -/
def setVoterPage (snapshot : Snapshot T) (page : Nat) (voter : T.VoterPage) (hash : Hash) :
    Option (Snapshot T) :=
  if page < snapshot.nPages then
    some { snapshot with voter := snapshot.voter.insert page (voter, hash) }
  else none

def clear (snapshot : Snapshot T) : Snapshot T :=
  { snapshot with target := none, voter := ∅ }

/-- `none` when no target snapshot has been fetched, where the source panics. -/
def get (snapshot : Snapshot T) : Option (T.TargetPage × List T.VoterPage) :=
  snapshot.target.map fun (target, _) =>
    (target, snapshot.voter.toList.map fun (_, page, _) => page)

end Snapshot

abbrev Fetch (T : MinerConfig) (α : Type) : Type := Miner T (Snapshot T) α

def present {σ α : Type} : Option (Option α) → Miner T σ α
  | none => Program.fail .emptySnapshot
  | some none => Program.fail .codec
  | some (some value) => pure value

def pagedVoterSnapshotHash (page round : Nat) (storage : AtBlock) : Fetch T Hash := do
  let bytes ← rpc (← ask (.voterSnapshotHash storage round page))
  present bytes

def targetSnapshotHash (page round : Nat) (storage : AtBlock) : Fetch T Hash := do
  let bytes ← rpc (← ask (.targetSnapshotHash storage round page))
  present bytes

def pagedVoterSnapshot (page round : Nat) (storage : AtBlock) : Fetch T T.VoterPage := do
  let value ← rpc (← ask (.voterSnapshot storage round page))
  present value

def targetSnapshot (page round : Nat) (storage : AtBlock) : Fetch T T.TargetPage := do
  let value ← rpc (← ask (.targetSnapshot storage round page))
  present value

def storeVoterPage (page : Nat) (voter : T.VoterPage) (hash : Hash) : Fetch T Unit :=
  Program.get fun snapshot =>
    match snapshot.setVoterPage page voter hash with
    | some updated => Program.set updated (pure ())
    | none => Program.panic

def checkAndUpdateVoterSnapshot (page round : Nat) (storage : AtBlock) : Fetch T Unit := do
  let snapshotHash ← pagedVoterSnapshotHash page round storage
  let snapshot ← Program.load
  if snapshot.needsVoterPage page snapshotHash then do
    let voterSnapshot ← pagedVoterSnapshot page round storage
    storeVoterPage page voterSnapshot snapshotHash
  else pure ()

def checkAndUpdateTargetSnapshot (page round : Nat) (storage : AtBlock) : Fetch T Unit := do
  let snapshotHash ← targetSnapshotHash page round storage
  let snapshot ← Program.load
  if snapshot.needsTargetSnapshot snapshotHash then do
    let fetched ← targetSnapshot page round storage
    Program.modify fun snapshot => snapshot.setTargetSnapshot fetched snapshotHash
  else pure ()

/-- `n_pages - 1` in `u32`, which wraps in the shipped release build. -/
def lastPage (nPages : Nat) : Nat := (nPages + 2 ^ 32 - 1) % 2 ^ 32

def fetchVoterPagesLossy (round : Nat) (storage : AtBlock) : List Nat → Fetch T Unit
  | [] => pure ()
  | page :: rest => do
      match ← (checkAndUpdateVoterSnapshot page round storage).attempt with
      | .ok () => fetchVoterPagesLossy round storage rest
      | .error .emptySnapshot => fetchVoterPagesLossy round storage rest
      | .error error => Program.fail error

def fetchMissingSnapshotsLossy (storage : AtBlock) (round : Nat) : Fetch T Unit := do
  let snapshot ← Program.load
  fetchVoterPagesLossy round storage (List.range snapshot.nPages)
  let _ ← (checkAndUpdateTargetSnapshot (lastPage snapshot.nPages) round storage).attempt
  pure ()

def fetchVoterPages (round : Nat) (storage : AtBlock) : List Nat → Fetch T Unit
  | [] => pure ()
  | page :: rest => do
      checkAndUpdateVoterSnapshot page round storage
      fetchVoterPages round storage rest

def fetchMissingSnapshots (storage : AtBlock) (round : Nat) : Fetch T Unit := do
  let snapshot ← Program.load
  fetchVoterPages round storage (List.range snapshot.nPages)
  checkAndUpdateTargetSnapshot (lastPage snapshot.nPages) round storage

end LeanStakingMiner
