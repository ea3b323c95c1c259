import StakingMiner.KeyedLists
import StakingMiner.PredictCore

/-!
Executable model of `dynamic/staking.rs`: the walk through the bags of the voter list, and
the pipeline of tasks that fetches the nominations of the voters found.
-/

namespace LeanStakingMiner

open LeanKeyed

structure StoredEntry (α : Type) where
  keyBytes : Bytes
  value : Option α
deriving Repr, DecidableEq

/-- What iterating over a storage map yields. An item can fail, and the items fit in memory. -/
structure StorageIteration (α : Type) where
  items : List (Except String (StoredEntry α))
  addressable : items.length < 2 ^ 64

structure ListNode (Account : Type) where
  id : Account
  prev : Option Account
  next : Option Account
  bagUpper : Nat
  score : Nat
deriving Repr, DecidableEq

structure ListBag (Account : Type) where
  head : Option Account
  tail : Option Account
deriving Repr, DecidableEq

structure VoterNode (Account : Type) where
  id : Account
  score : Nat
  next : Option Account
  bagUpper : Nat
deriving Repr, DecidableEq

structure Nominations (Account : Type) where
  targets : List Account
  submittedIn : Nat
  suppressed : Bool
deriving Repr, DecidableEq

structure StakingLibraries (Account : Type) where
  accountFrom : Bytes → Account
  display : Error → String

def lastBytes (count : Nat) (bytes : Bytes) : Bytes := bytes.drop (bytes.length - count)

def fromLeBytes (bytes : Bytes) : Nat :=
  bytes.foldr (fun byte higher => byte.toNat + 256 * higher) 0

variable {Account : Type}

section ValidatorKeys

variable [DecidableEq Account] (libraries : StakingLibraries Account)

def insertValidatorKey (keys : List Account) :
    Except String (StoredEntry Unit) → Except Error (List Account)
  | .error e => .error (.other s!"storage iteration error: {e}")
  | .ok entry =>
      if 32 ≤ entry.keyBytes.length then
        .ok (keys.insert (libraries.accountFrom (lastBytes 32 entry.keyBytes)))
      else .ok keys

def fetchValidatorKeys (validators : Read (StorageIteration Unit)) :
    Except Error (List Account) := do
  let iteration ← validators.mapError .subxt
  iteration.items.foldlM (insertValidatorKey libraries) []

end ValidatorKeys

section VoterList

def bagUpperOf (keyBytes : Bytes) : Nat :=
  if 8 ≤ keyBytes.length then fromLeBytes (lastBytes 8 keyBytes) else 0

def insertBag (bags : Table Nat (ListBag Account)) :
    Except String (StoredEntry (ListBag Account)) → Except Error (Table Nat (ListBag Account))
  | .error e => .error (.other s!"bags iteration error: {e}")
  | .ok entry =>
      match entry.value with
      | none => .error .codec
      | some bag => .ok (bags.insert (bagUpperOf entry.keyBytes) bag)

def sortedBagKeys (bags : Table Nat (ListBag Account)) : List Nat :=
  bags.keys.mergeSort fun a b => b ≤ a

def extendedVoterLimit (voterLimit : Nat) : Nat := min (voterLimit + 100) (2 ^ 64 - 1)

structure VoterListStorage (Account : Type) where
  listBags : Read (StorageIteration (ListBag Account))
  listNodes : Read (StorageIteration (ListNode Account))

def fetchBags (storage : VoterListStorage Account) :
    Except Error (Table Nat (ListBag Account)) := do
  let iteration ← storage.listBags.mapError .subxt
  iteration.items.foldlM insertBag .empty

variable [DecidableEq Account]

/-- The nodes by the account each node names; a map in memory has at most `usize::MAX`
entries. -/
structure NodeMap (Account : Type) [DecidableEq Account] where
  table : Table Account (VoterNode Account)
  keyed : ∀ account node, table.find account = some node → node.id = account
  addressable : table.entries.length < 2 ^ 64

def NodeMap.empty : NodeMap Account where
  table := .empty
  keyed _ _ found := nomatch found
  addressable := by simp [Table.empty]

def NodeMap.insert (nodes : NodeMap Account) (node : VoterNode Account)
    (room : nodes.table.entries.length + 1 < 2 ^ 64) : NodeMap Account where
  table := nodes.table.insert node.id node
  keyed account other found := by
    rw [Table.find_insert] at found
    split at found
    · next same => rw [← Option.some.inj found, same]
    · exact nodes.keyed account other found
  addressable := Nat.lt_of_le_of_lt (nodes.table.length_insert_le _ _) room

def insertNodes : (items : List (Except String (StoredEntry (ListNode Account)))) →
    (nodes : NodeMap Account) → nodes.table.entries.length + items.length < 2 ^ 64 →
    Except Error (NodeMap Account)
  | [], nodes, _ => .ok nodes
  | .error e :: _, _, _ => .error (.other s!"node iteration error: {e}")
  | .ok entry :: rest, nodes, room =>
      have fits : nodes.table.entries.length + 1 + rest.length < 2 ^ 64 := by
        rw [List.length_cons] at room
        omega
      if entry.keyBytes.length < 32 then insertNodes rest nodes (by omega)
      else
        match entry.value with
        | none => insertNodes rest nodes (by omega)
        | some listNode =>
            let node := ⟨listNode.id, listNode.score, listNode.next, listNode.bagUpper⟩
            insertNodes rest (nodes.insert node (by omega))
              (Nat.lt_of_le_of_lt
                (Nat.add_le_add_right (nodes.table.length_insert_le _ _) _) fits)

structure Walk (Account : Type) where
  voters : List (Account × Nat)
  processed : List Account
deriving Repr, DecidableEq

/-- The `while` loop over one bag; `none` is a loop that is still running when the fuel is
used up. -/
def walkBag (nodes : NodeMap Account) (extendedVoterLimit : Nat) :
    Nat → Option Account → Walk Account → Option (Walk Account)
  | _, none, walk => some walk
  | 0, some _, _ => none
  | fuel + 1, some nodeId, walk =>
      if extendedVoterLimit ≤ walk.voters.length then some walk
      else if nodeId ∈ walk.processed then some walk
      else
        let processed := nodeId :: walk.processed
        match nodes.table.find nodeId with
        | none => some { walk with processed }
        | some node =>
            walkBag nodes extendedVoterLimit fuel node.next
              ⟨walk.voters ++ [(node.id, node.score)], processed⟩

def walkBags (nodes : NodeMap Account) (bags : Table Nat (ListBag Account))
    (extendedVoterLimit fuel : Nat) : List Nat → Walk Account → Option (Walk Account)
  | [], walk => some walk
  | bagUpper :: rest, walk =>
      if extendedVoterLimit ≤ walk.voters.length then some walk
      else
        match bags.find bagUpper with
        | none => walkBags nodes bags extendedVoterLimit fuel rest walk
        | some bag =>
            if bag.head.isNone then walkBags nodes bags extendedVoterLimit fuel rest walk
            else do
              let walk ← walkBag nodes extendedVoterLimit fuel bag.head walk
              walkBags nodes bags extendedVoterLimit fuel rest walk

def votersFrom (nodes : NodeMap Account) (bags : Table Nat (ListBag Account))
    (voterLimit fuel : Nat) : Option (List (Account × Nat)) := do
  let limit := extendedVoterLimit voterLimit
  let walk ← walkBags nodes bags limit fuel (sortedBagKeys bags) ⟨[], []⟩
  pure walk.voters

def fetchNodes (storage : VoterListStorage Account) : Except Error (NodeMap Account) := do
  let iteration ← storage.listNodes.mapError .subxt
  insertNodes iteration.items .empty
    (by simpa [NodeMap.empty, Table.empty] using iteration.addressable)

def fetchVoterList (voterLimit fuel : Nat) (storage : VoterListStorage Account) :
    Except Error (Option (List (Account × Nat))) := do
  let bags ← fetchBags storage
  let nodes ← fetchNodes storage
  pure (votersFrom nodes bags voterLimit fuel)

end VoterList

section VoterBatch

variable (libraries : StakingLibraries Account)

/-- The storage's answers to the future of one voter. A stored value can fail to decode; of
a ledger only an `active` amount is used. -/
structure VoterReads (Account : Type) where
  nominators : Read (Option (Option (Nominations Account)))
  bonded : Read (Option Bytes)
  ledger : Account → Read (Option (Option Nat))

abbrev BatchResult (Account : Type) : Type := List (Account × Nat × Option (List Account))

def ledgerKey (account : Account) : Option Bytes → Except Error Account
  | none => .ok account
  | some controllerBytes =>
      if controllerBytes.length < 32 then .error (.other "Unexpected Bonded key length")
      else .ok (libraries.accountFrom (lastBytes 32 controllerBytes))

/-- The `active` amount is a `u128` cut to a `u64`. -/
def fetchVoter (reads : VoterReads Account) (voter : Account × Nat) :
    Except Error (Account × Nat × Option (Option (Nominations Account))) := do
  let nominatorData ← reads.nominators.mapError .subxt
  let bonded ← reads.bonded.mapError .subxt
  let key ← ledgerKey libraries voter.1 bonded
  let ledger ← (reads.ledger key).mapError .subxt
  let actualStake := match ledger with
    | some (some active) => active % 2 ^ 64
    | some none | none => voter.2
  pure (voter.1, actualStake, nominatorData)

def activeTargets : Option (Option (Nominations Account)) → Option (List Account)
  | none => none
  | some none => some []
  | some (some nominations) => if !nominations.suppressed then some nominations.targets else some []

def fetchVoterBatch (reads : Account → VoterReads Account) (voters : List (Account × Nat)) :
    Except Error (BatchResult Account) :=
  let results := voters.map fun voter => fetchVoter libraries (reads voter.1) voter
  results.mapM fun result => do
    let (account, stake, nominatorData) ← result
    pure (account, stake, activeTargets nominatorData)

def maxRetries : Nat := 8

def mentions (text part : String) : Bool := decide (part.toList <:+: text.toList)

def retryable (error : Error) : Bool :=
  let errorMsg := libraries.display error
  mentions errorMsg "limit reached" || mentions errorMsg "RPC error" || mentions errorMsg "timeout"

/-- The attempts of a task. Waiting between them has no effect here. -/
def retryBatch {β : Type} (fetch : Nat → Except Error β) :
    List Nat → Option Error → Except Error β
  | [], lastError => .error (lastError.getD (.other "Failed after retries"))
  | attempt :: rest, _ =>
      match fetch attempt with
      | .ok results => .ok results
      | .error e =>
          if retryable libraries e ∧ attempt < maxRetries then retryBatch fetch rest (some e)
          else .error e

structure BatchTasks (Account : Type) where
  reads : (task attempt : Nat) → Account → VoterReads Account
  joinError : Nat → Option String

abbrev BatchHandle (Account : Type) : Type := List (Account × Nat) × Nat

def BatchTasks.await (tasks : BatchTasks Account) (handle : BatchHandle Account) :
    Except Error (BatchResult Account) :=
  match tasks.joinError handle.2 with
  | some e => .error (.other s!"Task join error: {e}")
  | none =>
      let fetch attempt := fetchVoterBatch libraries (tasks.reads handle.2 attempt) handle.1
      retryBatch libraries fetch (List.range (maxRetries + 1)) none

end VoterBatch

section Pipeline

def batchSize : Nat := 20

def maxConcurrentBatches : Nat := 10

def truncate (voterLimit : Nat) (completeVoterData : List (NominatorData Account)) :
    List (NominatorData Account) :=
  if voterLimit < completeVoterData.length then completeVoterData.take voterLimit
  else completeVoterData

inductive Fetching (Account : Type) where
  | spawning
  | awaiting
  | joining
  | returned (result : Except Error (List (NominatorData Account)))

structure Pipeline (Account : Type) where
  validatorKeys : List Account
  voterLimit : Nat
  total : Nat
  remaining : List (List (Account × Nat))
  spawned : Nat
  finished : List Nat
  batchHandles : List (BatchHandle Account)
  completeVoterData : List (NominatorData Account)
  processedCount : Nat
  control : Fetching Account

def Pipeline.start (validatorKeys : List Account) (voterLimit : Nat)
    (voters : List (Account × Nat)) : Pipeline Account where
  validatorKeys
  voterLimit
  total := voters.length
  remaining := chunks batchSize voters
  spawned := 0
  finished := []
  batchHandles := []
  completeVoterData := []
  processedCount := 0
  control := .spawning

namespace Pipeline

def spawn (pipeline : Pipeline Account) (chunk : List (Account × Nat))
    (rest : List (List (Account × Nat))) : Pipeline Account :=
  let batchHandles := pipeline.batchHandles ++ [(chunk, pipeline.spawned)]
  { pipeline with
    remaining := rest
    spawned := pipeline.spawned + 1
    batchHandles
    control := if maxConcurrentBatches ≤ batchHandles.length then .awaiting else .spawning }

def finish (pipeline : Pipeline Account) (task : Nat) : Pipeline Account :=
  { pipeline with finished := task :: pipeline.finished }

end Pipeline

variable [DecidableEq Account]

def classify (validatorKeys : List Account) (completeVoterData : List (NominatorData Account))
    (entry : Account × Nat × Option (List Account)) : List (NominatorData Account) :=
  let (account, stake, maybeTargets) := entry
  match maybeTargets with
  | some targets =>
      if !targets.isEmpty then completeVoterData ++ [(account, stake, targets)]
      else completeVoterData
  | none =>
      if account ∈ validatorKeys then completeVoterData ++ [(account, stake, [account])]
      else completeVoterData

def classifyRemaining (validatorKeys : List Account)
    (completeVoterData : List (NominatorData Account))
    (entry : Account × Nat × Option (List Account)) : List (NominatorData Account) :=
  let (account, stake, maybeTargets) := entry
  match maybeTargets with
  | some targets =>
      if !targets.isEmpty then completeVoterData ++ [(account, stake, targets)]
      else completeVoterData
  | none =>
      if account ∈ validatorKeys then completeVoterData ++ [(account, stake, [account])]
      else completeVoterData

namespace Pipeline

def absorb (pipeline : Pipeline Account) (handles : List (BatchHandle Account))
    (results : BatchResult Account) : Pipeline Account :=
  { pipeline with
    batchHandles := handles
    completeVoterData := results.foldl (classify pipeline.validatorKeys) pipeline.completeVoterData
    processedCount :=
      pipeline.processedCount + min batchSize (pipeline.total - pipeline.processedCount)
    control := .spawning }

def absorbAll (validatorKeys : List Account) (completeVoterData : List (NominatorData Account))
    (results : List (Except Error (BatchResult Account))) :
    Except Error (List (NominatorData Account)) :=
  results.foldlM (fun data result => do
    let results ← result
    pure (results.foldl (classifyRemaining validatorKeys) data)) completeVoterData

def advance (await : BatchHandle Account → Except Error (BatchResult Account))
    (pipeline : Pipeline Account) : Option (Pipeline Account) :=
  match pipeline.control with
  | .spawning =>
      match pipeline.remaining with
      | chunk :: rest => some (pipeline.spawn chunk rest)
      | [] => some { pipeline with control := .joining }
  | .awaiting =>
      match pipeline.batchHandles with
      | [] => none
      | handle :: handles =>
          if handle.2 ∈ pipeline.finished then
            match await handle with
            | .ok results => some (pipeline.absorb handles results)
            | .error e => some { pipeline with control := .returned (.error e) }
          else none
  | .joining =>
      if pipeline.batchHandles.all fun handle => handle.2 ∈ pipeline.finished then
        let results := pipeline.batchHandles.map await
        some { pipeline with control := .returned ((absorbAll pipeline.validatorKeys
          pipeline.completeVoterData results).map (truncate pipeline.voterLimit)) }
      else none
  | .returned _ => none

inductive Step (await : BatchHandle Account → Except Error (BatchResult Account))
    (pipeline : Pipeline Account) : Pipeline Account → Prop
  | advance {after} (goes : pipeline.advance await = some after) : Step await pipeline after
  | finish (task : Nat) (running : task < pipeline.spawned)
      (unfinished : task ∉ pipeline.finished) :
      Step await pipeline (pipeline.finish task)

end Pipeline

def fetchVoters (libraries : StakingLibraries Account) (voterLimit fuel : Nat)
    (storage : VoterListStorage Account) (validators : Read (StorageIteration Unit)) :
    Except Error (Option (Pipeline Account)) := do
  let voters ← fetchVoterList voterLimit fuel storage
  let validatorKeys ← fetchValidatorKeys libraries validators
  pure (voters.map (Pipeline.start validatorKeys voterLimit))

end Pipeline

end LeanStakingMiner
