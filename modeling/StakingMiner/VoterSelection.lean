import StakingMiner.BagWalks
import StakingMiner.VoterPipeline

/-!
Which voters `fetch_voters` selects. The voter list is cut before the nominations are known,
with room for a hundred voters that turn out not to count.
-/

namespace LeanStakingMiner

open LeanKeyed LeanLinked LeanTransitions LeanTraversal

section Cut

variable {α β : Type}

theorem take_append_eq_take_iff (left right : List α) (count : Nat) :
    left.take count = (left ++ right).take count ↔ count ≤ left.length ∨ right = [] := by
  rw [List.take_append, List.self_eq_append_right, List.take_eq_nil_iff, Nat.sub_eq_zero_iff_le]

theorem take_filterMap_take_eq_iff (f : α → Option β) (items : List α) (cut count : Nat) :
    ((items.take cut).filterMap f).take count = (items.filterMap f).take count ↔
      count ≤ ((items.take cut).filterMap f).length ∨ ∀ item ∈ items.drop cut, f item = none := by
  have split : items.filterMap f =
      (items.take cut).filterMap f ++ (items.drop cut).filterMap f := by
    rw [← List.filterMap_append, List.take_append_drop]
  rw [split, take_append_eq_take_iff, List.filterMap_eq_nil_iff]

end Cut

variable {Account : Type} [DecidableEq Account]

section Nodes

def decodedNode {Account : Type} : Except String (StoredEntry (ListNode Account)) →
    Option (Account × VoterNode Account)
  | .error _ => none
  | .ok entry =>
      if entry.keyBytes.length < 32 then none
      else entry.value.map fun node => (node.id, ⟨node.id, node.score, node.next, node.bagUpper⟩)

theorem insertNodes_of_answered (items : List (Except String (StoredEntry (ListNode Account))))
    (answered : ∀ item ∈ items, ∃ entry, item = .ok entry) (nodes : NodeMap Account)
    (room : nodes.table.entries.length + items.length < 2 ^ 64) :
    ∃ after, insertNodes items nodes room = .ok after ∧ ∀ account,
      after.table.find account =
        (lastValue account (items.filterMap decodedNode)).or (nodes.table.find account) := by
  induction items generalizing nodes with
  | nil => exact ⟨nodes, rfl, by simp⟩
  | cons item rest ih =>
      obtain ⟨⟨entry, rfl⟩, others⟩ := List.forall_mem_cons.mp answered
      by_cases short : entry.keyBytes.length < 32
      · have decoded : decodedNode (.ok entry) = none := by rw [decodedNode, if_pos short]
        rw [List.filterMap_cons_none decoded, insertNodes, if_pos short]
        exact ih others nodes _
      cases stored : entry.value with
      | none =>
          have decoded : decodedNode (.ok entry) = none := by
            rw [decodedNode, if_neg short, stored, Option.map_none]
          rw [List.filterMap_cons_none decoded, insertNodes, if_neg short]
          simp only [stored]
          exact ih others nodes _
      | some node =>
          have decoded := decodedNode.eq_2 entry
          rw [if_neg short, stored, Option.map_some] at decoded
          rw [List.filterMap_cons_some decoded, insertNodes, if_neg short]
          simp only [stored]
          have fits : nodes.table.entries.length + 1 < 2 ^ 64 := by
            rw [List.length_cons] at room
            omega
          obtain ⟨after, inserted, found⟩ := ih others
            (nodes.insert ⟨node.id, node.score, node.next, node.bagUpper⟩ fits) _
          refine ⟨after, inserted, fun account => ?_⟩
          rw [found, lastValue_cons, Option.or_assoc]
          congr 1
          change (nodes.table.insert _ _).find account = _
          rw [Table.find_insert]
          split <;> simp

end Nodes

/-- What the staking pallet stores about voters. A controller is an account of 32 bytes. -/
structure StakingState (Account : Type) where
  nominators : Account → Option (Option (Nominations Account))
  bonded : Account → Option Bytes
  ledger : Account → Option (Option Nat)
  controllers : ∀ account bytes, bonded account = some bytes → 32 ≤ bytes.length

section State

variable (libraries : StakingLibraries Account) (state : StakingState Account)
  (validatorKeys : List Account)

def StakingState.controller (account : Account) : Account :=
  match state.bonded account with
  | none => account
  | some bytes => libraries.accountFrom (lastBytes 32 bytes)

def StakingState.stake (voter : Account × Nat) : Nat :=
  match state.ledger (state.controller libraries voter.1) with
  | some (some active) => active % 2 ^ 64
  | some none | none => voter.2

/-- The vote of a voter that counts: nominations that are readable, active and not empty, or
without nominations the vote of a validator for itself. -/
def StakingState.vote (voter : Account × Nat) : Option (NominatorData Account) :=
  match state.nominators voter.1 with
  | none =>
      if voter.1 ∈ validatorKeys then some (voter.1, state.stake libraries voter, [voter.1])
      else none
  | some none => none
  | some (some nominations) =>
      if nominations.suppressed ∨ nominations.targets = [] then none
      else some (voter.1, state.stake libraries voter, nominations.targets)

/-- Every task is joined and every read is answered from the state. -/
structure BatchTasks.Answered (tasks : BatchTasks Account) (state : StakingState Account) :
    Prop where
  joined : ∀ task, tasks.joinError task = none
  reads : ∀ task attempt account, tasks.reads task attempt account =
    ⟨.ok (state.nominators account), .ok (state.bonded account), fun key => .ok (state.ledger key)⟩

def StakingState.entry (voter : Account × Nat) : Account × Nat × Option (List Account) :=
  (voter.1, state.stake libraries voter, activeTargets (state.nominators voter.1))

variable {libraries state validatorKeys} {tasks : BatchTasks Account}

theorem eligible_entry (voter : Account × Nat) :
    eligible validatorKeys (state.entry libraries voter) =
      state.vote libraries validatorKeys voter := by
  rw [StakingState.vote, eligible, StakingState.entry]
  cases state.nominators voter.1 with
  | none => rfl
  | some stored =>
      cases stored with
      | none => rfl
      | some nominations =>
          cases suppressed : nominations.suppressed <;> simp [activeTargets, suppressed]

omit [DecidableEq Account] in
theorem fetchVoter_of_answered (answered : tasks.Answered state) (task attempt : Nat)
    (voter : Account × Nat) :
    fetchVoter libraries (tasks.reads task attempt voter.1) voter =
      .ok (voter.1, state.stake libraries voter, state.nominators voter.1) := by
  rw [answered.reads, fetchVoter, StakingState.stake, StakingState.controller]
  cases bonded : state.bonded voter.1 with
  | none => rfl
  | some bytes =>
      have long := state.controllers voter.1 bytes bonded
      have key : ledgerKey libraries voter.1 (some bytes) =
          .ok (libraries.accountFrom (lastBytes 32 bytes)) := if_neg (Nat.not_lt.mpr long)
      simp only [Except.mapError, bind, Except.bind, key]
      rfl

omit [DecidableEq Account] in
theorem await_of_answered (answered : tasks.Answered state) (handle : BatchHandle Account) :
    tasks.await libraries handle = .ok (handle.1.map (state.entry libraries)) := by
  have fetched (attempt : Nat) :
      fetchVoterBatch libraries (tasks.reads handle.2 attempt) handle.1 =
        .ok (handle.1.map (state.entry libraries)) := by
    rw [fetchVoterBatch, mapM_eq_ok_iff]
    simp only [List.map_map]
    refine List.map_congr_left fun voter _ => ?_
    rw [Function.comp_apply, fetchVoter_of_answered answered]
    rfl
  rw [BatchTasks.await, answered.joined]
  simp only [fetched]
  rfl

theorem sequentialFetch_of_answered (answered : tasks.Answered state) (voterLimit : Nat)
    (voters : List (Account × Nat)) :
    sequentialFetch (tasks.await libraries) validatorKeys voterLimit voters =
      .ok ((voters.filterMap (state.vote libraries validatorKeys)).take voterLimit) := by
  have fetched : (chunks batchSize voters).zipIdx.mapM (tasks.await libraries) =
      .ok ((chunks batchSize voters).map (List.map (state.entry libraries))) := by
    rw [mapM_eq_ok_iff, List.map_map]
    conv_rhs => rw [← List.zipIdx_map_fst 0 (chunks batchSize voters)]
    rw [List.map_map]
    exact List.map_congr_left fun handle _ => await_of_answered answered handle
  rw [sequentialFetch, fetched]
  have all : ((chunks batchSize voters).map (List.map (state.entry libraries))).flatten =
      voters.map (state.entry libraries) := by
    rw [← List.map_flatten, chunks_flatten (by decide)]
  simp only [bind, Except.bind, pure, Except.pure, all, List.filterMap_map]
  congr 3
  funext voter
  exact eligible_entry voter

end State

/-- Whatever order the tasks finish in, the call returns these voters. -/
def ReturnsVoters (libraries : StakingLibraries Account) (tasks : BatchTasks Account)
    (voterLimit fuel : Nat) (storage : VoterListStorage Account)
    (validators : Read (StorageIteration Unit)) (voters : List (NominatorData Account)) : Prop :=
  ∃ pipeline, fetchVoters libraries voterLimit fuel storage validators = .ok (some pipeline) ∧
    Inevitable (Pipeline.Step (tasks.await libraries))
      (fun after => after.control = .returned (.ok voters)) pipeline

section Returns

variable {libraries : StakingLibraries Account} {tasks : BatchTasks Account}
  {voterLimit fuel : Nat} {storage : VoterListStorage Account}
  {validators : Read (StorageIteration Unit)} {bags : Table Nat (ListBag Account)}
  {nodes : NodeMap Account} {validatorKeys : List Account} {state : StakingState Account}
  {order : List (Account × VoterNode Account)}

theorem inevitable_returned_iff {await : BatchHandle Account → Except Error (BatchResult Account)}
    {voters : List (Account × Nat)} {result : Except Error (List (NominatorData Account))} :
    Inevitable (Pipeline.Step await) (fun after => after.control = .returned result)
        (.start validatorKeys voterLimit voters) ↔
      result = sequentialFetch await validatorKeys voterLimit voters := by
  constructor
  · intro inevitable
    obtain ⟨after, run, control⟩ := inevitable.reaches
    obtain ⟨awaited, results, tracks⟩ := Pipeline.sound_of_run run
    have stage := tracks.stage
    rwa [control, Pipeline.Stage] at stage
  · rintro rfl
    exact Pipeline.returns_sequential _ _ _ _

theorem returnsVoters_iff (bagsRead : fetchBags storage = .ok bags)
    (nodesRead : fetchNodes storage = .ok nodes)
    (keysRead : fetchValidatorKeys libraries validators = .ok validatorKeys)
    (answered : tasks.Answered state) (bagOrder : BagOrder nodes bags order)
    (enough : nodes.table.entries.length < fuel) (voters : List (NominatorData Account)) :
    ReturnsVoters libraries tasks voterLimit fuel storage validators voters ↔
      voters = (((order.map voterOf).take (voterLimit + 100)).filterMap
        (state.vote libraries validatorKeys)).take voterLimit := by
  have started : fetchVoters libraries voterLimit fuel storage validators =
      .ok (some (.start validatorKeys voterLimit
        ((order.map voterOf).take (voterLimit + 100)))) := by
    rw [fetchVoters, fetchVoterList, bagsRead, nodesRead, keysRead]
    simp only [bind, Except.bind, pure, Except.pure, votersFrom_eq bagOrder voterLimit enough,
      Option.map_some]
  rw [ReturnsVoters, started]
  simp only [Except.ok.injEq, Option.some.injEq, exists_eq_left', inevitable_returned_iff,
    sequentialFetch_of_answered answered]

end Returns

section Linked

def linkedNode (count i : Nat) : VoterNode Nat :=
  ⟨i, 1, if i + 1 < count then some (i + 1) else none, 1⟩

def linkedStorage (count : Nat) (small : count < 2 ^ 64) : VoterListStorage Nat where
  listBags := .ok ⟨[.ok ⟨[], some ⟨some 0, none⟩⟩], by decide⟩
  listNodes := .ok ⟨(List.range count).map fun i => .ok ⟨List.replicate 32 0,
    some ⟨i, none, if i + 1 < count then some (i + 1) else none, 1, 1⟩⟩, by simpa using small⟩

def nominatingFrom (first : Nat) : StakingState Nat where
  nominators account := some (some ⟨[account], 0, decide (account < first)⟩)
  bonded _ := none
  ledger _ := none
  controllers _ _ bonded := nomatch bonded

def answeredTasks (state : StakingState Nat) : BatchTasks Nat where
  reads _ _ account :=
    ⟨.ok (state.nominators account), .ok (state.bonded account), fun key => .ok (state.ledger key)⟩
  joinError _ := none

theorem answeredTasks_answered (state : StakingState Nat) : (answeredTasks state).Answered state :=
  ⟨fun _ => rfl, fun _ _ _ => rfl⟩

def plainLibraries : StakingLibraries Nat := ⟨fromLeBytes, fun _ => ""⟩

def linkedNodes (count : Nat) : List (Nat × VoterNode Nat) :=
  (List.range count).map fun i => (i, linkedNode count i)

theorem linkedStorage_nodes (count : Nat) (small : count < 2 ^ 64) :
    ∃ nodes, fetchNodes (linkedStorage count small) = .ok nodes ∧
      ∀ i < count, nodes.table.find i = some (linkedNode count i) := by
  obtain ⟨nodes, fetched, found⟩ := insertNodes_of_answered
    ((List.range count).map fun i => .ok ⟨List.replicate 32 0,
      some ⟨i, none, if i + 1 < count then some (i + 1) else none, 1, 1⟩⟩)
    (by simp) .empty (by simpa [NodeMap.empty, Table.empty] using small)
  refine ⟨nodes, fetched, fun i inside => ?_⟩
  have decoded : ((List.range count).map fun i => .ok ⟨List.replicate 32 0,
      some ⟨i, none, if i + 1 < count then some (i + 1) else none, 1, 1⟩⟩).filterMap decodedNode =
        linkedNodes count := by
    rw [List.filterMap_map, linkedNodes, ← List.filterMap_eq_map]
    rfl
  let table : Table Nat (VoterNode Nat) := ⟨linkedNodes count, by
    rw [linkedNodes, List.map_map]
    exact (List.map_id _).symm ▸ List.nodup_range⟩
  have listed : table.find i = some (linkedNode count i) :=
    Table.find_eq_some_iff.mpr (List.mem_map.mpr ⟨i, List.mem_range.mpr inside, rfl⟩)
  rw [found, decoded]
  exact congrArg (Option.or · _) listed

theorem linked_complete {count : Nat} {find : Nat → Option (VoterNode Nat)}
    (stored : ∀ i < count, find i = some (linkedNode count i)) {first : Nat}
    (inside : first < count) :
    Complete find VoterNode.next (some first)
      ((List.range' first (count - first)).map fun i => (i, linkedNode count i)) := by
  obtain ⟨length, rest⟩ : ∃ length, count - first = length + 1 := ⟨count - first - 1, by omega⟩
  rw [rest]
  induction length generalizing first with
  | zero =>
      refine .cons (stored first inside) ?_
      rw [linkedNode, if_neg (by omega)]
      exact .nil
  | succ length ih =>
      refine .cons (stored first inside) ?_
      rw [linkedNode, if_pos (by omega)]
      exact ih (by omega) (by omega)

def linkedBags : Table Nat (ListBag Nat) := ⟨[(0, ⟨some 0, none⟩)], by decide⟩

theorem linked_bagOrder {count : Nat} {nodes : NodeMap Nat} (positive : 0 < count)
    (stored : ∀ i < count, nodes.table.find i = some (linkedNode count i)) :
    BagOrder nodes linkedBags (linkedNodes count) := by
  have keys : sortedBagKeys linkedBags = [0] := List.mergeSort_singleton 0
  have whole := linked_complete stored positive
  rw [Nat.sub_zero, ← List.range_eq_range'] at whole
  have ordered : BagOrder nodes linkedBags
      ((sortedBagKeys linkedBags).flatMap fun _ => linkedNodes count) :=
    bagOrder_of_complete (by simpa [linkedBags, linkedNodes] using whole) (by simp [keys])
  simpa [keys] using ordered

end Linked

/-- The voters returned are the first that count in the whole list exactly if enough of them
are among the first hundred more than asked for, or none comes after these. -/
theorem fetched_voters_are_first_iff (libraries : StakingLibraries Account)
    (tasks : BatchTasks Account) (state : StakingState Account) (voterLimit fuel : Nat)
    (storage : VoterListStorage Account) (validators : Read (StorageIteration Unit))
    (bags : Table Nat (ListBag Account)) (nodes : NodeMap Account) (validatorKeys : List Account)
    (order : List (Account × VoterNode Account)) (bagsRead : fetchBags storage = .ok bags)
    (nodesRead : fetchNodes storage = .ok nodes)
    (keysRead : fetchValidatorKeys libraries validators = .ok validatorKeys)
    (answered : tasks.Answered state) (bagOrder : BagOrder nodes bags order)
    (enough : nodes.table.entries.length < fuel) :
    ReturnsVoters libraries tasks voterLimit fuel storage validators
        (((order.map voterOf).filterMap (state.vote libraries validatorKeys)).take voterLimit) ↔
      voterLimit ≤ (((order.map voterOf).take (voterLimit + 100)).filterMap
          (state.vote libraries validatorKeys)).length ∨
        ∀ voter ∈ (order.map voterOf).drop (voterLimit + 100),
          state.vote libraries validatorKeys voter = none := by
  rw [returnsVoters_iff bagsRead nodesRead keysRead answered bagOrder enough, eq_comm,
    take_filterMap_take_eq_iff]

theorem fetched_voters_are_first_iff_suppressed :
    ∃ nodes, fetchNodes (linkedStorage 4 (by decide)) = .ok nodes ∧
      ReturnsVoters plainLibraries (answeredTasks (nominatingFrom 2)) 1
        (nodes.table.entries.length + 1) (linkedStorage 4 (by decide)) (.ok ⟨[], by decide⟩)
        [(2, 1, [2])] := by
  obtain ⟨nodes, fetched, stored⟩ := linkedStorage_nodes 4 (by decide)
  have bagOrder := linked_bagOrder (by decide) stored
  refine ⟨nodes, fetched, (fetched_voters_are_first_iff plainLibraries _ (nominatingFrom 2) 1 _ _ _
    linkedBags nodes [] (linkedNodes 4) rfl fetched rfl (answeredTasks_answered _) bagOrder
    (Nat.lt_succ_self _)).mpr (.inl (by decide))⟩

/-- A hundred and one suppressed nominators stand before the only active one. With a limit of
one voter the call returns nobody. -/
theorem eligible_voter_missed :
    ∃ nodes, fetchBags (linkedStorage 102 (by decide)) = .ok linkedBags ∧
      fetchNodes (linkedStorage 102 (by decide)) = .ok nodes ∧
      BagOrder nodes linkedBags (linkedNodes 102) ∧
      ((linkedNodes 102).map voterOf).filterMap ((nominatingFrom 101).vote plainLibraries []) =
        [(101, 1, [101])] ∧
      ∀ fuel, nodes.table.entries.length < fuel →
        ReturnsVoters plainLibraries (answeredTasks (nominatingFrom 101)) 1 fuel
            (linkedStorage 102 (by decide)) (.ok ⟨[], by decide⟩) [] ∧
          ¬ReturnsVoters plainLibraries (answeredTasks (nominatingFrom 101)) 1 fuel
            (linkedStorage 102 (by decide)) (.ok ⟨[], by decide⟩) [(101, 1, [101])] := by
  obtain ⟨nodes, fetched, stored⟩ := linkedStorage_nodes 102 (by decide)
  have bagOrder := linked_bagOrder (by decide) stored
  have voters : (linkedNodes 102).map voterOf =
      (List.range 101).map (fun i => (i, 1)) ++ [(101, 1)] := by
    rw [linkedNodes, List.map_map, List.range_succ, List.map_append]
    rfl
  have suppressed : ((List.range 101).map fun i => (i, 1)).filterMap
      ((nominatingFrom 101).vote plainLibraries []) = [] := by
    rw [List.filterMap_eq_nil_iff]
    intro voter member
    obtain ⟨i, inside, rfl⟩ := List.mem_map.mp member
    simp [StakingState.vote, nominatingFrom, List.mem_range.mp inside]
  refine ⟨nodes, rfl, fetched, bagOrder, ?_, fun fuel enough => ?_⟩
  · rw [voters, List.filterMap_append, suppressed]
    rfl
  · have returned (result : List (NominatorData Nat)) :
        ReturnsVoters plainLibraries (answeredTasks (nominatingFrom 101)) 1 fuel
          (linkedStorage 102 (by decide)) (.ok ⟨[], by decide⟩) result ↔ result = [] := by
      rw [returnsVoters_iff rfl fetched rfl (answeredTasks_answered _) bagOrder enough, voters,
        List.take_left' (by simp), suppressed, List.take_nil]
    rw [returned, returned]
    exact ⟨rfl, by simp⟩

end LeanStakingMiner
