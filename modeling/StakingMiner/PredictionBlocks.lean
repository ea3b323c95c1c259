import StakingMiner.PredictionLogic
import StakingMiner.ServerLogic

/-!
The blocks a prediction reads. The current block is asked for up to four times, each time
anew, while the chain goes on: for the constants, for the number to report, for the block to
read, and after the mining for the prefix of the addresses.
-/

namespace LeanStakingMiner

open LeanProgram

variable {C : PredictChain}

def blocksRead (trace : Trace (ServerOp C) ServerResp) : List AtBlock :=
  trace.filterMap fun event => event.1.block

/-- The node answers from a chain whose head after a number of calls is given by `head`; the
latest block number is cut to a `u32`, and a hash is the hash of the block it was given for. -/
structure ChainProgress (head : Nat → Nat) (env : Environment (ServerOp C) ServerResp) : Prop where
  current : ∀ history block, (env.answer history .atCurrentBlock : Read AtBlock) = .ok block →
    block = head history.length
  latest : ∀ history number,
    (env.answer history .latestBlockNumber : Except String Nat) = .ok number →
      number = head history.length % 2 ^ 32
  requested : ∀ earlier later number hash block,
    (env.answer earlier (.blockHash number) : Except Error Hash) = .ok hash →
    (env.answer later (.storageAt hash) : Read AtBlock) = .ok block → block = number

/-- The head is the same at the first call, at the two calls that choose the block and at the
third call from the end, which locates the prefix; a requested block is the head at the first of
these calls and at the last. -/
def StandsStill (config : PredictConfig) (head : Nat → Nat) (start calls : Nat) : Prop :=
  let reported := match config.blockNumber with
    | some number => number
    | none => head (start + 5) % 2 ^ 32
  head start = reported ∧ (config.blockNumber = none → head (start + 6) = reported) ∧
    head (start + calls - 3) = reported

section Runs

variable {env : Environment (ServerOp C) ServerResp} {history trace : Trace (ServerOp C) ServerResp}
  {head : Nat → Nat} {α : Type}

theorem configureSolver_blocks (progress : ChainProgress head env) {config : PredictConfig}
    {store : Unit} (ended : run env (configureSolver config) () history = ⟨.ok (), store, trace⟩) :
    trace.length = 4 ∧ blocksRead trace = [head history.length] := by
  obtain ⟨current, _, given, updated, rfl⟩ := run_read ended
  obtain ⟨_, _, _, adjusted, rfl⟩ := run_read updated
  obtain ⟨_, _, _, _, first, second, rfl⟩ := run_seq_ok adjusted
  obtain ⟨_, rfl⟩ := run_serve first
  obtain ⟨_, rfl⟩ := run_serve second
  rw [← progress.current history current given]
  exact ⟨rfl, rfl⟩

theorem chosenBlock_blocks (progress : ChainProgress head env) {config : PredictConfig}
    {number : Nat} {atBlock : AtBlock} {store : Unit}
    (ended : run env (chosenBlock config) () history = ⟨.ok (number, atBlock), store, trace⟩) :
    trace.length = 2 ∧ blocksRead trace = [] ∧ ((∃ requested, config.blockNumber = some requested ∧
        number = requested ∧ atBlock = requested) ∨
      config.blockNumber = none ∧ number = head history.length % 2 ^ 32 ∧
        atBlock = head (history.length + 1)) := by
  unfold chosenBlock at ended
  cases requested : config.blockNumber with
  | some block =>
      rw [requested] at ended
      obtain ⟨hash, _, hashed, opened, rfl⟩ := run_read ended
      obtain ⟨found, _, stored, returned, rfl⟩ := run_read opened
      obtain ⟨same, rfl⟩ := run_return returned
      obtain ⟨rfl, rfl⟩ := Prod.mk.inj same
      exact ⟨rfl, rfl, .inl ⟨_, rfl, rfl, progress.requested _ _ _ hash _ hashed stored⟩⟩
  | none =>
      rw [requested] at ended
      obtain ⟨latest, _, given, opened, rfl⟩ := run_read ended
      obtain ⟨current, _, positioned, returned, rfl⟩ := run_read opened
      obtain ⟨same, rfl⟩ := run_return returned
      obtain ⟨rfl, rfl⟩ := Prod.mk.inj same
      have later := progress.current _ _ positioned
      rw [List.length_append, List.length_singleton] at later
      exact ⟨rfl, rfl, .inr ⟨rfl, progress.latest history _ given, later⟩⟩

theorem getChainProperties_blocks (progress : ChainProgress head env)
    {properties : Nat × Nat × String} {store : Unit}
    (ended : run env getChainProperties () history = ⟨.ok properties, store, trace⟩) :
    trace.length = 4 ∧ ∀ calls, calls = history.length + 2 → blocksRead trace = [head calls] := by
  obtain ⟨_, _, _, connected, rfl⟩ := run_read ended
  obtain ⟨response, _, _, described, rfl⟩ := run_read connected
  obtain ⟨ss58Prefix, _, _, _, prefixed, returned, rfl⟩ := run_seq_ok described
  obtain ⟨_, rfl⟩ := run_return returned
  obtain ⟨atBlock, _, given, fetched, rfl⟩ := run_read prefixed
  obtain ⟨answer, _, _, trace, served, chosen, rfl⟩ := run_seq_ok fetched
  obtain ⟨_, rfl⟩ := run_serve served
  have here := progress.current _ _ given
  rw [List.length_append, List.length_append, List.length_singleton, List.length_singleton] at here
  have nothing : trace = [] := by
    cases answer with
    | ok found => exact (run_return chosen).2
    | error error => exact (run_return chosen).2
  subst nothing
  refine ⟨rfl, ?_⟩
  rintro _ rfl
  rw [← here]
  rfl

theorem run_built {outcome : Outcome Error α} {value : α} {store : Unit}
    (ended : run env (Program.ofOutcome outcome : ServerTask C α) () history =
      ⟨.ok value, store, trace⟩) : outcome = .ok value ∧ trace = [] := by
  rw [run_ofOutcome] at ended
  cases ended
  exact ⟨rfl, rfl⟩

end Runs

section Within

variable (config : PredictConfig) (atBlock : AtBlock)

theorem minePrediction_within (nPages currentRound desired : Nat) :
    (Monitor.issuing ServerResp fun op : ServerOp C => op.Within atBlock).Permits
      (minePrediction config nPages currentRound desired atBlock) := by
  refine .bind (issues_serve (within_of_none rfl)) fun bounds => ?_
  refine .bind ((readsAt_fetchSnapshots _ _ _ _ _).issues fun _ _ within => within) ?_
  rintro ⟨targetSnapshot, voterSnapshot, dataSource⟩
  refine .bind (.timeout ?_ _) ?_
  · refine .bind (issues_serve (within_of_none rfl)) fun handle => ?_
    exact .bind (issues_serve (within_of_none rfl)) fun outcome => issues_orFail _ _
  · rintro (_ | error | solution)
    · exact fun _ _ => trivial
    · exact fun _ _ => trivial
    · exact issues_return _

end Within

theorem mem_blocksRead {trace : Trace (ServerOp C) ServerResp} {block : AtBlock} :
    block ∈ blocksRead trace ↔ ∃ event ∈ trace, event.1.block = some block :=
  List.mem_filterMap

theorem blocksRead_append (left right : Trace (ServerOp C) ServerResp) :
    blocksRead (left ++ right) = blocksRead left ++ blocksRead right :=
  List.filterMap_append

theorem blocksRead_cons (event : Event (ServerOp C) ServerResp)
    (rest : Trace (ServerOp C) ServerResp) :
    blocksRead (event :: rest) = event.1.block.toList ++ blocksRead rest := by
  rw [blocksRead, List.filterMap_cons]
  cases event.1.block <;> rfl

theorem blocksRead_within {α : Type} {env : Environment (ServerOp C) ServerResp}
    {task : ServerTask C α} {history trace : Trace (ServerOp C) ServerResp} {atBlock : AtBlock}
    {outcome : Outcome Error α} {store : Unit}
    (within : (Monitor.issuing ServerResp fun op : ServerOp C => op.Within atBlock).Permits task)
    (ended : run env task () history = ⟨outcome, store, trace⟩) :
    ∀ block ∈ blocksRead trace, block = atBlock := by
  intro block read
  obtain ⟨event, member, here⟩ := mem_blocksRead.mp read
  have issued := run_issued env history (within () ())
  rw [ended] at issued
  exact issued event member block here

theorem runPrediction_blocks {head : Nat → Nat} {env : Environment (ServerOp C) ServerResp}
    (progress : ChainProgress head env) {config : PredictConfig} {prediction : Prediction}
    {store : Unit} {history trace : Trace (ServerOp C) ServerResp}
    (ended : run env (runPrediction config) () history = ⟨.ok prediction, store, trace⟩) :
    ∃ atBlock, (∀ block, block ∈ blocksRead trace ↔ block = head history.length ∨
        block = atBlock ∨ block = head (history.length + trace.length - 3)) ∧
      ((∃ requested, config.blockNumber = some requested ∧
        prediction.1.metadata.blockNumber = requested ∧ atBlock = requested) ∨
      config.blockNumber = none ∧
        prediction.1.metadata.blockNumber = head (history.length + 5) % 2 ^ 32 ∧
        atBlock = head (history.length + 6)) := by
  obtain ⟨_, _, configured, _, first, afterConfig, whole⟩ := run_seq_ok ended
  obtain ⟨four, constants⟩ := configureSolver_blocks progress first
  obtain ⟨nPages, _, _, _, second, afterPages, rfl⟩ := run_seq_ok afterConfig
  obtain ⟨_, rfl⟩ := run_serve second
  obtain ⟨⟨number, atBlock⟩, _, choosing, _, third, afterChoice, rfl⟩ := run_seq_ok afterPages
  obtain ⟨two, unread, chosen⟩ := chosenBlock_blocks progress third
  obtain ⟨currentRound, _, _, afterRound, rfl⟩ := run_read afterChoice
  obtain ⟨desired, _, targets, _, fourth, afterTargets, rfl⟩ := run_seq_ok afterRound
  obtain ⟨⟨mined, dataSource⟩, _, mining, _, fifth, afterMining, rfl⟩ := run_seq_ok afterTargets
  obtain ⟨⟨ss58Prefix, tokenDecimals, tokenSymbol⟩, _, describing, _, sixth, afterProperties, rfl⟩ :=
    run_seq_ok afterMining
  obtain ⟨properties, located⟩ := getChainProperties_blocks progress sixth
  obtain ⟨seconds, _, _, _, seventh, afterClock, rfl⟩ := run_seq_ok afterProperties
  obtain ⟨_, rfl⟩ := run_serve seventh
  obtain ⟨built, rfl⟩ := run_built afterClock
  have reported := congrArg PredictionMetadata.blockNumber (metadata_of_built built)
  have targetsHere := blocksRead_within
    ((readsAt_desiredTargets atBlock config).issues fun _ _ within => within) fourth
  have miningHere := blocksRead_within (minePrediction_within config atBlock _ _ _) fifth
  have prefixRead := located (history.length + trace.length - 3) (by
    simp only [whole, List.length_append, List.length_cons, List.length_nil, properties]
    omega)
  refine ⟨atBlock, fun block => ?_, ?_⟩
  · have none_read : blocksRead ([] : Trace (ServerOp C) ServerResp) = [] := rfl
    have read : blocksRead trace = blocksRead configured ++ (blocksRead choosing ++
        (atBlock :: (blocksRead targets ++ (blocksRead mining ++ blocksRead describing)))) := by
      simp [whole, blocksRead_append, blocksRead_cons, none_read, ServerOp.block]
    rw [read, constants, unread, prefixRead]
    simp only [List.mem_append, List.mem_cons, List.not_mem_nil, false_or, or_false]
    constructor
    · rintro (start | round | read | read | last)
      · exact .inl start
      · exact .inr (.inl round)
      · exact .inr (.inl (targetsHere block read))
      · exact .inr (.inl (miningHere block read))
      · exact .inr (.inr last)
    · rintro (start | round | last)
      · exact .inl start
      · exact .inr (.inl round)
      · exact .inr (.inr (.inr (.inr last)))
  · rw [List.length_append, List.length_append, four, List.length_singleton] at chosen
    rw [reported]
    exact chosen

/-- A prediction reads one block, the one it reports, exactly if the head of the chain does
not move between its calls. -/
theorem prediction_reads_one_block_iff (head : Nat → Nat)
    (env : Environment (ServerOp C) ServerResp) (progress : ChainProgress head env)
    (config : PredictConfig) (history : Trace (ServerOp C) ServerResp) (prediction : Prediction)
    (predicted : (run env (runPrediction config) () history).outcome = .ok prediction) :
    (∀ block ∈ blocksRead (run env (runPrediction config) () history).trace,
        block = prediction.1.metadata.blockNumber) ↔
      StandsStill config head history.length
        (run env (runPrediction config) () history).trace.length := by
  rcases ended : run env (runPrediction config) () history with ⟨outcome, store, trace⟩
  rw [ended] at predicted
  obtain rfl : outcome = _ := predicted
  obtain ⟨atBlock, read, chosen⟩ := runPrediction_blocks progress ended
  simp only [read, StandsStill]
  rcases chosen with ⟨requested, asked, reported, positioned⟩ | ⟨asked, reported, positioned⟩
  · simp [asked, reported, positioned]
  · simp [asked, reported, positioned]

def advancingAnswer (head : Nat) : (op : ServerOp samplePredictChain) → ServerResp op
  | .atCurrentBlock => .ok head
  | .latestBlockNumber => .ok (head % 2 ^ 32)
  | .blockHash number => .ok number
  | .storageAt hash => .ok hash
  | .updateMetadataConstants _ => .ok ()
  | .round _ => .ok 0
  | .validatorCount _ => .ok (some (.ok 1))
  | .targetSnapshot _ _ _ _ => .ok (some (some (.truncateFrom _ [])))
  | .joinMining _ => .mined 0
  | .rpcClient => .ok ()
  | .systemProperties => .ok ⟨some "DOT", some 10⟩
  | .ss58Prefix _ => .ok 0
  | op => offline op

def advancing (head : Nat → Nat) : Environment (ServerOp samplePredictChain) ServerResp where
  answer history := advancingAnswer (head history.length)
  fired _ _ := false

theorem advancing_progress (head : Nat → Nat) : ChainProgress head (advancing head) where
  current _ _ answered := (Except.ok.inj answered).symm
  latest _ _ answered := (Except.ok.inj answered).symm
  requested _ _ _ _ _ hashed stored :=
    (Except.ok.inj stored).symm.trans (Except.ok.inj hashed).symm

def latestConfig : PredictConfig := ⟨none, 10, false, none, none, .seqPhragmen⟩

section Sample

attribute [local semireducible] List.mergeSort

def reporting (blockNumber : Nat) : Prediction :=
  (⟨⟨"0", 1, 0, blockNumber, some ⟨0, 0, 0⟩, "snapshot"⟩, []⟩, ⟨[]⟩)

theorem prediction_reads_one_block_iff_still :
    (run (advancing fun _ => 7) (runPrediction latestConfig) () []).outcome = .ok (reporting 7) ∧
      ∀ block ∈ blocksRead (run (advancing fun _ => 7) (runPrediction latestConfig) () []).trace,
        block = 7 :=
  ⟨rfl, (prediction_reads_one_block_iff (fun _ => 7) (advancing fun _ => 7) (advancing_progress _)
    latestConfig [] (reporting 7) rfl).mpr ⟨rfl, fun _ => rfl, rfl⟩⟩

/-- With a new block at every call, the constants are those of block 0, the round and the
snapshot those of block 6 and the prefix that of block 15, and the prediction reports block 5. -/
theorem advancing_chain_mixes_blocks :
    (run (advancing id) (runPrediction latestConfig) () []).outcome = .ok (reporting 5) ∧
      blocksRead (run (advancing id) (runPrediction latestConfig) () []).trace =
        [0, 6, 6, 6, 15] :=
  ⟨rfl, rfl⟩

end Sample

end LeanStakingMiner
