import StakingMiner.ProgramLogic
import StakingMiner.ServerCore

/-!
One request on its own. It works on the process-wide parameters and on its mining only
between taking and returning the permit, it mines once, and a prediction is answered only
from what it mined under the parameters it echoes.
-/

namespace LeanStakingMiner

open LeanProgram LeanPaging

variable {C : PredictChain}

def BuiltFrom (solution : C.Solution) (prediction : Prediction) : Prop :=
  ∃ timestamp context bounds targetSnapshot voterSnapshot, buildPredictionsFromSolution
    (C.printing timestamp) context bounds solution targetSnapshot voterSnapshot = .ok prediction

/-- The parameters that reach the solver through process-wide variables are echoed as the
configuration has them. -/
def Echoes (params : SimulateRunParameters) (config : PredictConfig) : Prop :=
  params.algorithm = config.algorithm ∧
    params.balancingIterations = config.balancingIterations

structure RequestGhost (C : PredictChain) where
  bodies : List Bytes
  permit : Bool
  algorithm : Option ElectionAlgorithm
  iterations : Option Nat
  spawned : List Nat
  mined : List (Nat × C.Solution)
  answers : List (SimulateRunParameters × Prediction)

namespace RequestGhost

def initial : RequestGhost C := ⟨[], false, none, none, [], [], []⟩

def acquired (body : Bytes) : RequestGhost C := { initial with bodies := [body], permit := true }

def configured (body : Bytes) (config : PredictConfig) : RequestGhost C :=
  { acquired body with
    algorithm := some config.algorithm
    iterations := some config.balancingIterations }

def Earned (ghost : RequestGhost C) (params : SimulateRunParameters)
    (prediction : Prediction) : Prop :=
  (∃ body ∈ ghost.bodies, ∃ config, C.parseConfig body = some config ∧ Echoes params config) ∧
    ghost.algorithm = some params.algorithm ∧
    ghost.iterations = some params.balancingIterations ∧
    ∃ mined ∈ ghost.mined, BuiltFrom mined.2 prediction

def Held (body : Bytes) (ghost : RequestGhost C) : Prop :=
  ghost.permit = true ∧ ghost.bodies = [body]

def HasMined (config : PredictConfig) (solution : C.Solution) (ghost : RequestGhost C) : Prop :=
  ghost.algorithm = some config.algorithm ∧ ghost.iterations = some config.balancingIterations ∧
    ∃ handle, (handle, solution) ∈ ghost.mined

end RequestGhost

open RequestGhost

def requestMonitor : Monitor (ServerOp C) ServerResp (RequestGhost C) where
  expects _ _ _ := True
  allows ghost
    | .setAlgorithm _ | .setBalancingIterations _ => ghost.permit = true ∧ ghost.spawned = []
    | .spawnMining _ _ => ghost.permit = true ∧ ghost.spawned = [] ∧
        ghost.algorithm.isSome = true ∧ ghost.iterations.isSome = true
    | .joinMining handle => ghost.permit = true ∧ ghost.spawned = [handle]
    | .tryAcquirePermit => ghost = { initial with bodies := ghost.bodies }
    | .releasePermit => ghost.permit = true
    | .respond response => ∀ params prediction, response = .simulated params prediction →
        ghost.Earned params prediction
    | _ => True
  next ghost
    | .collectBody, .ok body => { ghost with bodies := ghost.bodies ++ [body] }
    | .tryAcquirePermit, true => { ghost with permit := true }
    | .releasePermit, _ => { ghost with permit := false }
    | .setAlgorithm algorithm, _ => { ghost with algorithm := some algorithm }
    | .setBalancingIterations iterations, _ => { ghost with iterations := some iterations }
    | .spawnMining _ _, handle => { ghost with spawned := ghost.spawned ++ [handle] }
    | .joinMining handle, .mined solution =>
        { ghost with mined := ghost.mined ++ [(handle, solution)] }
    | .respond (.simulated params prediction), _ =>
        { ghost with answers := ghost.answers ++ [(params, prediction)] }
    | _, _ => ghost

section Reads

def ServerOp.reads : ServerOp C → Bool
  | .setBalancingIterations _ | .setAlgorithm _ | .spawnMining _ _ | .joinMining _ => false
  | .systemTime | .collectBody | .tryAcquirePermit | .releasePermit | .respond _ => false
  | _ => true

def ServerOp.predicts : ServerOp C → Bool
  | .collectBody | .tryAcquirePermit | .releasePermit | .respond _ => false
  | _ => true

def predictMonitor : Monitor (ServerOp C) ServerResp (RequestGhost C) :=
  requestMonitor.only fun op => op.predicts = true

variable {α : Type} {ghost : RequestGhost C} {body : Bytes}

theorem predictMonitor_ignores {op : ServerOp C} (reads : op.reads = true) :
    predictMonitor.Ignores ghost op := by
  cases op <;> first | exact ⟨⟨trivial, rfl⟩, fun _ => rfl⟩ | cases reads

theorem predictMonitor_keeps_held (op : ServerOp C) (answer : ServerResp op)
    (allowed : predictMonitor.allows ghost op) (held : ghost.Held body) :
    (predictMonitor.next ghost op answer).Held body := by
  have predicts := allowed.2
  cases op with
  | collectBody | tryAcquirePermit | releasePermit | respond => cases predicts
  | joinMining handle => cases answer <;> exact held
  | _ => exact held

def ServerOp.block : ServerOp C → Option AtBlock
  | .updateMetadataConstants block | .ss58Prefix block => some block
  | .round block | .storedRound block => some block
  | .validatorCount block | .fetchCandidates block | .fetchVoters _ block => some block
  | .targetSnapshot _ block _ _ | .voterSnapshot _ block _ _ => some block
  | _ => none

def ServerOp.Within (storage : AtBlock) (op : ServerOp C) : Prop :=
  ∀ block, op.block = some block → block = storage

theorem within_of_block {storage : AtBlock} {op : ServerOp C} (here : op.block = some storage) :
    op.Within storage :=
  fun _ read => (Option.some.inj (here.symm.trans read)).symm

theorem within_of_none {storage : AtBlock} {op : ServerOp C} (nowhere : op.block = none) :
    op.Within storage :=
  fun _ read => nomatch nowhere.symm.trans read

def Reads (task : ServerTask C α) : Prop :=
  (Monitor.issuing ServerResp fun op : ServerOp C => op.reads = true).Permits task

def ReadsAt (storage : AtBlock) (task : ServerTask C α) : Prop :=
  (Monitor.issuing ServerResp fun op : ServerOp C =>
    op.reads = true ∧ op.Within storage).Permits task

theorem ReadsAt.issues {storage : AtBlock} {task : ServerTask C α} {issued : ServerOp C → Prop}
    (reads : ReadsAt storage task)
    (implies : ∀ op : ServerOp C, op.reads = true → op.Within storage → issued op) :
    (Monitor.issuing ServerResp issued).Permits task := by
  intro _ _
  refine wp_mono (wp_of_issuing (reads () ()) fun op issues => ⟨?_, fun _ => rfl⟩) ?_
  · exact implies op issues.1 issues.2
  · exact fun _ _ _ _ => trivial

theorem ReadsAt.reads {storage : AtBlock} {task : ServerTask C α} (reads : ReadsAt storage task) :
    Reads task :=
  reads.issues fun _ reads _ => reads

theorem Reads.follows {task : ServerTask C α}
    {post : Outcome Error α → Unit → RequestGhost C → Prop} (reads : Reads task)
    (continues : ∀ outcome, post outcome () ghost) :
    wp predictMonitor task post () ghost := by
  refine wp_mono (wp_of_issuing (reads () ()) fun op => predictMonitor_ignores) ?_
  rintro outcome _ _ ⟨rfl, _⟩
  exact continues outcome

section Issues

variable {issued : ServerOp C → Prop}

theorem issues_serve {op : ServerOp C} (issues : issued op) :
    (Monitor.issuing ServerResp issued).Permits (serve op) :=
  fun _ _ => ⟨issues, fun _ _ => trivial⟩

theorem issues_orFail {ε : Type} (convert : ε → Error) (answer : Except ε α) :
    (Monitor.issuing ServerResp issued).Permits (orFail convert answer : ServerTask C α) := by
  intro _ _
  cases answer <;> trivial

theorem issues_return (value : α) :
    (Monitor.issuing ServerResp issued).Permits (pure value : ServerTask C α) :=
  fun _ _ => trivial

theorem issues_decodedPage (value : Option (Option α)) :
    (Monitor.issuing ServerResp issued).Permits (decodedPage value : ServerTask C α) := by
  intro _ _
  rcases value with _ | _ | page <;> trivial

theorem issues_loadOverrides {config : OverridesConfig}
    (opens : ∀ path, config = .path path → issued (.readJsonFile path)) :
    (Monitor.issuing ServerResp issued).Permits
      (loadOverrides config : ServerTask C ElectionOverrides) := by
  cases config with
  | path path => exact .bind (issues_serve (opens path rfl)) fun answer => issues_orFail _ _
  | data overrides => exact issues_return overrides

theorem issues_chosenBlock (config : PredictConfig) (latest : issued .latestBlockNumber)
    (current : issued .atCurrentBlock) (hashes : ∀ number, issued (.blockHash number))
    (positions : ∀ hash, issued (.storageAt hash)) :
    (Monitor.issuing ServerResp issued).Permits
      (chosenBlock config : ServerTask C (Nat × AtBlock)) := by
  unfold chosenBlock
  cases config.blockNumber with
  | some number =>
      refine .bind (issues_serve (hashes number)) fun answer => ?_
      refine .bind (issues_orFail _ _) fun hash => ?_
      refine .bind (issues_serve (positions hash)) fun answer => ?_
      exact .bind (issues_orFail _ _) fun atBlock => issues_return _
  | none =>
      refine .bind (issues_serve latest) fun answer => .bind (issues_orFail _ _) fun number => ?_
      refine .bind (issues_serve current) fun answer => ?_
      exact .bind (issues_orFail _ _) fun atBlock => issues_return _

theorem issues_getSs58Prefix (current : issued .atCurrentBlock)
    (prefixes : ∀ block, issued (.ss58Prefix block)) :
    (Monitor.issuing ServerResp issued).Permits (getSs58Prefix : ServerTask C Nat) := by
  refine .bind (issues_serve current) fun answer => .bind (issues_orFail _ _) fun atBlock => ?_
  refine .bind (issues_serve (prefixes atBlock)) ?_
  rintro (error | ss58Prefix)
  · exact issues_return _
  · exact issues_return _

theorem issues_getChainProperties (client : issued .rpcClient)
    (properties : issued .systemProperties) (current : issued .atCurrentBlock)
    (prefixes : ∀ block, issued (.ss58Prefix block)) :
    (Monitor.issuing ServerResp issued).Permits
      (getChainProperties : ServerTask C (Nat × Nat × String)) := by
  refine .bind (issues_serve client) fun answer => .bind (issues_orFail _ _) fun _ => ?_
  refine .bind (issues_serve properties) fun answer => .bind (issues_orFail _ _) fun response => ?_
  exact .bind (issues_getSs58Prefix current prefixes) fun ss58Prefix => issues_return _

variable (bounds : ElectionBounds) (nPages currentRound : Nat) {storage : AtBlock}
  (here : ∀ op : ServerOp C, op.block = some storage → issued op)

include here

theorem issues_fetchTargetPage (page : Nat) :
    (Monitor.issuing ServerResp issued).Permits
      (fetchTargetPage bounds currentRound storage page) := by
  refine .bind (issues_serve (here _ rfl)) fun answer => ?_
  exact .bind (issues_orFail _ _) fun value => issues_decodedPage value

theorem issues_fetchVoterPage (page : Nat) :
    (Monitor.issuing ServerResp issued).Permits
      (fetchVoterPage bounds currentRound storage page) := by
  refine .bind (issues_serve (here _ rfl)) fun answer => ?_
  exact .bind (issues_orFail _ _) fun value => issues_decodedPage value

theorem issues_fetchAllVoterPages (pages : List Nat) :
    (Monitor.issuing ServerResp issued).Permits
      (fetchAllVoterPages bounds currentRound storage pages) := by
  induction pages with
  | nil => exact issues_return []
  | cons page rest ih =>
      refine .bind (issues_fetchVoterPage bounds currentRound here page) fun voterPage => ?_
      exact .bind ih fun voterPages => issues_return _

theorem issues_tryFetchSnapshot :
    (Monitor.issuing ServerResp issued).Permits
      (tryFetchSnapshot bounds nPages currentRound storage) := by
  unfold tryFetchSnapshot
  by_cases differs : nPages ≠ bounds.pages
  · simp only [if_pos differs]
    exact fun _ _ => trivial
  · simp only [if_neg differs]
    refine .bind (issues_fetchTargetPage bounds currentRound here _) fun target => ?_
    refine .bind (issues_fetchAllVoterPages bounds currentRound here _) fun pages => ?_
    exact issues_return _

theorem issues_getElectionData :
    (Monitor.issuing ServerResp issued).Permits
      (getElectionData bounds nPages currentRound storage) := by
  refine .bind (issues_tryFetchSnapshot bounds nPages currentRound here).attempt ?_
  rintro (error | ⟨targetSnapshot, voterPages⟩)
  · refine .bind (issues_serve (here _ rfl)) fun answer => ?_
    refine .bind (issues_orFail _ _) fun candidates => ?_
    refine .bind (issues_serve (here _ rfl)) fun answer => ?_
    refine .bind (issues_orFail _ _) fun voters => ?_
    exact issues_return _
  · exact issues_return _

theorem issues_fetchSnapshots {overrides : Option OverridesConfig}
    (opens : ∀ path, overrides = some (.path path) → issued (.readJsonFile path)) :
    (Monitor.issuing ServerResp issued).Permits
      (fetchSnapshots bounds nPages currentRound storage overrides) := by
  refine .bind (issues_getElectionData bounds nPages currentRound here) ?_
  rintro ⟨candidates, nominators, dataSource⟩
  refine .bind ?_ ?_
  · cases overrides with
    | none => exact issues_return _
    | some config =>
        refine .bind (issues_loadOverrides fun path named => opens path (congrArg some named)) ?_
        exact fun overrides => issues_orFail _ _
  · rintro ⟨candidates, nominators⟩
    refine .bind (issues_orFail _ _) ?_
    rintro ⟨targetSnapshot, voterSnapshot⟩
    exact issues_return _

theorem issues_desiredTargets (config : PredictConfig) :
    (Monitor.issuing ServerResp issued).Permits
      (desiredTargets config storage : ServerTask C Nat) := by
  unfold desiredTargets
  cases config.desiredValidators with
  | some targets => exact issues_return targets
  | none =>
      refine .bind (issues_serve (here _ rfl)) fun answer => ?_
      refine .bind (issues_orFail _ _) ?_
      rintro (_ | decoded)
      · exact fun _ _ => trivial
      · exact issues_orFail _ _

end Issues

theorem reads_serve {op : ServerOp C} (reads : op.reads = true) : Reads (serve op) :=
  issues_serve reads

theorem reads_of_block {op : ServerOp C} {storage : AtBlock} (here : op.block = some storage) :
    op.reads = true := by
  cases op <;> first | rfl | cases here

theorem reads_chosenBlock (config : PredictConfig) :
    Reads (chosenBlock config : ServerTask C (Nat × AtBlock)) :=
  issues_chosenBlock config rfl rfl (fun _ => rfl) fun _ => rfl

theorem reads_getSs58Prefix : Reads (getSs58Prefix : ServerTask C Nat) :=
  issues_getSs58Prefix rfl fun _ => rfl

theorem reads_getChainProperties :
    Reads (getChainProperties : ServerTask C (Nat × Nat × String)) :=
  issues_getChainProperties rfl rfl rfl fun _ => rfl

section ReadsAt

variable (storage : AtBlock)

theorem readsAt_fetchSnapshots (bounds : ElectionBounds) (nPages currentRound : Nat)
    (overrides : Option OverridesConfig) :
    ReadsAt storage (fetchSnapshots (C := C) bounds nPages currentRound storage overrides) :=
  issues_fetchSnapshots bounds nPages currentRound
    (fun _ here => ⟨reads_of_block here, within_of_block here⟩)
    fun _ _ => ⟨rfl, within_of_none rfl⟩

theorem readsAt_desiredTargets (config : PredictConfig) :
    ReadsAt storage (desiredTargets config storage : ServerTask C Nat) :=
  issues_desiredTargets (fun _ here => ⟨reads_of_block here, within_of_block here⟩) config

end ReadsAt

theorem reads_fetchSnapshotData (blockNumber : Option Nat) :
    Reads (fetchSnapshotData blockNumber : ServerTask C SnapshotResult) := by
  refine .bind (reads_serve rfl) fun nPages => .bind ?_ ?_
  · cases blockNumber with
    | some number =>
        refine .bind (reads_serve rfl) fun answer => .bind (issues_orFail _ _) fun hash => ?_
        refine .bind (reads_serve rfl) fun answer => .bind (issues_orFail _ _) fun atBlock => ?_
        exact issues_return _
    | none =>
        refine .bind (reads_serve rfl) fun answer => .bind (issues_orFail _ _) fun atBlock => ?_
        exact .bind (reads_serve rfl) fun number => issues_return _
  · rintro ⟨number, atBlock⟩
    refine .bind (reads_serve rfl) fun answer => .bind (issues_orFail _ _) fun stored => ?_
    refine .bind (reads_serve rfl) fun bounds => ?_
    refine .bind (readsAt_fetchSnapshots atBlock bounds nPages _ none).reads ?_
    rintro ⟨targetSnapshot, voterSnapshot, dataSource⟩
    exact .bind reads_getSs58Prefix fun ss58Prefix => issues_return _

end Reads

section Runs

variable {env : Environment (ServerOp C) ServerResp} {history trace : Trace (ServerOp C) ServerResp}
  {α : Type}

theorem run_serve {op : ServerOp C} {value : ServerResp op} {store : Unit}
    (ended : run env (serve op) () history = ⟨.ok value, store, trace⟩) :
    value = env.answer history op ∧ trace = [⟨op, value⟩] := by
  cases ended
  exact ⟨rfl, rfl⟩

theorem run_orFail {ε : Type} {convert : ε → Error} {answer : Except ε α} {value : α}
    {store : Unit} (ended : run env (orFail convert answer : ServerTask C α) () history =
      ⟨.ok value, store, trace⟩) : answer = .ok value ∧ trace = [] := by
  cases answer with
  | ok given =>
      cases ended
      exact ⟨rfl, rfl⟩
  | error e => cases ended

theorem run_return {value returned : α} {store : Unit}
    (ended : run env (pure returned : ServerTask C α) () history = ⟨.ok value, store, trace⟩) :
    value = returned ∧ trace = [] := by
  cases ended
  exact ⟨rfl, rfl⟩

theorem run_read {ε β : Type} {op : ServerOp C} {convert : ε → Error}
    {answered : ServerResp op → Except ε α} {rest : α → ServerTask C β} {value : β} {store : Unit}
    (ended : run env (do
      let result ← orFail convert (answered (← serve op))
      rest result) () history = ⟨.ok value, store, trace⟩) :
    ∃ result later, answered (env.answer history op) = .ok result ∧
      run env (rest result) () (history ++ [⟨op, env.answer history op⟩]) =
        ⟨.ok value, store, later⟩ ∧
      trace = ⟨op, env.answer history op⟩ :: later := by
  obtain ⟨_, _, _, _, first, second, rfl⟩ := run_seq_ok ended
  obtain ⟨rfl, rfl⟩ := run_serve first
  obtain ⟨result, _, _, later, converted, onward, rfl⟩ := run_seq_ok second
  obtain ⟨given, rfl⟩ := run_orFail converted
  rw [List.append_nil] at onward
  exact ⟨result, later, given, onward, rfl⟩

end Runs

section Predicts

variable {α β : Type} {body : Bytes} {ghost : RequestGhost C}
variable {returns : β → RequestGhost C → Prop}

def holding (body : Bytes) (returns : α → RequestGhost C → Prop) :
    Outcome Error α → Unit → RequestGhost C → Prop
  | .ok value, _, ghost => ghost.Held body ∧ returns value ghost
  | _, _, ghost => ghost.Held body

theorem holding_seq {task : ServerTask C α} {rest : α → ServerTask C β}
    {middle : α → RequestGhost C → Prop}
    (first : wp predictMonitor task (holding body middle) () ghost)
    (second : ∀ value ghost, ghost.Held body → middle value ghost →
      wp predictMonitor (rest value) (holding body returns) () ghost) :
    wp predictMonitor (task >>= rest) (holding body returns) () ghost :=
  wp_seq first (fun value _ ghost reached => second value ghost reached.1 reached.2)
    (fun _ _ _ held => held) (fun _ _ held => held)

theorem Reads.seq {task : ServerTask C α} {rest : α → ServerTask C β} (reads : Reads task)
    (held : ghost.Held body)
    (second : ∀ value, wp predictMonitor (rest value) (holding body returns) () ghost) :
    wp predictMonitor (task >>= rest) (holding body returns) () ghost := by
  refine (wp_bind _ _).mpr (reads.follows ?_)
  rintro (value | error | _)
  · exact second value
  · exact held
  · exact held

theorem acquired_held (body : Bytes) : (acquired body : RequestGhost C).Held body := ⟨rfl, rfl⟩

theorem configured_held (body : Bytes) (config : PredictConfig) :
    (configured body config : RequestGhost C).Held body := ⟨rfl, rfl⟩

variable (body) (config : PredictConfig)

theorem configureSolver_follows :
    wp predictMonitor (configureSolver config : ServerTask C Unit)
      (holding body fun _ ghost => ghost = configured body config) () (acquired body) := by
  have held := acquired_held (C := C) body
  refine Reads.seq (reads_serve rfl) held fun answer => ?_
  refine Reads.seq (issues_orFail _ _) held fun current => ?_
  refine Reads.seq (reads_serve rfl) held fun answer => ?_
  refine Reads.seq (issues_orFail _ _) held fun _ => ?_
  refine ⟨⟨⟨rfl, rfl⟩, rfl⟩, fun _ _ => ⟨⟨⟨rfl, rfl⟩, rfl⟩, fun _ _ => ?_⟩⟩
  exact ⟨configured_held body config, rfl⟩

theorem mineSolution_follows (bounds : ElectionBounds)
    (targetSnapshot : TargetSnapshotPage C.Account bounds)
    (voterSnapshot : List (VoterSnapshotPage C.Account bounds))
    (nPages round desiredTargets : Nat) (doReduce : Bool) :
    wp predictMonitor (Predict.mineSolution bounds targetSnapshot voterSnapshot nPages round
        desiredTargets doReduce)
      (holding body (HasMined config)) () (configured body config) := by
  have held := configured_held (C := C) body config
  refine ⟨⟨⟨rfl, rfl, rfl, rfl⟩, rfl⟩, fun handle _ => ⟨⟨⟨rfl, rfl⟩, rfl⟩, ?_⟩⟩
  rintro (solution | message | message | message) _
  · exact ⟨held, rfl, rfl, handle, by simp [predictMonitor, Monitor.only, requestMonitor]⟩
  · exact held
  · exact held
  · exact held

theorem minePrediction_follows (nPages currentRound desired : Nat) (atBlock : AtBlock) :
    wp predictMonitor (minePrediction config nPages currentRound desired atBlock)
      (holding body fun mined ghost => ghost.HasMined config mined.1.solution) ()
      (configured body config : RequestGhost C) := by
  have held := configured_held (C := C) body config
  refine Reads.seq (reads_serve rfl) held fun bounds => ?_
  refine (readsAt_fetchSnapshots atBlock bounds nPages currentRound _).reads.seq held ?_
  rintro ⟨targetSnapshot, voterSnapshot, dataSource⟩
  refine (wp_bind _ _).mpr (wp_timeout_keeping (wp_mono (mineSolution_follows body config bounds
    targetSnapshot voterSnapshot _ currentRound desired config.doReduce) ?_)
    (fun ghost => predictMonitor_keeps_held) held fun ghost dropped => dropped)
  rintro (solution | error | _) _ ghost reached
  · exact reached
  · exact reached
  · exact reached

theorem runPrediction_follows :
    wp predictMonitor (runPrediction config)
      (holding body fun result ghost => ∃ solution, ghost.HasMined config solution ∧
        BuiltFrom solution result) () (acquired body : RequestGhost C) := by
  refine holding_seq (configureSolver_follows body config) ?_
  rintro _ ghost held rfl
  refine Reads.seq (reads_serve rfl) held fun nPages => ?_
  refine (reads_chosenBlock config).seq held ?_
  rintro ⟨blockNumber, atBlock⟩
  refine Reads.seq (reads_serve rfl) held fun answer => ?_
  refine Reads.seq (issues_orFail _ _) held fun round => ?_
  refine (readsAt_desiredTargets atBlock config).reads.seq held fun desired => ?_
  refine holding_seq (minePrediction_follows body config nPages round desired atBlock) ?_
  rintro ⟨mined, dataSource⟩ ghost held hasMined
  refine reads_getChainProperties.seq held ?_
  rintro ⟨ss58Prefix, tokenDecimals, tokenSymbol⟩
  refine ⟨⟨trivial, rfl⟩, fun seconds _ => (wp_ofOutcome _).mpr ?_⟩
  cases built : buildPredictionsFromSolution (C.printing (timestampText seconds))
    ⟨round, desired, blockNumber, ss58Prefix, tokenDecimals, tokenSymbol, dataSource⟩
    mined.bounds mined.solution mined.targetSnapshot mined.voterSnapshot with
  | ok prediction => exact ⟨held, mined.solution, hasMined, _, _, _, _, _, built⟩
  | err error => exact held
  | panic => exact held

def Answered (config : PredictConfig) (response : Response) (ghost : RequestGhost C) : Prop :=
  ∀ params prediction, response = .simulated params prediction → Echoes params config ∧
    ∃ solution, ghost.HasMined config solution ∧ BuiltFrom solution prediction

theorem predictResponse_follows :
    wp predictMonitor (predictResponse config) (holding body (Answered config)) ()
      (acquired body : RequestGhost C) := by
  refine (wp_bind _ _).mpr (wp_timeout_keeping (wp_mono (runPrediction_follows body config) ?_)
    (fun ghost => predictMonitor_keeps_held) (acquired_held body) ?_)
  · rintro (⟨validators, nominators⟩ | error | _) _ ghost reached
    · obtain ⟨held, mined⟩ := reached
      refine ⟨held, ?_⟩
      rintro params built same
      cases same
      exact ⟨⟨rfl, rfl⟩, mined⟩
    · exact ⟨reached, by rintro params built ⟨⟩⟩
    · exact reached
  · intro ghost held
    exact ⟨held, by rintro params built ⟨⟩⟩

end Predicts

section Routes

variable {config : PredictConfig} {response : Response} {ghost : RequestGhost C} {body : Bytes}

def Requested (body : Bytes) (config : PredictConfig) : Prop :=
  ∃ parsed, C.parseConfig body = some parsed ∧ config.algorithm = parsed.algorithm ∧
    config.balancingIterations = parsed.balancingIterations

def Plain (response : Response) : Prop :=
  ∀ params prediction, response ≠ .simulated params prediction

theorem Plain.allowed (plain : Plain response) :
    requestMonitor.allows ghost (.respond response) :=
  fun params prediction same => absurd same (plain params prediction)

theorem Plain.error (status : Nat) (message : String) :
    Plain (.error status message : Response) := by
  rintro params prediction ⟨⟩

theorem Answered.allowed (answered : Answered config response ghost) (held : ghost.Held body)
    (requested : Requested (C := C) body config) :
    requestMonitor.allows ghost (.respond response) := by
  intro params prediction same
  obtain ⟨⟨algorithm, iterations⟩, solution, ⟨set, balanced, handle, mined⟩, built⟩ :=
    answered params prediction same
  obtain ⟨parsed, parses, own, ownIterations⟩ := requested
  refine ⟨⟨body, ?_, parsed, parses, ?_, ?_⟩, ?_, ?_, (handle, solution), mined, built⟩
  · rw [held.2]
    exact List.mem_singleton_self body
  · rw [algorithm, own]
  · rw [iterations, ownIterations]
  · rw [algorithm, set]
  · rw [iterations, balanced]

theorem readConfig_follows (queryBlockNumber : Option Nat) :
    wp requestMonitor (readConfig queryBlockNumber)
      (fun outcome _ ghost =>
        (∀ response, outcome = .ok (.error response) → Plain response) ∧
        ∀ config, outcome = .ok (.ok config) → ∃ body,
          ghost = { initial with bodies := [body] } ∧ Requested (C := C) body config) ()
      (initial : RequestGhost C) := by
  refine ⟨trivial, ?_⟩
  rintro ((_ | _) | body) _
  · refine ⟨?_, by rintro config ⟨⟩⟩
    rintro response ⟨⟩
    exact Plain.error _ _
  · refine ⟨?_, by rintro config ⟨⟩⟩
    rintro response ⟨⟩
    exact Plain.error _ _
  · rcases parses : C.parseConfig body with _ | parsed
    · simp only [Program.bind, parses]
      refine ⟨?_, by rintro config ⟨⟩⟩
      rintro response ⟨⟩
      exact Plain.error _ _
    · simp only [Program.bind, parses]
      cases queryBlockNumber with
      | none =>
          refine ⟨by rintro response ⟨⟩, ?_⟩
          rintro config ⟨⟩
          exact ⟨body, rfl, parsed, parses, rfl, rfl⟩
      | some number =>
          refine ⟨by rintro response ⟨⟩, ?_⟩
          rintro config ⟨⟩
          exact ⟨body, rfl, parsed, parses, rfl, rfl⟩

theorem simulatePermitted_follows (requested : Requested (C := C) body config) :
    wp requestMonitor (simulatePermitted config) (fun _ _ _ => True) ()
      (acquired body : RequestGhost C) := by
  refine (wp_bind _ _).mpr ((wp_unwound _).mpr (wp_of_only (wp_timeout_keeping (wp_mono
    (predictResponse_follows body config) ?_) (fun ghost => predictMonitor_keeps_held)
    (acquired_held body) ?_)))
  · rintro (response | error | _) _ ghost reached
    · refine ⟨reached.1.1, fun _ _ => ⟨?_, fun _ _ => trivial⟩⟩
      exact reached.2.allowed reached.1 requested
    · exact ⟨reached.1, fun _ _ => trivial⟩
    · exact ⟨reached.1, fun _ _ => trivial⟩
  · intro ghost held
    exact ⟨held.1, fun _ _ => trivial⟩

theorem simulate_follows (queryBlockNumber : Option Nat) :
    wp requestMonitor (simulate queryBlockNumber) (fun _ _ _ => True) ()
      (initial : RequestGhost C) := by
  refine (wp_bind _ _).mpr (wp_timeout (wp_mono (readConfig_follows queryBlockNumber) ?_) ?_)
  · rintro (result | error | _) _ ghost ⟨rejects, accepts⟩
    · rcases result with response | config
      · exact ⟨(rejects response rfl).allowed, fun _ _ => trivial⟩
      · obtain ⟨body, rfl, requested⟩ := accepts config rfl
        refine ⟨rfl, ?_⟩
        rintro (_ | _) _
        · exact ⟨(Plain.error _ _).allowed, fun _ _ => trivial⟩
        · exact simulatePermitted_follows requested
    · trivial
    · trivial
  · intro passed
    trivial

theorem snapshotResponse_follows (queryBlockNumber : Option Nat) :
    wp predictMonitor (snapshotResponse queryBlockNumber)
      (fun outcome _ _ => ∀ response, outcome = .ok response → Plain response) ()
      (initial : RequestGhost C) := by
  have reads : Reads (serverTimeout (C := C) (fetchSnapshotData queryBlockNumber)) :=
    (reads_fetchSnapshotData queryBlockNumber).timeout _
  refine (wp_bind _ _).mpr (reads.follows ?_)
  rintro ((_ | _ | result) | error | _)
  · rintro response ⟨⟩
    exact Plain.error _ _
  · rintro response ⟨⟩
    exact Plain.error _ _
  · rintro response ⟨⟩ params prediction ⟨⟩
  · rintro response ⟨⟩
  · rintro response ⟨⟩

theorem handleRequest_follows (request : Request) :
    wp requestMonitor (handleRequest request) (fun _ _ _ => True) ()
      (initial : RequestGhost C) := by
  unfold handleRequest
  split
  · exact simulate_follows request.queryBlockNumber
  · split
    · refine (wp_bind _ _).mpr (wp_timeout (wp_mono (wp_of_only
        (snapshotResponse_follows request.queryBlockNumber)) ?_) ?_)
      · rintro (response | error | _) _ ghost plain
        · exact ⟨(plain response rfl).allowed, fun _ _ => trivial⟩
        · trivial
        · trivial
      · intro passed
        trivial
    · exact ⟨(Plain.error _ _).allowed, fun _ _ => trivial⟩

end Routes

end LeanStakingMiner
