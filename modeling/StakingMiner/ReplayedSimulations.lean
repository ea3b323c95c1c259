import StakingMiner.EchoedParameters
import StakingMiner.PredictionLogic

/-!
Sending echoed run parameters back to `/simulate`. While the chain answers as before and the
solver is a function of its input and of the process-wide parameters, the prediction is the same
but for its timestamp: the clock goes on.
-/

namespace LeanStakingMiner

open LeanJson LeanProgram LeanPaging

variable {C : PredictChain}

def setSolver (settings : Nat × ElectionAlgorithm) (event : Event (ServerOp C) ServerResp) :
    Nat × ElectionAlgorithm :=
  match event.1 with
  | .setBalancingIterations iterations => (iterations, settings.2)
  | .setAlgorithm algorithm => (settings.1, algorithm)
  | _ => settings

/-- The process-wide parameters of the solver after a history. -/
def solverSettings (history : Trace (ServerOp C) ServerResp) : Nat × ElectionAlgorithm :=
  history.foldl setSolver (10, .seqPhragmen)

/-- The chain answers every read as it did before, and the current block is the one of its
number. Requests come one at a time and are in time. The solver is a function of its input and
its parameters. -/
structure Reproducible (env : Environment (ServerOp C) ServerResp) : Prop where
  quiet : env.Quiet
  permits : ∀ history, env.answer history .tryAcquirePermit = true
  reads : ∀ history other op, op.reads = true → env.answer history op = env.answer other op
  current : ∀ history number, env.answer history .latestBlockNumber = .ok number →
    ∃ hash, env.answer history (.blockHash number) = .ok hash ∧
      env.answer history (.storageAt hash) = env.answer history .atCurrentBlock
  solves : ∀ history other bounds input handle otherHandle,
    solverSettings history = solverSettings other →
    env.answer (history ++ [⟨.spawnMining bounds input, handle⟩]) (.joinMining handle) =
      env.answer (other ++ [⟨.spawnMining bounds input, otherHandle⟩]) (.joinMining otherHandle)

variable {α β : Type} {env : Environment (ServerOp C) ServerResp}
variable {history : Trace (ServerOp C) ServerResp} {settings : Nat × ElectionAlgorithm}

theorem solverSettings_reads {passed : Trace (ServerOp C) ServerResp}
    (reads : ∀ event ∈ passed, event.1.reads = true) :
    solverSettings (history ++ passed) = solverSettings history := by
  induction passed generalizing history with
  | nil => rw [List.append_nil]
  | cons event rest ih =>
      obtain ⟨here, later⟩ := List.forall_mem_cons.mp reads
      rw [List.append_cons, ih later, solverSettings, List.foldl_append]
      obtain ⟨op, answer⟩ := event
      cases op <;> first | rfl | cases here

def Returns (env : Environment (ServerOp C) ServerResp) (settings : Nat × ElectionAlgorithm)
    (task : ServerTask C α) (outcome : Outcome Error α) : Prop :=
  ∀ history, solverSettings history = settings → Ends env task (fun ended _ after =>
    ended = outcome ∧ solverSettings after = settings) () history

def Steady (env : Environment (ServerOp C) ServerResp) (settings : Nat × ElectionAlgorithm)
    (task : ServerTask C α) : Prop :=
  ∃ outcome, Returns env settings task outcome

theorem Steady.returns {task : ServerTask C α} (steady : Steady env settings task)
    (set : solverSettings history = settings) :
    Returns env settings task (run env task () history).outcome := by
  obtain ⟨outcome, returns⟩ := steady
  rwa [(returns history set).1]

theorem Returns.seq {task : ServerTask C α} {rest : α → ServerTask C β} {value : α}
    {post : Outcome Error β → Unit → Trace (ServerOp C) ServerResp → Prop}
    (first : Returns env settings task (.ok value))
    (second : ∀ after, solverSettings after = settings → Ends env (rest value) post () after)
    (set : solverSettings history = settings) : Ends env (task >>= rest) post () history := by
  rw [ends_bind]
  refine (first history set).mono ?_
  rintro _ _ after ⟨rfl, kept⟩
  exact second after kept

theorem Returns.bind {task : ServerTask C α} {rest : α → ServerTask C β} {value : α}
    {outcome : Outcome Error β} (first : Returns env settings task (.ok value))
    (second : Returns env settings (rest value) outcome) :
    Returns env settings (task >>= rest) outcome :=
  fun _ => first.seq second

theorem Steady.bind {task : ServerTask C α} {rest : α → ServerTask C β}
    (first : Steady env settings task) (second : ∀ value, Steady env settings (rest value)) :
    Steady env settings (task >>= rest) := by
  obtain ⟨value | error | _, returns⟩ := first
  · obtain ⟨outcome, later⟩ := second value
    exact ⟨outcome, returns.bind later⟩
  · refine ⟨.err error, fun history set => ?_⟩
    rw [ends_bind]
    refine (returns history set).mono ?_
    rintro _ _ after ⟨rfl, kept⟩
    exact ⟨rfl, kept⟩
  · refine ⟨.panic, fun history set => ?_⟩
    rw [ends_bind]
    refine (returns history set).mono ?_
    rintro _ _ after ⟨rfl, kept⟩
    exact ⟨rfl, kept⟩

theorem Steady.peel {task : ServerTask C α} {rest : α → ServerTask C β} {result : β}
    (steady : Steady env settings task) (set : solverSettings history = settings)
    (ended : (run env (task >>= rest) () history).outcome = .ok result) :
    ∃ value after, Returns env settings task (.ok value) ∧ solverSettings after = settings ∧
      (run env (rest value) () after).outcome = .ok result := by
  obtain ⟨value, first, later⟩ := ok_of_bind ended
  have returns := steady.returns set
  rw [first] at returns
  exact ⟨value, _, returns, (returns history set).2, later⟩

theorem ends_serve {op : ServerOp C} {rest : ServerResp op → ServerTask C β}
    {post : Outcome Error β → Unit → Trace (ServerOp C) ServerResp → Prop} :
    Ends env (serve op >>= rest) post () history ↔
      Ends env (rest (env.answer history op)) post ()
        (history ++ [⟨op, env.answer history op⟩]) := by
  rw [ends_bind]
  exact ends_perform op

section Reproducing

variable (reproducible : Reproducible env)
include reproducible

theorem Reads.steady {task : ServerTask C α} (reads : Reads task) : Steady env settings task := by
  refine ⟨(run env task () []).outcome, fun history set => ?_⟩
  have same := run_steady reproducible.quiet reproducible.reads (reads () ()) history []
  refine ⟨by rw [same], ?_⟩
  rw [solverSettings_reads (run_issued env history (reads () ())), set]

theorem Returns.timed {task : ServerTask C α} {outcome : Outcome Error α}
    (returns : Returns env settings task outcome) :
    Returns env settings (serverTimeout task) outcome.inTime := by
  intro history set
  rw [serverTimeout, ends_timeout reproducible.quiet]
  refine (returns history set).mono ?_
  rintro ended _ after ⟨rfl, kept⟩
  cases ended <;> exact ⟨rfl, kept⟩

theorem mineSolution_steady (bounds : ElectionBounds)
    (targetSnapshot : TargetSnapshotPage C.Account bounds)
    (voterSnapshot : List (VoterSnapshotPage C.Account bounds))
    (nPages round desiredTargets : Nat) (doReduce : Bool) :
    Steady env settings (Predict.mineSolution bounds targetSnapshot voterSnapshot nPages round
      desiredTargets doReduce) := by
  obtain ⟨input, mines⟩ : ∃ input, Predict.mineSolution bounds targetSnapshot voterSnapshot nPages
      round desiredTargets doReduce = (do
        let handle ← serve (.spawnMining bounds input)
        let outcome ← serve (.joinMining handle)
        orFail id outcome.result) := ⟨_, rfl⟩
  let configured : Trace (ServerOp C) ServerResp :=
    [⟨.setBalancingIterations settings.1, ()⟩, ⟨.setAlgorithm settings.2, ()⟩]
  let handle : Nat := env.answer configured (.spawnMining bounds input)
  let joined : MiningOutcome C.Solution :=
    env.answer (configured ++ [⟨.spawnMining bounds input, handle⟩]) (.joinMining handle)
  have reads : Reads (orFail id joined.result : ServerTask C C.Solution) := issues_orFail id _
  obtain ⟨outcome, returns⟩ := reads.steady reproducible
  refine ⟨outcome, fun history set => ?_⟩
  have solved := reproducible.solves history configured bounds input
    (env.answer history (.spawnMining bounds input)) handle set
  rw [mines, ends_serve, ends_serve, solved]
  refine returns _ ?_
  rw [solverSettings, List.foldl_append, List.foldl_append]
  exact set

theorem minePrediction_steady (config : PredictConfig) (nPages currentRound desired : Nat)
    (atBlock : AtBlock) :
    Steady env settings (minePrediction config nPages currentRound desired atBlock) := by
  refine .bind (Reads.steady reproducible (reads_serve rfl)) fun bounds => ?_
  refine .bind ((readsAt_fetchSnapshots atBlock bounds nPages currentRound
    config.overrides).reads.steady reproducible) ?_
  rintro ⟨targetSnapshot, voterSnapshot, dataSource⟩
  obtain ⟨_, mined⟩ := mineSolution_steady reproducible bounds targetSnapshot voterSnapshot
    (max nPages voterSnapshot.length) currentRound desired config.doReduce
  refine .bind ⟨_, Returns.timed reproducible mined⟩ ?_
  rintro (_ | _ | solution)
  · exact Reads.steady reproducible fun _ _ => trivial
  · exact Reads.steady reproducible fun _ _ => trivial
  · exact Reads.steady reproducible fun _ _ => trivial

theorem configureSolver_sets {config : PredictConfig}
    (configured : (run env (configureSolver config) () history).outcome = .ok ())
    (other : Trace (ServerOp C) ServerResp) :
    Ends env (configureSolver config) (fun outcome _ after => outcome = .ok () ∧
      solverSettings after = (config.balancingIterations, config.algorithm)) () other := by
  have ended : Ends env (configureSolver config) (fun outcome _ _ => outcome = .ok ()) () history :=
    configured
  rw [configureSolver, ends_serve] at ended ⊢
  rw [reproducible.reads other history .atCurrentBlock rfl]
  cases located : env.answer history .atCurrentBlock with
  | error error =>
      rw [located] at ended
      cases ended
  | ok current =>
      rw [located] at ended
      change Ends env (serve (.updateMetadataConstants current) >>= _) _ _ _ at ended
      change Ends env (serve (.updateMetadataConstants current) >>= _) _ _ _
      rw [ends_serve] at ended ⊢
      rw [reproducible.reads _ (history ++ [⟨.atCurrentBlock, .ok current⟩])
        (.updateMetadataConstants current) rfl]
      cases updated : env.answer (history ++ [⟨.atCurrentBlock, .ok current⟩])
          (.updateMetadataConstants current) with
      | error error =>
          rw [updated] at ended
          cases ended
      | ok _ =>
          change Ends env (serve (.setBalancingIterations _) >>= _) _ _ _
          rw [ends_serve]
          refine (ends_perform _).mpr ⟨rfl, ?_⟩
          rw [solverSettings, List.foldl_append, List.foldl_append]
          rfl

theorem chosenBlock_replayed {config : PredictConfig} {number : Nat} {atBlock : AtBlock}
    (chosen : Returns env settings (chosenBlock config) (.ok (number, atBlock)))
    (desired : Option Nat) :
    Returns env settings (chosenBlock
      { config with desiredValidators := desired, blockNumber := some number })
      (.ok (number, atBlock)) := by
  intro history set
  have ended := chosen history set
  unfold chosenBlock at ended ⊢
  cases requested : config.blockNumber with
  | some given =>
      rw [requested] at ended
      obtain ⟨_, _, later⟩ := ok_of_bind ended.1
      obtain ⟨_, _, later⟩ := ok_of_bind later
      obtain ⟨_, _, later⟩ := ok_of_bind later
      obtain ⟨_, _, later⟩ := ok_of_bind later
      obtain rfl : given = number := (Prod.mk.inj (Outcome.ok.inj later)).1
      exact ended
  | none =>
      rw [requested] at ended
      dsimp only at ended ⊢
      rw [ends_serve] at ended
      cases latest : env.answer history .latestBlockNumber with
      | error error =>
          rw [latest] at ended
          cases ended.1
      | ok newest =>
          rw [latest] at ended
          change Ends env (serve .atCurrentBlock >>= _) _ _ _ at ended
          rw [ends_serve, reproducible.reads _ history .atCurrentBlock rfl] at ended
          cases located : env.answer history .atCurrentBlock with
          | error error =>
              rw [located] at ended
              cases ended.1
          | ok block =>
              rw [located] at ended
              obtain ⟨rfl, rfl⟩ := Prod.mk.inj (Outcome.ok.inj ended.1)
              obtain ⟨hash, found, same⟩ := reproducible.current history newest latest
              rw [ends_serve, found]
              change Ends env (serve (.storageAt hash) >>= _) _ _ _
              rw [ends_serve, reproducible.reads _ history (.storageAt hash) rfl, same, located]
              refine (ends_return _).mpr ⟨rfl, ?_⟩
              rw [solverSettings, List.foldl_append, List.foldl_append]
              exact set

omit reproducible in
theorem desiredTargets_replayed (config : PredictConfig) (block : Option Nat) (atBlock : AtBlock)
    (desired : Nat) : Returns env settings (desiredTargets
      { config with desiredValidators := some desired, blockNumber := block } atBlock)
      (.ok desired) :=
  fun _ set => (ends_return desired).mpr ⟨rfl, set⟩

theorem runPrediction_replayed {config : PredictConfig} {prediction : Prediction}
    (ended : (run env (runPrediction config) () history).outcome = .ok prediction)
    (other : Trace (ServerOp C) ServerResp) :
    Ends env (runPrediction { config with
        desiredValidators := some prediction.1.metadata.desiredValidators
        blockNumber := some prediction.1.metadata.blockNumber })
      (fun outcome _ _ => ∃ timestamp, outcome = .ok (stamped timestamp prediction)) () other := by
  rw [runPrediction] at ended
  obtain ⟨_, configured, ended⟩ := ok_of_bind ended
  have set := (configureSolver_sets reproducible configured history).2
  obtain ⟨nPages, _, paged, set, ended⟩ :=
    Steady.peel (Reads.steady reproducible (reads_serve rfl)) set ended
  obtain ⟨⟨number, atBlock⟩, _, chosen, set, ended⟩ :=
    Steady.peel ((reads_chosenBlock config).steady reproducible) set ended
  obtain ⟨answer, _, asked, set, ended⟩ :=
    Steady.peel (Reads.steady reproducible (reads_serve rfl)) set ended
  obtain ⟨round, _, decoded, set, ended⟩ :=
    Steady.peel (Reads.steady reproducible (issues_orFail _ _)) set ended
  obtain ⟨desired, _, targeted, set, ended⟩ :=
    Steady.peel ((readsAt_desiredTargets atBlock config).reads.steady reproducible) set ended
  obtain ⟨⟨mined, dataSource⟩, _, mining, set, ended⟩ :=
    Steady.peel (minePrediction_steady reproducible config nPages round desired atBlock) set ended
  obtain ⟨⟨ss58Prefix, tokenDecimals, tokenSymbol⟩, _, described, set, ended⟩ :=
    Steady.peel (reads_getChainProperties.steady reproducible) set ended
  obtain ⟨seconds, _, built⟩ := ok_of_bind ended
  rw [run_ofOutcome] at built
  have metadata := metadata_of_built built
  rw [metadata, runPrediction, ends_bind]
  refine (configureSolver_sets reproducible configured other).mono ?_
  rintro _ _ after ⟨rfl, set⟩
  rw [continued_ok]
  refine paged.seq (fun _ set => ?_) set
  refine (chosenBlock_replayed reproducible chosen (some desired)).seq (fun _ set => ?_) set
  refine asked.seq (fun _ set => decoded.seq (fun _ set => ?_) set) set
  refine (desiredTargets_replayed config (some number) atBlock desired).seq (fun _ set => ?_) set
  refine Returns.seq mining (fun _ set => described.seq (fun later _ => ?_) set) set
  rw [ends_serve]
  exact ⟨_, by rw [run_ofOutcome]; exact built_stamped built _⟩

end Reproducing

def echoedParameters (config : PredictConfig) (metadata : PredictionMetadata) :
    SimulateRunParameters :=
  ⟨metadata.blockNumber, metadata.desiredValidators, config.balancingIterations, config.doReduce,
    config.algorithm, config.overrides⟩

section Requests

theorem predictResponse_simulated_iff (quiet : env.Quiet) {config : PredictConfig}
    {params : SimulateRunParameters} {prediction : Prediction} :
    (run env (predictResponse config) () history).outcome = .ok (.simulated params prediction) ↔
      (run env (runPrediction config) () history).outcome = .ok prediction ∧
        params = echoedParameters config prediction.1.metadata := by
  rw [predictResponse, serverTimeout, run_bind, run_timeout env quiet]
  generalize run env (runPrediction config) () history = result
  rcases result with ⟨predicted | error | _, _, passed⟩
  · constructor
    · intro ended
      obtain ⟨rfl, rfl⟩ := Response.simulated.inj (Outcome.ok.inj ended)
      exact ⟨rfl, rfl⟩
    · rintro ⟨same, rfl⟩
      obtain rfl := Outcome.ok.inj same
      rfl
  · refine iff_of_false (by rintro ⟨⟩) ?_
    rintro ⟨same, _⟩
    cases same
  · refine iff_of_false (by rintro ⟨⟩) ?_
    rintro ⟨same, _⟩
    cases same

theorem permitted_responses_iff (quiet : env.Quiet) {config : PredictConfig}
    {response : Response} :
    responses (run env (simulatePermitted config) () history).trace = [response] ↔
      (run env (predictResponse config) () history).outcome = .ok response := by
  have silent : responses (run env (predictResponse config) () history).trace = [] :=
    responses_predictResponse config history
  rw [simulatePermitted, serverTimeout, run_bind, run_unwound, run_timeout env quiet]
  generalize run env (predictResponse config) () history = result at silent ⊢
  rcases result with ⟨given | error | _, _, passed⟩
  · change responses (passed ++ [_, ⟨.respond given, _⟩]) = _ ↔ _
    rw [responses_append, silent]
    change [given] = [response] ↔ _
    rw [List.singleton_inj, Outcome.ok.injEq]
  · change responses (passed ++ [_]) = _ ↔ _
    rw [responses_append, silent]
    exact iff_of_false (by rintro ⟨⟩) (by rintro ⟨⟩)
  · change responses (passed ++ [_]) = _ ↔ _
    rw [responses_append, silent]
    exact iff_of_false (by rintro ⟨⟩) (by rintro ⟨⟩)

def requestedConfig (queryBlockNumber : Option Nat) (parsed : PredictConfig) : PredictConfig :=
  { parsed with blockNumber := queryBlockNumber.or parsed.blockNumber }

theorem run_readConfig {bytes : Bytes} {parsed : PredictConfig}
    (collected : env.answer history .collectBody = .ok bytes)
    (parses : C.parseConfig bytes = some parsed) (queryBlockNumber : Option Nat) :
    run env (readConfig queryBlockNumber) () history =
      ⟨.ok (.ok (requestedConfig queryBlockNumber parsed)), (), [⟨.collectBody, .ok bytes⟩]⟩ := by
  have served : run env (serve .collectBody : ServerTask C _) () history =
      ⟨.ok (.ok bytes), (), [⟨.collectBody, .ok bytes⟩]⟩ := by
    simp only [serve, Program.perform, run, Result.prepend, collected]
  refine run_seq served ?_
  simp only [parses]
  cases queryBlockNumber <;> rfl

theorem simulate_responses_iff (reproducible : Reproducible env) {bytes : Bytes}
    {parsed : PredictConfig} (collected : env.answer history .collectBody = .ok bytes)
    (parses : C.parseConfig bytes = some parsed) (queryBlockNumber : Option Nat)
    {response : Response} :
    responses (run env (simulate queryBlockNumber) () history).trace = [response] ↔
      (run env (predictResponse (requestedConfig queryBlockNumber parsed)) ()
        (history ++ [⟨.collectBody, .ok bytes⟩] ++ [⟨.tryAcquirePermit, true⟩])).outcome =
          .ok response := by
  have acquired (before : Trace (ServerOp C) ServerResp) :
      run env (serve .tryAcquirePermit : ServerTask C Bool) () before =
        ⟨.ok true, (), [⟨.tryAcquirePermit, true⟩]⟩ := by
    simp only [serve, Program.perform, run, Result.prepend, reproducible.permits]
  rw [simulate, run_bind, serverTimeout, run_timeout env reproducible.quiet,
    run_readConfig collected parses]
  change responses ([⟨.collectBody, .ok bytes⟩] ++
    (run env (serve .tryAcquirePermit >>= _) () _).trace) = _ ↔ _
  rw [responses_append, run_bind, acquired]
  exact permitted_responses_iff reproducible.quiet

theorem simulate_refused (quiet : env.Quiet) {queryBlockNumber : Option Nat} {status : Nat}
    {message : String} {answer : Except BodyError Bytes}
    (read : run env (readConfig queryBlockNumber) () history =
      ⟨.ok (.error (.error status message)), (), [⟨.collectBody, answer⟩]⟩) :
    responses (run env (simulate queryBlockNumber) () history).trace =
      [.error status message] := by
  rw [simulate, run_bind, serverTimeout, run_timeout env quiet, read]
  rfl

theorem simulate_simulated (reproducible : Reproducible env) {queryBlockNumber : Option Nat}
    {params : SimulateRunParameters} {prediction : Prediction}
    (answered : responses (run env (simulate queryBlockNumber) () history).trace =
      [.simulated params prediction]) :
    ∃ bytes parsed before, C.parseConfig bytes = some parsed ∧
      (run env (runPrediction (requestedConfig queryBlockNumber parsed)) () before).outcome =
        .ok prediction ∧
      params = echoedParameters (requestedConfig queryBlockNumber parsed)
        prediction.1.metadata := by
  have served : run env (serve .collectBody : ServerTask C _) () history =
      ⟨.ok (env.answer history .collectBody), (),
        [⟨.collectBody, env.answer history .collectBody⟩]⟩ :=
    rfl
  rcases collected : env.answer history .collectBody with (_ | _) | bytes
  · rw [collected] at served
    rw [simulate_refused reproducible.quiet (run_seq served rfl)] at answered
    cases answered
  · rw [collected] at served
    rw [simulate_refused reproducible.quiet (run_seq served rfl)] at answered
    cases answered
  · cases parses : C.parseConfig bytes with
    | none =>
        rw [collected] at served
        have read : run env (readConfig queryBlockNumber) () history =
            ⟨.ok (.error (.error 400 "Invalid JSON")), (), [⟨.collectBody, .ok bytes⟩]⟩ := by
          refine run_seq served ?_
          simp only [parses]
          rfl
        rw [simulate_refused reproducible.quiet read] at answered
        cases answered
    | some parsed =>
        have predicted := (simulate_responses_iff reproducible collected parses _).mp answered
        obtain ⟨ended, same⟩ := (predictResponse_simulated_iff reproducible.quiet).mp predicted
        exact ⟨bytes, parsed, _, parses, ended, same⟩

end Requests

/-- Run parameters that `/simulate` echoed, sent back as the body of a request with their fields
in any order, give the same prediction up to its timestamp and are echoed again, while the chain
and the solver answer as before. -/
theorem echoed_parameters_reproduce_prediction (C : PredictChain)
    (parseJson : Bytes → Option Json)
    (env : Environment (ServerOp (C.reading parseJson)) ServerResp)
    (reproducible : Reproducible env) (query : List (String × String))
    (params : SimulateRunParameters) (prediction : Prediction)
    (history later : Trace (ServerOp (C.reading parseJson)) ServerResp)
    (answered : responses (run env (handleRequest ⟨.post, "/simulate", query⟩) () history).trace =
      [.simulated params prediction])
    (narrow : params.blockNumber < 2 ^ 32 ∧ params.desiredValidators < 2 ^ 32)
    (body : Bytes) (json : Json) (received : env.answer later .collectBody = .ok body)
    (text : parseJson body = some json)
    (echoed : Reordered (encodeSimulateRunParameters params) json) :
    ∃ timestamp, responses (run env (handleRequest ⟨.post, "/simulate", []⟩) () later).trace =
      [.simulated params (stamped timestamp prediction)] := by
  have first : responses (run env (simulate (Request.queryBlockNumber ⟨.post, "/simulate", query⟩))
      () history).trace = [.simulated params prediction] := answered
  obtain ⟨bytes, parsed, before, parses, predicted, same⟩ :=
    simulate_simulated reproducible first
  obtain ⟨original, _, decoded⟩ := Option.bind_eq_some_iff.mp parses
  obtain ⟨iterations, overrides⟩ := decodePredictConfig_fits decoded
  have fits : params.Fits := by
    refine ⟨narrow.1, narrow.2, ?_, ?_⟩
    · rw [same]
      exact iterations
    · rw [same]
      exact overrides
  have again : (C.reading parseJson).parseConfig body = some params.config := by
    change (parseJson body).bind decodePredictConfig = _
    rw [text]
    exact decodePredictConfig_echoed fits echoed
  obtain ⟨timestamp, replayed⟩ := runPrediction_replayed reproducible predicted
    (later ++ [⟨.collectBody, .ok body⟩] ++ [⟨.tryAcquirePermit, true⟩])
  refine ⟨timestamp, (simulate_responses_iff reproducible received again none).mpr ?_⟩
  refine (predictResponse_simulated_iff reproducible.quiet).mpr ⟨?_, ?_⟩
  · rw [same]
    exact replayed
  · rw [same]
    rfl

section Sample

def replayedParameters : SimulateRunParameters := ⟨0, 1, 7, false, .phragmms, none⟩

def replayTexts : Bytes → Option Json
  | [0] => some (.object [("algorithm", .string "Phragmms"),
      ("balancing_iterations", Encoder.unsigned 7)])
  | [1] => some (.object [("algorithm", .string "Phragmms"), ("do_reduce", .bool false),
      ("balancing_iterations", Encoder.unsigned 7), ("desired_validators", Encoder.unsigned 1),
      ("block_number", Encoder.unsigned 0)])
  | _ => none

def replayAnswer (history : Trace (ServerOp (sampleReader replayTexts)) ServerResp) :
    (op : ServerOp (sampleReader replayTexts)) → ServerResp op
  | .collectBody => .ok (if history.isEmpty then [0] else [1])
  | .joinMining _ => .mined (solverSettings history).1
  | .systemTime => some history.length
  | op => succeeding (0 : Nat) op

def replayServer : Environment (ServerOp (sampleReader replayTexts)) ServerResp :=
  ⟨replayAnswer, fun _ _ => false⟩

theorem replayServer_reproducible : Reproducible replayServer where
  quiet _ _ := rfl
  permits _ := rfl
  reads _ _ op reads := by cases op <;> first | rfl | cases reads
  current _ number latest := by
    cases latest
    exact ⟨0, rfl, rfl⟩
  solves history other bounds input handle otherHandle same := by
    have kept (before : Trace (ServerOp (sampleReader replayTexts)) ServerResp) (handle : Nat) :
        solverSettings (before ++ [⟨.spawnMining bounds input, handle⟩]) =
          solverSettings before := by
      rw [solverSettings, List.foldl_append]
      rfl
    change MiningOutcome.mined _ = MiningOutcome.mined _
    rw [kept, kept, same]

theorem replayed_echo : Reordered (encodeSimulateRunParameters replayedParameters)
    (.object [("algorithm", .string "Phragmms"), ("do_reduce", .bool false),
      ("balancing_iterations", Encoder.unsigned 7), ("desired_validators", Encoder.unsigned 1),
      ("block_number", Encoder.unsigned 0)]) :=
  .object rfl (List.forall₂_same.mpr fun value _ => Reordered.refl value)
    (List.reverse_perm _).symm

def firstSimulation : Trace (ServerOp (sampleReader replayTexts)) ServerResp :=
  (run replayServer (handleRequest ⟨.post, "/simulate", []⟩) () []).trace

def replayedPrediction (timestamp : String) : Prediction :=
  (⟨⟨timestamp, 1, 0, 0, some ⟨7, 0, 0⟩, "snapshot"⟩, []⟩, ⟨[]⟩)

attribute [local semireducible] List.mergeSort

set_option maxRecDepth 4000 in
theorem echoed_parameters_reproduce_prediction_phragmms :
    responses firstSimulation = [.simulated replayedParameters (replayedPrediction "19")] ∧
      ∃ timestamp, responses (run replayServer (handleRequest ⟨.post, "/simulate", []⟩) ()
        firstSimulation).trace =
          [.simulated replayedParameters (stamped timestamp (replayedPrediction "19"))] := by
  have answered : responses firstSimulation =
      [.simulated replayedParameters (replayedPrediction "19")] := rfl
  refine ⟨answered, ?_⟩
  exact echoed_parameters_reproduce_prediction samplePredictChain replayTexts replayServer
    replayServer_reproducible [] replayedParameters (replayedPrediction "19") [] firstSimulation
    answered ⟨by decide, by decide⟩ [1] _ rfl rfl replayed_echo

end Sample

end LeanStakingMiner
