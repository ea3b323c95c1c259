import StakingMiner.FileIsolation
import StakingMiner.ProgramEnds

/-!
A `/simulate` request whose body gives the overrides as a string: the server reads the file of
that name, as it does for the command line, and the response shows whether it could.
-/

namespace LeanStakingMiner

open LeanJson LeanProgram LeanPaging

section Answered

variable {C : PredictChain} {env : Environment (ServerOp C) ServerResp}

theorem responses_append (first second : Trace (ServerOp C) ServerResp) :
    responses (first ++ second) = responses first ++ responses second :=
  List.filterMap_append

theorem responses_predictResponse (config : PredictConfig)
    (history : Trace (ServerOp C) ServerResp) :
    responses (run env (predictResponse config) () history).trace = [] := by
  rw [responses, List.filterMap_eq_nil_iff]
  intro event member
  have predicts := issued_of_wp (predictResponse_follows [] config) (fun _ _ _ => trivial)
    (fun _ _ allowed => allowed.2) history event member
  split
  · next response same =>
      rw [same] at predicts
      cases predicts
  · rfl

theorem permitted_responds (quiet : env.Quiet) {config : PredictConfig} {response : Response}
    (gives : Gives env (predictResponse config) (.ok response))
    (history : Trace (ServerOp C) ServerResp) :
    responses (run env (simulatePermitted config) () history).trace = [response] := by
  have timed := run_timeout env quiet ServerOp.suspends (predictResponse config) () history
  rw [gives history] at timed
  rw [simulatePermitted, serverTimeout, run_bind, run_unwound, timed]
  change responses ((run env (predictResponse config) () history).trace ++ _) = _
  rw [responses_append, responses_predictResponse]
  rfl

theorem readConfig_accepted {bytes : Bytes} {parsed : PredictConfig}
    {history : Trace (ServerOp C) ServerResp}
    (collected : env.answer history .collectBody = .ok bytes)
    (parses : C.parseConfig bytes = some parsed) (queryBlockNumber : Option Nat) :
    ∃ config, config.overrides = parsed.overrides ∧
      run env (readConfig queryBlockNumber) () history =
        ⟨.ok (.ok config), (), [⟨.collectBody, .ok bytes⟩]⟩ := by
  have served : run env (serve .collectBody : ServerTask C _) () history =
      ⟨.ok (.ok bytes), (), [⟨.collectBody, .ok bytes⟩]⟩ := by
    simp only [serve, Program.perform, run, Result.prepend, collected]
  cases queryBlockNumber with
  | none =>
      refine ⟨parsed, rfl, run_seq served ?_⟩
      simp only [parses]
      rfl
  | some number =>
      refine ⟨{ parsed with blockNumber := some number }, rfl, run_seq served ?_⟩
      simp only [parses]
      rfl

theorem simulate_responds (quiet : env.Quiet) {bytes : Bytes} {parsed : PredictConfig}
    (collected : ∀ history, env.answer history .collectBody = .ok bytes)
    (permitted : ∀ history, env.answer history .tryAcquirePermit = true)
    (parses : C.parseConfig bytes = some parsed) (queryBlockNumber : Option Nat) :
    ∃ config, config.overrides = parsed.overrides ∧ ∀ response,
      Gives env (predictResponse config) (.ok response) →
      responses (run env (simulate queryBlockNumber) () []).trace = [response] := by
  obtain ⟨config, same, read⟩ := readConfig_accepted (collected []) parses queryBlockNumber
  refine ⟨config, same, fun response gives => ?_⟩
  have acquired (history : Trace (ServerOp C) ServerResp) :
      run env (serve .tryAcquirePermit : ServerTask C Bool) () history =
        ⟨.ok true, (), [⟨.tryAcquirePermit, true⟩]⟩ := by
    simp only [serve, Program.perform, run, Result.prepend, permitted]
  have answered := permitted_responds quiet gives
  rw [simulate, run_bind, serverTimeout, run_timeout env quiet, read]
  change responses ([⟨.collectBody, .ok bytes⟩] ++
    (run env (serve .tryAcquirePermit >>= _) () _).trace) = _
  rw [responses_append, run_bind, acquired]
  exact answered _

end Answered

section Sample

variable {C : PredictChain}

def succeeding (solution : C.Solution) : (op : ServerOp C) → ServerResp op
  | .atCurrentBlock | .storageAt _ => .ok 0
  | .latestBlockNumber => .ok 0
  | .blockHash _ => .ok 0
  | .updateMetadataConstants _ => .ok ()
  | .round _ => .ok 0
  | .validatorCount _ => .ok (some (.ok 1))
  | .targetSnapshot _ _ _ _ => .ok (some (some (.truncateFrom _ [])))
  | .joinMining _ => .mined solution
  | .rpcClient => .ok ()
  | .systemProperties => .ok ⟨some "DOT", some 10⟩
  | .ss58Prefix _ => .ok 0
  | .tryAcquirePermit => true
  | op => offline op

def succeedingChain (solution : C.Solution) : Environment (ServerOp C) ServerResp where
  answer _ := succeeding solution
  fired _ _ := false

variable (solution : C.Solution) (received : Except BodyError Bytes)
  (load : String → Except Error ElectionOverrides) (config : PredictConfig)

def succeedingRequest : Environment (ServerOp C) ServerResp :=
  requestEnv (succeedingChain solution) received load

theorem succeeding_electionData :
    Gives (succeedingRequest solution received load) (getElectionData ⟨0, 0, 0, 0⟩ 0 0 0)
      (.ok ([], [], .snapshot)) :=
  fun _ => rfl

variable {solution received load config}

theorem succeeding_configured :
    Gives (succeedingRequest solution received load) (configureSolver config) (.ok ()) :=
  fun _ => rfl

theorem succeeding_block :
    Gives (succeedingRequest solution received load) (chosenBlock config)
      (.ok (config.blockNumber.getD 0, 0)) := by
  unfold chosenBlock
  cases config.blockNumber with
  | none => exact fun _ => rfl
  | some number => exact fun _ => rfl

theorem succeeding_desired :
    Gives (succeedingRequest solution received load) (desiredTargets config 0)
      (.ok (config.desiredValidators.getD 1)) := by
  unfold desiredTargets
  cases config.desiredValidators with
  | none => exact fun _ => rfl
  | some number => exact fun _ => rfl

theorem succeeding_properties :
    Gives (succeedingRequest solution received load) getChainProperties (.ok (0, 10, "DOT")) :=
  fun _ => rfl

theorem unreadable_fetchSnapshots {path : String} {error : Error}
    (unreadable : load path = .error error) :
    Gives (succeedingRequest solution received load)
      (fetchSnapshots ⟨0, 0, 0, 0⟩ 0 0 0 (some (.path path))) (.err error) := by
  refine .bind (succeeding_electionData solution received load) (.bind_err (.bind_err ?_))
  refine .bind (gives_perform fun _ => unreadable) ?_
  exact fun _ => rfl

theorem unreadable_runPrediction {path : String} {error : Error}
    (named : config.overrides = some (.path path)) (unreadable : load path = .error error) :
    Gives (succeedingRequest solution received load) (runPrediction config) (.err error) := by
  refine .bind succeeding_configured (.bind (gives_perform fun _ => rfl) ?_)
  refine .bind succeeding_block (.bind (gives_perform fun _ => rfl) ?_)
  refine .bind (gives_return 0) (.bind succeeding_desired ?_)
  refine .bind_err (.bind (gives_perform fun _ => rfl) (.bind_err ?_))
  rw [named]
  exact unreadable_fetchSnapshots unreadable

theorem succeeding_minePrediction {desired : Nat}
    {targetSnapshot : TargetSnapshotPage C.Account ⟨0, 0, 0, 0⟩}
    {voterSnapshot : List (VoterSnapshotPage C.Account ⟨0, 0, 0, 0⟩)} {source : ElectionDataSource}
    (fetched : Gives (succeedingRequest solution received load)
      (fetchSnapshots ⟨0, 0, 0, 0⟩ 0 0 0 config.overrides)
      (.ok (targetSnapshot, voterSnapshot, source))) :
    Gives (succeedingRequest solution received load) (minePrediction config 0 0 desired 0)
      (.ok (⟨_, targetSnapshot, voterSnapshot, solution⟩, source)) := by
  have mined : Gives (succeedingRequest solution received load)
      (Predict.mineSolution ⟨0, 0, 0, 0⟩ targetSnapshot voterSnapshot (max 0 voterSnapshot.length) 0
        desired config.doReduce) (.ok solution) :=
    .bind (gives_perform fun _ => rfl) (.bind (gives_perform fun _ => rfl) (gives_return solution))
  have timed := mined.timeout (fun _ _ => rfl) ServerOp.suspends
  exact .bind (gives_perform fun _ => rfl) (.bind fetched (.bind timed (gives_return _)))

end Sample

section Readable

variable (parseJson : Bytes → Option Json)

abbrev sampleReader : PredictChain := samplePredictChain.reading parseJson

def sampleRequest (received : Except BodyError Bytes)
    (load : String → Except Error ElectionOverrides) :
    Environment (ServerOp (sampleReader parseJson)) ServerResp :=
  succeedingRequest (0 : Nat) received load

variable (received : Except BodyError Bytes)
  {load : String → Except Error ElectionOverrides} {config : PredictConfig} {path : String}

theorem readable_fetchSnapshots (readable : load path = .ok ⟨[], [], [], []⟩) :
    Gives (sampleRequest parseJson received load)
      (fetchSnapshots ⟨0, 0, 0, 0⟩ 0 0 0 (some (.path path)))
      (.ok (.truncateFrom _ [], [], .snapshot)) := by
  have loaded : Gives (sampleRequest parseJson received load) (loadOverrides (.path path))
      (.ok ⟨[], [], [], []⟩) :=
    .bind (gives_perform fun _ => readable) (gives_return _)
  refine .bind (succeeding_electionData _ _ _) ?_
  exact .bind (loaded.bind (gives_return ([], []))) fun _ => rfl

def emptyPrediction (desiredValidators blockNumber : Nat) : Prediction :=
  (⟨⟨"0", desiredValidators, 0, blockNumber, some ⟨0, 0, 0⟩, "snapshot"⟩, []⟩, ⟨[]⟩)

section Built

attribute [local semireducible] List.mergeSort

theorem built_emptyPrediction (desired blockNumber : Nat) :
    buildPredictionsFromSolution ((sampleReader parseJson).printing "0")
      ⟨0, desired, blockNumber, 0, 10, "DOT", .snapshot⟩ ⟨0, 0, 0, 0⟩ (0 : Nat)
      (.truncateFrom _ []) [] = .ok (emptyPrediction desired blockNumber) := rfl

end Built

theorem readable_runPrediction (named : config.overrides = some (.path path))
    (readable : load path = .ok ⟨[], [], [], []⟩) :
    Gives (sampleRequest parseJson received load) (runPrediction config)
      (.ok (emptyPrediction (config.desiredValidators.getD 1) (config.blockNumber.getD 0))) := by
  have fetched : Gives (sampleRequest parseJson received load)
      (fetchSnapshots ⟨0, 0, 0, 0⟩ 0 0 0 config.overrides)
      (.ok (.truncateFrom _ [], [], .snapshot)) := by
    rw [named]
    exact readable_fetchSnapshots parseJson received readable
  refine .bind succeeding_configured (.bind (gives_perform fun _ => rfl) ?_)
  refine .bind succeeding_block (.bind (gives_perform fun _ => rfl) ?_)
  refine .bind (gives_return 0) (.bind succeeding_desired ?_)
  refine .bind (succeeding_minePrediction fetched) (.bind succeeding_properties ?_)
  refine .bind (gives_perform fun _ => rfl) ?_
  have built := built_emptyPrediction parseJson (config.desiredValidators.getD 1)
    (config.blockNumber.getD 0)
  intro history
  exact (congrArg Result.outcome (run_ofOutcome _ _ () history)).trans built

theorem sampleRequest_quiet (load : String → Except Error ElectionOverrides) :
    (sampleRequest parseJson received load).Quiet :=
  fun _ _ => rfl

section Responds

variable {parseJson} {bytes : Bytes} {parsed : PredictConfig}
  (decoded : (parseJson bytes).bind decodePredictConfig = some parsed)
  (named : parsed.overrides = some (.path path)) (query : List (String × String))
  (load : String → Except Error ElectionOverrides)

include decoded named

theorem sample_responds {response : PredictConfig → Response}
    (gives : ∀ config, config.overrides = some (.path path) →
      Gives (sampleRequest parseJson (.ok bytes) load) (predictResponse config)
        (.ok (response config))) :
    ∃ config, responses (simulateRun parseJson samplePredictChain query (.ok bytes)
      (succeedingChain (0 : Nat)) load).trace = [response config] := by
  obtain ⟨config, same, responds⟩ := simulate_responds
    (sampleRequest_quiet parseJson (.ok bytes) load)
    (fun _ => rfl) (fun _ => rfl) decoded (Request.queryBlockNumber ⟨.post, "/simulate", query⟩)
  exact ⟨config, responds _ (gives config (same.trans named))⟩

theorem unreadable_responds {error : Error} (unreadable : load path = .error error) :
    responses (simulateRun parseJson samplePredictChain query (.ok bytes)
      (succeedingChain (0 : Nat)) load).trace =
        [.error 500 "Internal Server Error: Prediction failed"] := by
  have gives (config : PredictConfig) (named : config.overrides = some (.path path)) :
      Gives (sampleRequest parseJson (.ok bytes) load) (predictResponse config)
        (.ok (.error 500 "Internal Server Error: Prediction failed")) := by
    have predicted : Gives (sampleRequest parseJson (.ok bytes) load) (runPrediction config)
      (.err error) := unreadable_runPrediction named unreadable
    exact .bind (predicted.timeout (sampleRequest_quiet _ _ _) ServerOp.suspends) (gives_return _)
  obtain ⟨_, responds⟩ := sample_responds decoded named query load gives
  exact responds

theorem readable_responds (readable : load path = .ok ⟨[], [], [], []⟩) :
    ∃ params, responses (simulateRun parseJson samplePredictChain query (.ok bytes)
      (succeedingChain (0 : Nat)) load).trace = [.simulated params
        (emptyPrediction params.desiredValidators params.blockNumber)] := by
  have gives (config : PredictConfig) (named : config.overrides = some (.path path)) :=
    (readable_runPrediction parseJson (.ok bytes) named readable).timeout
      (sampleRequest_quiet _ _ _) ServerOp.suspends
  obtain ⟨_, responds⟩ := sample_responds decoded named query load fun config named =>
    (gives config named).bind (gives_return _)
  exact ⟨_, responds⟩

theorem responses_differ {error : Error} (other : String → Except Error ElectionOverrides)
    (unreadable : load path = .error error) (readable : other path = .ok ⟨[], [], [], []⟩) :
    responses (simulateRun parseJson samplePredictChain query (.ok bytes)
        (succeedingChain (0 : Nat)) load).trace ≠
      responses (simulateRun parseJson samplePredictChain query (.ok bytes)
        (succeedingChain (0 : Nat)) other).trace := by
  intro same
  obtain ⟨params, predicted⟩ := readable_responds decoded named query other readable
  rw [unreadable_responds decoded named query load unreadable, predicted] at same
  cases same

end Responds

end Readable

section Named

variable {parseJson : Bytes → Option Json} {query : List (String × String)}
  {received : Except BodyError Bytes}

theorem unnamed_of_neverReads (closed : NeverReads parseJson query received) :
    ¬NamesFile parseJson received := by
  intro names
  obtain ⟨bytes, parsed, path, rfl, decoded, named⟩ := namesFile_iff.mp names
  refine responses_differ decoded named query (readDataFromJsonFile parseJson fun _ => none)
    (fun _ => .ok ⟨[], [], [], []⟩) rfl rfl ?_
  rw [run_of_neverReads closed samplePredictChain (succeedingChain (0 : Nat)) (fun _ => none)
    fun _ => .ok ⟨[], [], [], []⟩]

theorem unnamed_of_sameResponse {text : Bytes} (empty : parseJson text = some (.object []))
    (same : SameResponse parseJson query received) : ¬NamesFile parseJson received := by
  intro names
  obtain ⟨bytes, parsed, path, rfl, decoded, named⟩ := namesFile_iff.mp names
  have readable : readDataFromJsonFile parseJson (fun _ => some text) path =
      .ok ⟨[], [], [], []⟩ := by
    rw [readDataFromJsonFile]
    simp only [empty]
    rfl
  exact responses_differ decoded named query (readDataFromJsonFile parseJson fun _ => none) _ rfl
    readable (same samplePredictChain (succeedingChain (0 : Nat)) _ _)

end Named

/-- A request opens no file exactly if its body does not give the overrides as a string. Only
then is its response independent of the files, if some text at all is read as an object without
fields. -/
theorem simulate_isolated_iff (parseJson : Bytes → Option Json) (query : List (String × String))
    (received : Except BodyError Bytes) :
    (NeverReads parseJson query received ↔ ¬NamesFile parseJson received) ∧
      ((∃ text, parseJson text = some (.object [])) →
        (SameResponse parseJson query received ↔ ¬NamesFile parseJson received)) := by
  refine ⟨⟨unnamed_of_neverReads, neverReads_of_unnamed⟩, ?_⟩
  rintro ⟨text, empty⟩
  refine ⟨unnamed_of_sameResponse empty, fun unnamed => ?_⟩
  exact sameResponse_of_neverReads (neverReads_of_unnamed unnamed)

def namingBody : Bytes := "\x7b\"overrides\":\"x.json\"\x7d".toUTF8.data.toList

def dataBody : Bytes :=
  "\x7b\"overrides\":\x7b\"candidates_exclude\":[\"1\"]\x7d\x7d".toUTF8.data.toList

def emptyObject : Bytes := "\x7b\x7d".toUTF8.data.toList

def someTexts (text : Bytes) : Option Json :=
  if text = namingBody then some (.object [("overrides", .string "x.json")])
  else if text = dataBody then
    some (.object [("overrides", .object [("candidates_exclude", .array [.string "1"])])])
  else if text = emptyObject then some (.object [])
  else none

theorem someTexts_dataBody : someTexts dataBody =
    some (.object [("overrides", .object [("candidates_exclude", .array [.string "1"])])]) := by
  have distinct : dataBody ≠ namingBody := by decide
  rw [someTexts, if_neg distinct, if_pos rfl]

theorem someTexts_emptyObject : someTexts emptyObject = some (.object []) := by
  have distinct : emptyObject ≠ namingBody := by decide
  have other : emptyObject ≠ dataBody := by decide
  rw [someTexts, if_neg distinct, if_neg other, if_pos rfl]

theorem simulate_isolated_iff_raw_data :
    (someTexts dataBody).bind decodePredictConfig = some ⟨none, 10, false, none,
        some (.data ⟨[], ["1"], [], []⟩), .seqPhragmen⟩ ∧
      NeverReads someTexts [] (.ok dataBody) ∧ SameResponse someTexts [] (.ok dataBody) := by
  have decoded : (someTexts dataBody).bind decodePredictConfig = some ⟨none, 10, false, none,
      some (.data ⟨[], ["1"], [], []⟩), .seqPhragmen⟩ := by
    rw [someTexts_dataBody]
    rfl
  have unnamed : ¬NamesFile someTexts (.ok dataBody) := by
    intro names
    obtain ⟨bytes, parsed, path, ⟨⟩, read, named⟩ := namesFile_iff.mp names
    rw [decoded] at read
    cases read
    cases named
  have ⟨reads, responds⟩ := simulate_isolated_iff someTexts [] (.ok dataBody)
  exact ⟨decoded, reads.mpr unnamed, (responds ⟨emptyObject, someTexts_emptyObject⟩).mpr unnamed⟩

def namedFile : FileSystem := fun path => if path = "x.json" then some emptyObject else none

/-- The same body on the same chain: without the file that it names the prediction fails, with
an empty object in that file it succeeds. -/
theorem named_file_changes_response :
    NamesFile someTexts (.ok namingBody) ∧
      responses (simulateRun someTexts samplePredictChain [] (.ok namingBody)
        (succeedingChain (0 : Nat)) (readDataFromJsonFile someTexts fun _ => none)).trace =
          [.error 500 "Internal Server Error: Prediction failed"] ∧
      ∃ params, responses (simulateRun someTexts samplePredictChain [] (.ok namingBody)
        (succeedingChain (0 : Nat)) (readDataFromJsonFile someTexts namedFile)).trace =
          [.simulated params (emptyPrediction params.desiredValidators params.blockNumber)] := by
  have decoded : (someTexts namingBody).bind decodePredictConfig =
      some ⟨none, 10, false, none, some (.path "x.json"), .seqPhragmen⟩ := by
    rw [someTexts, if_pos rfl]
    rfl
  have readable : readDataFromJsonFile someTexts namedFile "x.json" = .ok ⟨[], [], [], []⟩ := by
    rw [readDataFromJsonFile, namedFile, if_pos rfl]
    simp only [someTexts_emptyObject]
    rfl
  refine ⟨namesFile_iff.mpr ⟨namingBody, _, "x.json", rfl, decoded, rfl⟩, ?_, ?_⟩
  · exact unreadable_responds decoded rfl [] _ rfl
  · exact readable_responds decoded rfl [] _ readable

end LeanStakingMiner
