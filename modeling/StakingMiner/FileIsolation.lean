import StakingMiner.ConfigCore
import StakingMiner.ServerLogic

/-!
A `/simulate` request and the files of the server: a request whose body does not give the
overrides as a string opens no file, so its response does not depend on any.
-/

namespace LeanStakingMiner

open LeanJson LeanProgram LeanPaging

section Requests

variable {C : PredictChain}

def ServerOp.readsFile : ServerOp C → Bool
  | .readJsonFile _ => true
  | _ => false

def outside (history : Trace (ServerOp C) ServerResp) : Trace (ServerOp C) ServerResp :=
  history.filter fun event => !event.1.readsFile

/-- One request: its body, the files of the server, and a chain that does not see the files. -/
def requestEnv (chain : Environment (ServerOp C) ServerResp) (received : Except BodyError Bytes)
    (load : String → Except Error ElectionOverrides) : Environment (ServerOp C) ServerResp where
  answer history
    | .collectBody => received
    | .readJsonFile path => load path
    | op => chain.answer (outside history) op
  fired issued history := chain.fired issued (outside history)

def responses (trace : Trace (ServerOp C) ServerResp) : List Response :=
  trace.filterMap fun event => match event.1 with
    | .respond response => some response
    | _ => none

end Requests

section Bodies

variable (parseJson : Bytes → Option Json)

def simulateRun (C : PredictChain) (query : List (String × String))
    (received : Except BodyError Bytes)
    (chain : Environment (ServerOp (C.reading parseJson)) ServerResp)
    (load : String → Except Error ElectionOverrides) :
    Result Unit Error (ServerOp (C.reading parseJson)) ServerResp Unit :=
  run (requestEnv chain received load) (handleRequest ⟨.post, "/simulate", query⟩) () []

variable (query : List (String × String)) (received : Except BodyError Bytes)

def NeverReads : Prop :=
  ∀ C chain files, ∀ event ∈ (simulateRun parseJson C query received chain
    (readDataFromJsonFile parseJson files)).trace, event.1.readsFile = false

/-- With the same chain, the response is the same whatever the files are. -/
def SameResponse : Prop :=
  ∀ C chain files others,
    responses (simulateRun parseJson C query received chain
        (readDataFromJsonFile parseJson files)).trace =
      responses (simulateRun parseJson C query received chain
        (readDataFromJsonFile parseJson others)).trace

/-- The body is accepted, and its `overrides` are a string. -/
def NamesFile : Prop :=
  ∃ bytes json fields path, received = .ok bytes ∧ parseJson bytes = some json ∧
    (decodePredictConfig json).isSome = true ∧ given predictConfigFields json = some fields ∧
    fields.value "overrides" = some (.string path)

end Bodies

section Decoded

variable {json : Json} {config : PredictConfig}

theorem decodeOverridesConfig_path_iff {path : String} :
    decodeOverridesConfig json = some (.path path) ↔ json = .string path := by
  rw [decodeOverridesConfig, untagged_eq_some_iff]
  simp [string_eq_some_iff]

theorem overrides_path_iff {fields : Given} {path : String} :
    fields.orDefault "overrides" none (.option decodeOverridesConfig) = some (some (.path path)) ↔
      fields.value "overrides" = some (.string path) := by
  rw [Given.orDefault]
  cases fields.value "overrides" with
  | none => simp
  | some json =>
      simp only [option_eq_some_iff, decodeOverridesConfig_path_iff, Option.some.injEq]
      constructor
      · exact And.right
      · rintro rfl
        exact ⟨by rintro ⟨⟩, rfl⟩

theorem overrides_decoded (decoded : decodePredictConfig json = some config) :
    ∃ fields, given predictConfigFields json = some fields ∧
      fields.orDefault "overrides" none (.option decodeOverridesConfig) =
        some config.overrides := by
  simp only [decodePredictConfig, Option.bind_eq_bind, Option.pure_def,
    Option.bind_eq_some_iff] at decoded
  obtain ⟨fields, found, _, _, _, _, _, _, _, _, overrides, given, _, _, same⟩ := decoded
  cases same
  exact ⟨fields, found, given⟩

theorem namesFile_iff {parseJson : Bytes → Option Json} {received : Except BodyError Bytes} :
    NamesFile parseJson received ↔ ∃ bytes config path, received = .ok bytes ∧
      (parseJson bytes).bind decodePredictConfig = some config ∧
      config.overrides = some (.path path) := by
  constructor
  · rintro ⟨bytes, json, fields, path, collected, parsed, accepted, found, named⟩
    obtain ⟨config, decoded⟩ := Option.isSome_iff_exists.mp accepted
    obtain ⟨others, same, given⟩ := overrides_decoded decoded
    rw [found] at same
    cases same
    rw [overrides_path_iff.mpr named] at given
    exact ⟨bytes, config, path, collected, by rw [parsed]; exact decoded,
      (Option.some.inj given).symm⟩
  · rintro ⟨bytes, config, path, collected, read, named⟩
    obtain ⟨json, parsed, decoded⟩ := Option.bind_eq_some_iff.mp read
    obtain ⟨fields, found, given⟩ := overrides_decoded decoded
    rw [named, overrides_path_iff] at given
    exact ⟨bytes, json, fields, path, collected, parsed, by rw [decoded]; rfl, found, given⟩

end Decoded

section KeepsOut

variable {C : PredictChain} {α : Type} {config : PredictConfig}

def KeepsOut (task : ServerTask C α) : Prop :=
  (Monitor.issuing ServerResp fun op : ServerOp C => op.readsFile = false).Permits task

theorem readsFile_of_block {op : ServerOp C} {storage : AtBlock}
    (here : op.block = some storage) : op.readsFile = false := by
  cases op <;> first | rfl | cases here

variable (unnamed : ∀ path, config.overrides ≠ some (.path path))

include unnamed

theorem keepsOut_minePrediction (nPages currentRound desired : Nat) (atBlock : AtBlock) :
    KeepsOut (minePrediction (C := C) config nPages currentRound desired atBlock) := by
  refine .bind (issues_serve rfl) fun bounds => ?_
  refine .bind (issues_fetchSnapshots bounds nPages currentRound (fun _ => readsFile_of_block)
    fun path named => absurd named (unnamed path)) ?_
  rintro ⟨targetSnapshot, voterSnapshot, dataSource⟩
  refine .bind (.timeout ?_ _) ?_
  · refine .bind (issues_serve rfl) fun handle => ?_
    exact .bind (issues_serve rfl) fun outcome => issues_orFail _ _
  · rintro (_ | error | solution)
    · exact fun _ _ => trivial
    · exact fun _ _ => trivial
    · exact issues_return _

theorem keepsOut_runPrediction : KeepsOut (runPrediction (C := C) config) := by
  refine .bind ?_ fun _ => ?_
  · refine .bind (issues_serve rfl) fun answer => .bind (issues_orFail _ _) fun current => ?_
    refine .bind (issues_serve rfl) fun answer => .bind (issues_orFail _ _) fun _ => ?_
    exact .bind (issues_serve rfl) fun _ => issues_serve rfl
  · refine .bind (issues_serve rfl) fun nPages => ?_
    refine .bind (issues_chosenBlock config rfl rfl (fun _ => rfl) fun _ => rfl) ?_
    rintro ⟨blockNumber, atBlock⟩
    refine .bind (issues_serve rfl) fun answer => .bind (issues_orFail _ _) fun round => ?_
    refine .bind (issues_desiredTargets (fun _ => readsFile_of_block) config) fun desired => ?_
    refine .bind (keepsOut_minePrediction unnamed nPages round desired atBlock) ?_
    rintro ⟨mined, dataSource⟩
    refine .bind (issues_getChainProperties rfl rfl rfl fun _ => rfl) ?_
    rintro ⟨ss58Prefix, tokenDecimals, tokenSymbol⟩
    exact .bind (issues_serve rfl) fun seconds _ _ => (wp_ofOutcome _).mpr trivial

theorem keepsOut_simulatePermitted : KeepsOut (simulatePermitted (C := C) config) := by
  refine .bind (Monitor.Permits.timeout ?_ _).unwound fun result =>
    .bind (issues_serve rfl) fun _ => ?_
  · refine .bind ((keepsOut_runPrediction unnamed).timeout _) ?_
    rintro (_ | error | ⟨validators, nominators⟩)
    · exact issues_return _
    · exact issues_return _
    · exact issues_return _
  · rcases result with _ | _ | error | response
    · exact fun _ _ => trivial
    · exact issues_return _
    · exact issues_return _
    · exact issues_serve rfl

end KeepsOut

section Accepted

variable {C : PredictChain} (received : Except BodyError Bytes)

def bodyMonitor : Monitor (ServerOp C) ServerResp Unit where
  expects
    | _, .collectBody, answer => answer = received
    | _, _, _ => True
  allows _ op := op.readsFile = false
  next _ _ _ := ()

theorem readConfig_config (queryBlockNumber : Option Nat) :
    wp (bodyMonitor received) (readConfig (C := C) queryBlockNumber)
      (fun outcome _ _ => ∀ config, outcome = .ok (.ok config) → ∃ bytes parsed,
        received = .ok bytes ∧ C.parseConfig bytes = some parsed ∧
          config.overrides = parsed.overrides) () () := by
  refine ⟨rfl, ?_⟩
  rintro ((_ | _) | bytes) sent
  · rintro config ⟨⟩
  · rintro config ⟨⟩
  · rcases parses : C.parseConfig bytes with _ | parsed
    · simp only [Program.bind, parses]
      rintro config ⟨⟩
    · simp only [Program.bind, parses]
      cases queryBlockNumber with
      | none =>
          rintro config ⟨⟩
          exact ⟨bytes, parsed, sent.symm, parses, rfl⟩
      | some number =>
          rintro config ⟨⟩
          exact ⟨bytes, parsed, sent.symm, parses, rfl⟩

variable {received}

theorem simulate_keepsOut (queryBlockNumber : Option Nat)
    (unnamed : ∀ bytes parsed path, received = .ok bytes → C.parseConfig bytes = some parsed →
      parsed.overrides ≠ some (.path path)) :
    wp (bodyMonitor received) (simulate (C := C) queryBlockNumber) (fun _ _ _ => True) () () := by
  have read := readConfig_config (C := C) received queryBlockNumber
  refine (wp_bind _ _).mpr (wp_timeout (wp_mono read ?_) ?_)
  · rintro ((response | config) | error | _) _ _ accepted
    · exact ⟨rfl, fun _ _ => trivial⟩
    · obtain ⟨bytes, parsed, sent, parses, same⟩ := accepted config rfl
      have permitted : KeepsOut (simulatePermitted (C := C) config) :=
        keepsOut_simulatePermitted fun path named =>
          unnamed bytes parsed path sent parses (same.symm.trans named)
      refine ⟨rfl, ?_⟩
      rintro (_ | _) _
      · exact ⟨rfl, fun _ _ => trivial⟩
      · exact wp_free_of_issuing (permitted () ()) fun _ _ closed => closed
    · trivial
    · trivial
  · intro passed
    trivial

end Accepted

section Isolation

variable {parseJson : Bytes → Option Json} {query : List (String × String)}
  {received : Except BodyError Bytes}

theorem neverReads_of_unnamed (unnamed : ¬NamesFile parseJson received) :
    NeverReads parseJson query received := by
  intro C chain files
  have closed : wp (bodyMonitor received)
      (handleRequest (C := C.reading parseJson) ⟨.post, "/simulate", query⟩)
      (fun _ _ _ => True) () () := by
    refine simulate_keepsOut _ fun bytes parsed path sent parses named => unnamed ?_
    exact namesFile_iff.mpr ⟨bytes, parsed, path, sent, parses, named⟩
  refine issued_of_wp closed (fun _ history op => ?_) (fun _ _ allowed => allowed) []
  cases op <;> trivial

theorem run_of_neverReads (closed : NeverReads parseJson query received) (C : PredictChain)
    (chain : Environment (ServerOp (C.reading parseJson)) ServerResp) (files : FileSystem)
    (load : String → Except Error ElectionOverrides) :
    simulateRun parseJson C query received chain load =
      simulateRun parseJson C query received chain (readDataFromJsonFile parseJson files) := by
  have fires : (requestEnv chain received load).fired =
      (requestEnv chain received (readDataFromJsonFile parseJson files)).fired := rfl
  have agree (history : Trace (ServerOp (C.reading parseJson)) ServerResp)
      (op : ServerOp (C.reading parseJson)) (unread : op.readsFile = false) :
      (requestEnv chain received load).answer history op =
        (requestEnv chain received (readDataFromJsonFile parseJson files)).answer history op := by
    cases op with
    | readJsonFile path => cases unread
    | _ => rfl
  exact run_congr fires agree (closed C chain files)

theorem sameResponse_of_neverReads (closed : NeverReads parseJson query received) :
    SameResponse parseJson query received := by
  intro C chain files others
  exact congrArg (fun result => responses result.trace)
    (run_of_neverReads closed C chain others (readDataFromJsonFile parseJson files))

end Isolation

end LeanStakingMiner
