import StakingMiner.JsonDecoding
import StakingMiner.PredictCore

/-!
Executable model of the JSON the program reads: the body of a `/simulate` request and an
overrides file (`commands/types.rs`, `read_data_from_json_file`), and the chain properties that a
node reports (`utils.rs`).
-/

namespace LeanStakingMiner

open LeanJson

def decodeElectionAlgorithm : Decoder ElectionAlgorithm :=
  .variant [("SeqPhragmen", .seqPhragmen), ("Phragmms", .phragmms)]

def decodeCandidateInclude : Decoder CandidateInclude :=
  .untagged (fun json => (Decoder.string json).map .address)
    fun json => (Decoder.pair .string (.unsigned 64) json).map fun (address, selfStake) =>
      .withSelfStake address selfStake

def decodeElectionOverrides : Decoder ElectionOverrides := fun json => do
  let fields ← given
    ["candidates_include", "candidates_exclude", "voters_include", "voters_exclude"] json
  pure
    { candidatesInclude := ← fields.orDefault "candidates_include" [] (.list decodeCandidateInclude)
      candidatesExclude := ← fields.orDefault "candidates_exclude" [] (.list .string)
      votersInclude := ← fields.orDefault "voters_include" []
        (.list (.triple .string (.unsigned 64) (.list .string)))
      votersExclude := ← fields.orDefault "voters_exclude" [] (.list .string) }

def decodeOverridesConfig : Decoder OverridesConfig :=
  .untagged (fun json => (Decoder.string json).map .path)
    fun json => (decodeElectionOverrides json).map .data

def defaultBalancingIterations : Nat := 10

/-- The output directory is skipped, so a field of that name is ignored like any other. -/
def predictConfigFields : List String :=
  ["desired_validators", "balancing_iterations", "do_reduce", "block_number", "overrides",
    "algorithm"]

def decodePredictConfig : Decoder PredictConfig := fun json => do
  let fields ← given predictConfigFields json
  pure
    { desiredValidators := ← fields.optional "desired_validators" (.unsigned 32)
      balancingIterations := ← fields.orDefault "balancing_iterations" defaultBalancingIterations
        (.unsigned 64)
      doReduce := ← fields.orDefault "do_reduce" false .bool
      blockNumber := ← fields.orDefault "block_number" none (.option (.unsigned 32))
      overrides := ← fields.orDefault "overrides" none (.option decodeOverridesConfig)
      algorithm := ← fields.orDefault "algorithm" .seqPhragmen decodeElectionAlgorithm }

/-- The parser of JSON texts is `serde_json`'s. -/
def PredictChain.reading (parseJson : Bytes → Option Json) (C : PredictChain) : PredictChain :=
  { C with parseConfig := fun body => (parseJson body).bind decodePredictConfig }

/-- A path leads to the text of a file, or cannot be opened or read. -/
abbrev FileSystem : Type := String → Option Bytes

def readDataFromJsonFile (parseJson : Bytes → Option Json) (files : FileSystem) (path : String) :
    Except Error ElectionOverrides :=
  match files path with
  | none => .error .io
  | some content =>
      match (parseJson content).bind decodeElectionOverrides with
      | none => .error .serdeJson
      | some overrides => .ok overrides

def decodeChainProperties : Decoder ChainProperties := fun json => do
  let fields ← given ["tokenSymbol", "tokenDecimals"] json
  pure
    { tokenSymbol := ← fields.optional "tokenSymbol" .string
      tokenDecimals := ← fields.optional "tokenDecimals" (.unsigned 8) }

end LeanStakingMiner
