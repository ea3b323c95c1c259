import StakingMiner.ConfigCore
import StakingMiner.JsonEncoding
import StakingMiner.NamedFiles

/-!
The run parameters that `/simulate` echoes. Sent back as the body of a request, with their fields
in any order, they are read as the same parameters with the block and the number of validators
fixed; on a chain that still answers as it did, the request returns the same prediction.
-/

namespace LeanStakingMiner

open LeanJson LeanProgram LeanPaging

section Encoding

def encodeElectionAlgorithm : Encoder ElectionAlgorithm
  | .seqPhragmen => .string "SeqPhragmen"
  | .phragmms => .string "Phragmms"

def encodeCandidateInclude : Encoder CandidateInclude
  | .address address => .string address
  | .withSelfStake address selfStake => Encoder.pair .string .unsigned (address, selfStake)

def encodeElectionOverrides : Encoder ElectionOverrides := fun overrides => .object
  [("candidates_include", Encoder.list encodeCandidateInclude overrides.candidatesInclude),
    ("candidates_exclude", Encoder.list .string overrides.candidatesExclude),
    ("voters_include",
      Encoder.list (.triple .string .unsigned (.list .string)) overrides.votersInclude),
    ("voters_exclude", Encoder.list .string overrides.votersExclude)]

def encodeOverridesConfig : Encoder OverridesConfig
  | .path path => .string path
  | .data overrides => encodeElectionOverrides overrides

def encodeSimulateRunParameters : Encoder SimulateRunParameters := fun params => .object <|
  [("block_number", Encoder.unsigned params.blockNumber),
    ("desired_validators", Encoder.unsigned params.desiredValidators),
    ("balancing_iterations", Encoder.unsigned params.balancingIterations),
    ("do_reduce", .bool params.doReduce),
    ("algorithm", encodeElectionAlgorithm params.algorithm)] ++
  (params.overrides.map fun overrides => ("overrides", encodeOverridesConfig overrides)).toList

/-- Every number is one of its type. -/
def CandidateInclude.Fits : CandidateInclude → Prop
  | .address _ => True
  | .withSelfStake _ selfStake => selfStake < 2 ^ 64

structure ElectionOverrides.Fits (overrides : ElectionOverrides) : Prop where
  candidates : ∀ candidate ∈ overrides.candidatesInclude, candidate.Fits
  voters : ∀ voter ∈ overrides.votersInclude, voter.2.1 < 2 ^ 64

def OverridesConfig.Fits : OverridesConfig → Prop
  | .path _ => True
  | .data overrides => overrides.Fits

structure SimulateRunParameters.Fits (params : SimulateRunParameters) : Prop where
  blockNumber : params.blockNumber < 2 ^ 32
  desiredValidators : params.desiredValidators < 2 ^ 32
  balancingIterations : params.balancingIterations < 2 ^ 64
  overrides : ∀ overrides, params.overrides = some overrides → overrides.Fits

theorem restores_electionAlgorithm :
    Restores decodeElectionAlgorithm encodeElectionAlgorithm fun _ => True := by
  rintro (_ | _) _ _ ⟨⟩
  · rfl
  · rfl

theorem restores_candidateInclude :
    Restores decodeCandidateInclude encodeCandidateInclude CandidateInclude.Fits := by
  rintro (address | ⟨address, selfStake⟩) json fits reordered
  · cases reordered
    rfl
  · have pair := (restores_string.pair (restores_unsigned (Nat.le_refl 64))) (address, selfStake)
      json ⟨trivial, fits⟩ reordered
    obtain ⟨others, rfl, _⟩ := reordered_array reordered
    refine untagged_eq_some_iff.mpr (Or.inr ⟨rfl, ?_⟩)
    rw [pair]
    rfl

theorem restores_electionOverrides :
    Restores decodeElectionOverrides encodeElectionOverrides ElectionOverrides.Fits := by
  intro overrides json fits reordered
  obtain ⟨found, structured, _, values⟩ := given_reordered
    ["candidates_include", "candidates_exclude", "voters_include", "voters_exclude"]
    (by simp) reordered
  have strings : Restores (.list .string) (.list .string) fun _ => True := by
    intro texts json _ reordered
    exact restores_string.list texts json (fun _ _ => trivial) reordered
  have voters : Restores (.list (.triple .string (.unsigned 64) (.list .string)))
      (.list (.triple .string .unsigned (.list .string))) _ :=
    (restores_string.triple (restores_unsigned (Nat.le_refl 64)) strings).list
  rw [decodeElectionOverrides, structured]
  simp only [Option.bind_eq_bind, Option.bind_some]
  rw [found.orDefault_restored restores_candidateInclude.list fits.candidates
      (values "candidates_include"),
    found.orDefault_restored strings trivial (values "candidates_exclude"),
    found.orDefault_restored voters
      (fun voter member => ⟨trivial, fits.voters voter member, trivial⟩) (values "voters_include"),
    found.orDefault_restored strings trivial (values "voters_exclude")]
  rfl

theorem restores_overridesConfig :
    Restores decodeOverridesConfig encodeOverridesConfig OverridesConfig.Fits := by
  rintro (path | overrides) json fits reordered
  · cases reordered
    rfl
  · have decoded := restores_electionOverrides overrides json fits reordered
    obtain ⟨_, others, rfl, _⟩ := reordered_object reordered
    refine untagged_eq_some_iff.mpr (Or.inr ⟨rfl, ?_⟩)
    rw [decoded]
    rfl

theorem encodeOverridesConfig_present (overrides : OverridesConfig) :
    encodeOverridesConfig overrides ≠ .null := by
  cases overrides <;> simp [encodeOverridesConfig, encodeElectionOverrides]

def SimulateRunParameters.config (params : SimulateRunParameters) : PredictConfig :=
  ⟨some params.desiredValidators, params.balancingIterations, params.doReduce,
    some params.blockNumber, params.overrides, params.algorithm⟩

theorem decodePredictConfig_echoed {params : SimulateRunParameters} {json : Json}
    (fits : params.Fits) (reordered : Reordered (encodeSimulateRunParameters params) json) :
    decodePredictConfig json = some params.config := by
  have number (value : Nat) : Encoder.unsigned value ≠ .null := by simp [Encoder.unsigned]
  obtain ⟨found, structured, _, values⟩ := given_reordered predictConfigFields
    (by cases params.overrides <;> simp) reordered
  have block := (restores_unsigned (by decide : 32 ≤ 64)).option number
  have overrides : found.orDefault "overrides" none (.option decodeOverridesConfig) =
      some params.overrides := by
    have given := values "overrides"
    cases chosen : params.overrides with
    | none =>
        rw [chosen] at given
        exact found.orDefault_absent given none
    | some config =>
        rw [chosen] at given
        have fitting : ∀ value, some config = some value → value.Fits := by
          rintro _ ⟨⟩
          exact fits.overrides config chosen
        exact found.orDefault_restored (restores_overridesConfig.option
          encodeOverridesConfig_present) fitting given none
  have blockFits : ∀ value, some params.blockNumber = some value → value < 2 ^ 32 := by
    rintro _ ⟨⟩
    exact fits.blockNumber
  rw [decodePredictConfig, structured]
  simp only [Option.bind_eq_bind, Option.bind_some]
  rw [found.optional_restored (restores_unsigned (by decide : 32 ≤ 64)) number
      fits.desiredValidators (values "desired_validators"),
    found.orDefault_restored (restores_unsigned (Nat.le_refl 64)) fits.balancingIterations
      (values "balancing_iterations"),
    found.orDefault_restored restores_bool trivial (values "do_reduce"),
    found.orDefault_restored block blockFits (values "block_number"),
    overrides,
    found.orDefault_restored restores_electionAlgorithm trivial (values "algorithm")]
  rfl

theorem produces_candidateInclude :
    Produces decodeCandidateInclude CandidateInclude.Fits := by
  intro json candidate decoded
  rcases untagged_eq_some_iff.mp decoded with text | ⟨_, pair⟩
  · obtain ⟨address, _, rfl⟩ := Option.map_eq_some_iff.mp text
    trivial
  · obtain ⟨⟨address, selfStake⟩, both, rfl⟩ := Option.map_eq_some_iff.mp pair
    exact ((produces_anything .string).pair (produces_unsigned 64) json _ both).2

theorem produces_electionOverrides : Produces decodeElectionOverrides ElectionOverrides.Fits := by
  intro json overrides decoded
  simp only [decodeElectionOverrides, Option.bind_eq_bind, Option.bind_eq_some_iff] at decoded
  obtain ⟨found, _, candidates, included, _, _, voters, listed, _, _, ⟨⟩⟩ := decoded
  have triples := ((produces_anything .string).triple (produces_unsigned 64)
    (produces_anything (.list .string))).list
  refine ⟨produces_candidateInclude.list.orDefault (by simp) included, fun voter member => ?_⟩
  exact (triples.orDefault (by simp) listed voter member).2.1

theorem produces_overridesConfig : Produces decodeOverridesConfig OverridesConfig.Fits := by
  intro json config decoded
  rcases untagged_eq_some_iff.mp decoded with text | ⟨_, data⟩
  · obtain ⟨path, _, rfl⟩ := Option.map_eq_some_iff.mp text
    trivial
  · obtain ⟨overrides, inline, rfl⟩ := Option.map_eq_some_iff.mp data
    exact produces_electionOverrides json overrides inline

theorem decodePredictConfig_fits {json : Json} {config : PredictConfig}
    (decoded : decodePredictConfig json = some config) :
    config.balancingIterations < 2 ^ 64 ∧
      ∀ overrides, config.overrides = some overrides → overrides.Fits := by
  simp only [decodePredictConfig, Option.bind_eq_bind, Option.bind_eq_some_iff] at decoded
  obtain ⟨found, _, _, _, iterations, balanced, _, _, _, _, overrides, overridden, _, _, ⟨⟩⟩ :=
    decoded
  exact ⟨(produces_unsigned 64).orDefault (by decide) balanced,
    produces_overridesConfig.option.orDefault (by simp) overridden⟩

end Encoding

end LeanStakingMiner
