import StakingMiner.FallibleWrites
import StakingMiner.MetadataCore

/-!
What a failed update of the metadata constants leaves behind. The values are stored as
they are read, so the constants before the first unavailable one have been replaced when
the error is returned.
-/

namespace LeanStakingMiner

open LeanWrites

def readings (percentMul : Nat → Nat → Nat) (metadata : Metadata) :
    List (Parameter × Except Error Nat) :=
  [(.pages, PalletConstant.pages.fetch metadata),
    (.targetSnapshotPerBlock, PalletConstant.targetSnapshotPerBlock.fetch metadata),
    (.voterSnapshotPerBlock, PalletConstant.voterSnapshotPerBlock.fetch metadata),
    (.maxLength, (PalletConstant.blockLength.fetch metadata).map fun blockLen =>
      percentMul 75 blockLen.total),
    (.maxWinnersPerPage, PalletConstant.maxWinnersPerPage.fetch metadata),
    (.maxBackersPerWinner, PalletConstant.maxBackersPerWinner.fetch metadata)]

theorem updateMetadataConstants_eq (percentMul : Nat → Nat → Nat) (metadata : Metadata)
    (statics : StaticTypes) :
    updateMetadataConstants percentMul metadata statics =
      writeReadings (readings percentMul metadata) statics := by
  unfold updateMetadataConstants readings
  generalize PalletConstant.pages.fetch metadata = pages
  generalize PalletConstant.targetSnapshotPerBlock.fetch metadata = targets
  generalize PalletConstant.voterSnapshotPerBlock.fetch metadata = voters
  generalize PalletConstant.blockLength.fetch metadata = blockLen
  generalize PalletConstant.maxWinnersPerPage.fetch metadata = winners
  generalize PalletConstant.maxBackersPerWinner.fetch metadata = backers
  rcases pages with _ | _
  · rfl
  rcases targets with _ | _
  · rfl
  rcases voters with _ | _
  · rfl
  rcases blockLen with _ | _
  · rfl
  rcases winners with _ | _
  · rfl
  rcases backers with _ | _
  · rfl
  · rfl

theorem readings_distinct {percentMul : Nat → Nat → Nat} {metadata : Metadata}
    {before : List (Parameter × Nat)} {error : Error}
    (failure : FirstFailure (readings percentMul metadata) before error) :
    (before.map Prod.fst).Nodup := by
  obtain ⟨failed, rest, split⟩ := failure
  have named := congrArg (List.map Prod.fst) split
  have all : ((readings percentMul metadata).map Prod.fst).Nodup := by
    simp [readings]
  rw [named, List.map_append, List.map_map] at all
  exact all.of_append_left

/-- A failed update leaves the six values as they were exactly when the constants read
before the first unavailable one had their values already. -/
theorem failed_update_unchanged_iff (percentMul : Nat → Nat → Nat) (metadata : Metadata)
    (statics : StaticTypes) :
    (∀ error after, updateMetadataConstants percentMul metadata statics = .error error after →
        after = statics) ↔
      ∀ before error, FirstFailure (readings percentMul metadata) before error →
        ∀ entry ∈ before, statics entry.1 = entry.2 := by
  simp only [updateMetadataConstants_eq, writeReadings_error_iff]
  constructor
  · intro unchanged before error failure
    apply (written_eq_iff (readings_distinct failure)).mp
    exact unchanged error _ ⟨before, failure, rfl⟩
  · rintro already error _ ⟨before, failure, rfl⟩
    exact (written_eq_iff (readings_distinct failure)).mpr (already before error failure)

def pagesOnly : Metadata where
  Value := Nat
  entry item := if item.variant = "Pages" then .ok 4 else .error "not found"
  asU32 := .ok
  asBlockLength _ := .error "not a composite"

/-- A runtime whose metadata lacks the second constant: the update fails, and the number of
pages has changed from 1 to 4. -/
theorem failed_update_replaces_pages :
    let statics : StaticTypes := fun _ => 1
    ∃ error after, updateMetadataConstants (fun _ _ => 0) pagesOnly statics = .error error after ∧
      after .pages = 4 ∧ statics .pages = 1 := by
  intro statics
  exact ⟨_, _, rfl, rfl, rfl⟩

end LeanStakingMiner
