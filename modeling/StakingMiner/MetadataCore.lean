import Mathlib.Logic.Function.Basic
import StakingMiner.ChainCore

/-!
Executable model of `dynamic/pallet_api.rs` and of `update_metadata_constants`: six
process-wide values are read from the metadata of a block, one after the other.
-/

namespace LeanStakingMiner

structure PalletItem where
  pallet : String
  variant : String
deriving Repr, DecidableEq

structure PerDispatchClass where
  normal : Nat
  operational : Nat
  mandatory : Nat
deriving Repr, DecidableEq

structure BlockLength where
  max : PerDispatchClass
deriving Repr, DecidableEq

def saturatingAdd (left right : Nat) : Nat := min (left + right) (2 ^ 32 - 1)

def BlockLength.total (length : BlockLength) : Nat :=
  let total := 0
  let total := saturatingAdd total length.max.normal
  let total := saturatingAdd total length.max.operational
  saturatingAdd total length.max.mandatory

/-- The metadata of a block as subxt and serde show it: the entry of a constant, and the
value decoded as one of the types the miner asks for. A failure is the text of its error. -/
structure Metadata where
  Value : Type
  entry : PalletItem → Except String Value
  asU32 : Value → Except String Nat
  asBlockLength : Value → Except String BlockLength

structure PalletConstant (α : Type) where
  inner : PalletItem
  typeName : String
  fromValue : (metadata : Metadata) → metadata.Value → Except String α

namespace PalletConstant

def u32 (pallet variant : String) : PalletConstant Nat :=
  ⟨⟨pallet, variant⟩, "u32", Metadata.asU32⟩

def fetch {α : Type} (constant : PalletConstant α) (metadata : Metadata) : Except Error α := do
  let pallet := constant.inner.pallet
  let variant := constant.inner.variant
  let typeName := constant.typeName
  let value ← (metadata.entry constant.inner).mapError fun e =>
    .invalidMetadata s!"{variant} failed: {e}"
  (constant.fromValue metadata value).mapError fun e => .invalidMetadata
    s!"Decoding constant {pallet}:{variant} type: `{typeName}` couldn't be decoded {e}"

def pages : PalletConstant Nat := u32 "MultiBlockElection" "Pages"

def targetSnapshotPerBlock : PalletConstant Nat :=
  u32 "MultiBlockElection" "TargetSnapshotPerBlock"

def voterSnapshotPerBlock : PalletConstant Nat :=
  u32 "MultiBlockElection" "VoterSnapshotPerBlock"

def blockLength : PalletConstant BlockLength :=
  ⟨⟨"System", "BlockLength"⟩, "polkadot_staking_miner::dynamic::pallet_api::system::BlockLength",
    Metadata.asBlockLength⟩

def maxWinnersPerPage : PalletConstant Nat :=
  u32 "MultiBlockElectionVerifier" "MaxWinnersPerPage"

def maxBackersPerWinner : PalletConstant Nat :=
  u32 "MultiBlockElectionVerifier" "MaxBackersPerWinner"

end PalletConstant

inductive Parameter where
  | pages
  | targetSnapshotPerBlock
  | voterSnapshotPerBlock
  | maxLength
  | maxWinnersPerPage
  | maxBackersPerWinner
deriving Repr, DecidableEq

abbrev StaticTypes : Type := Parameter → Nat

def Parameter.set (parameter : Parameter) (value : Nat) : EStateM Error StaticTypes Unit :=
  modify fun statics => Function.update statics parameter value

def orReturn {α : Type} (fetched : Except Error α) : EStateM Error StaticTypes α :=
  MonadExcept.ofExcept fetched

/-- `percentMul` is the product of a `Percent` and a number, which the SDK rounds. -/
def updateMetadataConstants (percentMul : Nat → Nat → Nat) (metadata : Metadata) :
    EStateM Error StaticTypes Unit := do
  let pages ← orReturn (PalletConstant.pages.fetch metadata)
  Parameter.pages.set pages
  Parameter.targetSnapshotPerBlock.set
    (← orReturn (PalletConstant.targetSnapshotPerBlock.fetch metadata))
  Parameter.voterSnapshotPerBlock.set
    (← orReturn (PalletConstant.voterSnapshotPerBlock.fetch metadata))
  let blockLen ← orReturn (PalletConstant.blockLength.fetch metadata)
  Parameter.maxLength.set (percentMul 75 blockLen.total)
  Parameter.maxWinnersPerPage.set (← orReturn (PalletConstant.maxWinnersPerPage.fetch metadata))
  Parameter.maxBackersPerWinner.set
    (← orReturn (PalletConstant.maxBackersPerWinner.fetch metadata))

end LeanStakingMiner
