import StakingMiner.ElectionDataCore
import StakingMiner.Selection

/-!
Rules for arranging voters in pages: pushing voters fills pages greedily, and the voters that
make room are the weakest ones.
-/

namespace LeanStakingMiner

open LeanPaging LeanSelection

variable {Account : Type} {bounds : ElectionBounds}

theorem pushVoter_items (pages : List (VoterSnapshotPage Account bounds))
    (voter : Voter Account bounds) :
    (pushVoter pages voter).map (·.items) =
      place bounds.voterSnapshotPerBlock (pages.map (·.items)) voter := by
  rcases List.eq_nil_or_concat' pages with rfl | ⟨before, last, rfl⟩
  · rfl
  · by_cases room : last.items.length < bounds.voterSnapshotPerBlock
    · simp [pushVoter, place, BoundedVec.tryPush, room, Nat.not_le.mpr room]
    · simp [pushVoter, place, room, Nat.not_lt.mp room, BoundedVec.truncateFrom]

theorem foldl_pushVoter (voters : List (Voter Account bounds))
    (pages : List (VoterSnapshotPage Account bounds)) :
    (voters.foldl pushVoter pages).map (·.items) =
      voters.foldl (place bounds.voterSnapshotPerBlock) (pages.map (·.items)) := by
  induction voters generalizing pages with
  | nil => rfl
  | cons voter rest ih => rw [List.foldl_cons, List.foldl_cons, ih, pushVoter_items]

theorem items_injective : Function.Injective (BoundedVec.items : VoterSnapshotPage Account bounds →
    List (Voter Account bounds)) :=
  fun _ _ same => BoundedVec.ext_items same

theorem dropWeakest_of_fits (libraries : Libraries Account)
    {voters : List (NominatorData Account)}
    (fits : voters.length ≤ bounds.pages * bounds.voterSnapshotPerBlock) :
    dropWeakest libraries bounds voters = voters := by
  unfold dropWeakest
  rw [if_neg (by omega)]

section Weakest

variable (libraries : Libraries Account) (voters : List (NominatorData Account))

def stakeAt (i : Nat) : Nat := (voters[i]?.map fun voter => voter.2.1).getD 0

def byStake : List Nat := libraries.sortDescending (stakeAt voters) (List.range voters.length)

theorem byStake_ranks : Ranks (stakeAt voters) voters.length (byStake libraries voters) :=
  ⟨libraries.sortDescending_perm _ _, libraries.sortDescending_sorted _ _⟩

theorem stakeAt_of_placed {i : Nat} {voter : NominatorData Account}
    (placed : voters[i]? = some voter) : stakeAt voters i = voter.2.1 := by
  rw [stakeAt, placed]
  rfl

def weakest (bounds : ElectionBounds) : List (NominatorData Account) :=
  let capacity := bounds.pages * bounds.voterSnapshotPerBlock
  if 0 < capacity ∧ capacity < voters.length then
    only ((byStake libraries voters).drop capacity) voters
  else []

theorem dropWeakest_eq : dropWeakest libraries bounds voters =
    let capacity := bounds.pages * bounds.voterSnapshotPerBlock
    if 0 < capacity ∧ capacity < voters.length then
      without ((byStake libraries voters).drop capacity) voters
    else voters := rfl

theorem dropWeakest_sublist : (dropWeakest libraries bounds voters).Sublist voters := by
  rw [dropWeakest_eq]
  dsimp only
  split
  · exact without_sublist _ voters
  · exact List.Sublist.refl voters

theorem dropWeakest_append_weakest_perm :
    (dropWeakest libraries bounds voters ++ weakest libraries voters bounds).Perm voters := by
  rw [dropWeakest_eq]
  unfold weakest
  dsimp only
  split
  · exact without_append_only_perm _ voters
  · rw [List.append_nil]

theorem dropWeakest_length (positive : 0 < bounds.pages * bounds.voterSnapshotPerBlock) :
    (dropWeakest libraries bounds voters).length =
      min voters.length (bounds.pages * bounds.voterSnapshotPerBlock) := by
  rw [dropWeakest_eq]
  dsimp only
  split
  · exact (byStake_ranks libraries voters).length_without
  · omega

theorem weakest_le {strong weak : NominatorData Account}
    (kept : strong ∈ dropWeakest libraries bounds voters)
    (dropped : weak ∈ weakest libraries voters bounds) : weak.2.1 ≤ strong.2.1 := by
  rw [dropWeakest_eq] at kept
  unfold weakest at dropped
  dsimp only at kept dropped
  split at dropped
  · rename_i exceeds
    rw [if_pos exceeds] at kept
    obtain ⟨i, j, strongAt, weakAt, order⟩ :=
      (byStake_ranks libraries voters).only_le_without kept dropped
    rwa [stakeAt_of_placed voters strongAt, stakeAt_of_placed voters weakAt] at order
  · simp at dropped

end Weakest

section Fill

def fillPages (libraries : Libraries Account) (bounds : ElectionBounds)
    (voters : List (NominatorData Account)) : List (VoterSnapshotPage Account bounds) :=
  ((dropWeakest libraries bounds voters).map (convertVoter bounds)).foldl pushVoter []

def arranged : ElectionDataSource → List (VoterSnapshotPage Account bounds) →
    List (VoterSnapshotPage Account bounds)
  | .staking, pages => pages.reverse
  | .snapshot, pages => pages

theorem convert_eq (libraries : Libraries Account) (bounds : ElectionBounds)
    (candidates : List (ValidatorData Account)) (voters : List (NominatorData Account))
    (dataSource : ElectionDataSource) :
    convertElectionDataToSnapshots libraries bounds candidates voters dataSource =
      .ok (.truncateFrom _ (candidates.map Prod.fst),
        arranged dataSource (fillPages libraries bounds voters)) := by
  cases dataSource with
  | staking => rfl
  | snapshot => rfl

theorem fillPages_packed (libraries : Libraries Account) (voters : List (NominatorData Account))
    (positive : 0 < bounds.voterSnapshotPerBlock) :
    Packed bounds.voterSnapshotPerBlock ((fillPages libraries bounds voters).map (·.items)) ∧
      ((fillPages libraries bounds voters).map (·.items)).flatten =
        (dropWeakest libraries bounds voters).map (convertVoter bounds) := by
  unfold fillPages
  rw [foldl_pushVoter]
  obtain ⟨packed, flat⟩ := foldl_place positive (Packed.nil bounds.voterSnapshotPerBlock)
    ((dropWeakest libraries bounds voters).map (convertVoter bounds))
  exact ⟨packed, flat⟩

theorem tryPush_of_room {page : VoterSnapshotPage Account bounds} {voter : Voter Account bounds}
    (room : page.items.length < bounds.voterSnapshotPerBlock) :
    ∃ fuller, page.tryPush voter = .ok fuller := by
  unfold BoundedVec.tryPush
  rw [dif_pos room]
  exact ⟨_, rfl⟩

end Fill

end LeanStakingMiner
