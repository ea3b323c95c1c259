import StakingMiner.PredictedValidators

/-!
The two sides of a prediction: what a validator's entry says of its nominators, and what the
nominators' entries say of the validator.
-/

namespace LeanStakingMiner

open LeanKeyed LeanPaging

variable {Account : Type} [LinearOrder Account] {pages : List (PageSupports Account)}

section Allocations

variable (pages)

def stakesOf (nominator validator : Account) : List Nat :=
  ((backing pages validator).filter fun entry => entry.1 = nominator).map Prod.snd

def addedUp (stakes : List Nat) : Nat :=
  (stakes.foldl (fun old stake => some (addStake stake old)) none).getD 0

variable {pages}

theorem allocationMap_eq (winners : Table Account (Support Account)) :
    allocationMap winners =
      (winners.inOrder.flatMap fun winner => winner.2.voters.map (winner.1, ·)).foldl
        (fun map item => map.alter item.2.1 fun existing =>
          (existing.getD .empty).alter item.1 (addStake item.2.2)) .empty := by
  simp only [allocationMap, List.foldl_flatMap, List.foldl_map]

theorem filter_pairs (entries : List (Account × Support Account)) (nominator validator : Account) :
    (((entries.flatMap fun winner => winner.2.voters.map (winner.1, ·)).filter
        fun item => item.2.1 = nominator).filter fun item => item.1 = validator) =
      (entries.filter fun winner => winner.1 = validator).flatMap fun winner =>
        (winner.2.voters.filter fun entry => entry.1 = nominator).map (winner.1, ·) := by
  induction entries with
  | nil => rfl
  | cons winner rest ih =>
      rw [List.flatMap_cons, List.filter_append, List.filter_append, ih, List.filter_map]
      by_cases same : winner.1 = validator
      · rw [List.filter_cons_of_pos (by simpa using same), List.flatMap_cons]
        congr 1
        refine List.filter_eq_self.mpr fun item member => ?_
        obtain ⟨entry, _, rfl⟩ := List.mem_map.mp member
        exact decide_eq_true same
      · rw [List.filter_cons_of_neg (by simpa using same)]
        refine (List.append_left_eq_self).mpr (List.filter_eq_nil_iff.mpr fun item member => ?_)
        obtain ⟨entry, _, rfl⟩ := List.mem_map.mp member
        simpa using same

theorem allocated_eq (nominator validator : Account) :
    allocated (allocationMap (winnerSupportMap pages)) nominator validator =
      addedUp (stakesOf pages nominator validator) := by
  rw [allocated, allocationMap_eq,
    Table.find_foldl_alter (fun item : Account × Account × Nat => item.2.1)
      fun item (existing : Option (Table Account Nat)) =>
        (existing.getD .empty).alter item.1 (addStake item.2.2),
    Table.find_foldl_alter_within (fun item : Account × Account × Nat => item.1)
      fun item => addStake item.2.2,
    filter_pairs, Table.filter_inOrder, winnerSupportMap_find, addedUp, stakesOf, List.foldl_map]
  by_cases winner : validator ∈ winners pages
  · rw [if_pos winner, Option.toList_some, List.map_cons, List.map_nil, List.flatMap_singleton,
      List.foldl_map]
    rfl
  · rw [if_neg winner, backing_eq_nil winner]
    rfl

theorem exists_pos_of_addedUp {stakes : List Nat} (positive : 0 < addedUp stakes) :
    ∃ stake ∈ stakes, 0 < stake := by
  by_contra none
  push Not at none
  have zero : addedUp stakes = 0 := by
    refine List.foldlRecOn (motive := fun added : Option Nat => added.getD 0 = 0) stakes _ rfl
      fun old still stake member => ?_
    have nothing := Nat.le_zero.mp (none stake member)
    cases old with
    | none => exact nothing
    | some existing =>
        rw [Option.getD_some] at still
        rw [Option.getD_some, addStake, still, nothing]
        rfl
  exact absurd zero (Nat.ne_of_gt positive)

end Allocations

section Agreement

variable {desiredTargets : Nat} {voters : List (NominatorData Account)}

theorem activeSet_eq :
    (winnersSorted (winnerSupportMap pages) desiredTargets).map Prod.fst =
      (ranked pages).take desiredTargets := by
  rw [winnersSorted_eq, List.map_map]
  exact List.map_id _

theorem mem_onlySelfVote_iff {activeSet : List Account} (distinct : (voters.map Prod.fst).Nodup)
    {voter : NominatorData Account} (listed : voter ∈ voters) :
    voter.1 ∈ validatorsWithOnlySelfVote activeSet voters ↔
      voter.1 ∈ activeSet ∨ voter.2.2 = [voter.1] := by
  simp only [validatorsWithOnlySelfVote, List.mem_map, List.mem_filter, decide_eq_true_eq]
  constructor
  · rintro ⟨other, ⟨stored, left⟩, same⟩
    rwa [List.inj_on_of_nodup_map distinct stored listed same] at left
  · intro left
    exact ⟨voter, ⟨listed, left⟩, rfl⟩

theorem mem_nominators_iff {validator : Account} {entry : Account × Nat} :
    entry ∈ (validatorView (validator, merged pages validator)).nominators ↔
      entry ∈ backing pages validator ∧ entry.1 ≠ validator := by
  rw [(nominators_perm _).mem_iff, List.mem_filter, decide_eq_true_eq]
  rfl

theorem mem_activeValidators_iff {voter : NominatorData Account} {validator : Account}
    {stake : Nat} :
    (validator, stake) ∈ (nominatorView ((ranked pages).take desiredTargets)
        (allocationMap (winnerSupportMap pages)) voter).activeValidators ↔
      validator ∈ voter.2.2 ∧ Elected pages desiredTargets validator ∧ 0 < stake ∧
        stake = addedUp (stakesOf pages voter.1 validator) := by
  simp only [nominatorView, List.mem_map, List.mem_filter, decide_eq_true_eq, allocated_eq,
    mem_take_ranked_iff, Prod.mk.injEq]
  constructor
  · rintro ⟨_, ⟨target, elected, positive⟩, rfl, rfl⟩
    exact ⟨target, elected, positive, rfl⟩
  · rintro ⟨target, elected, positive, rfl⟩
    exact ⟨validator, ⟨target, elected, positive⟩, rfl, rfl⟩

theorem shown_iff (distinct : (voters.map Prod.fst).Nodup) {nominator validator : Account}
    (other : nominator ≠ validator) {stake : Nat} :
    (∃ view ∈ nominatorViews pages desiredTargets voters, view.account = nominator ∧
        (validator, stake) ∈ view.activeValidators) ↔
      Elected pages desiredTargets validator ∧ ¬Elected pages desiredTargets nominator ∧
        (∃ voter ∈ voters, voter.1 = nominator ∧ validator ∈ voter.2.2) ∧
        0 < stake ∧ stake = addedUp (stakesOf pages nominator validator) := by
  simp only [nominatorViews, activeSet_eq, List.mem_map, List.mem_filter, decide_eq_true_eq]
  constructor
  · rintro ⟨_, ⟨voter, ⟨listed, shown⟩, rfl⟩, rfl, active⟩
    obtain ⟨target, elected, positive, whole⟩ := mem_activeValidators_iff.mp active
    rw [mem_onlySelfVote_iff distinct listed, mem_take_ranked_iff, not_or] at shown
    exact ⟨elected, shown.1, ⟨voter, listed, rfl, target⟩, positive, whole⟩
  · rintro ⟨elected, unelected, ⟨voter, listed, rfl, target⟩, positive, whole⟩
    refine ⟨_, ⟨voter, ⟨listed, ?_⟩, rfl⟩, rfl, ?_⟩
    · rw [mem_onlySelfVote_iff distinct listed, mem_take_ranked_iff, not_or]
      refine ⟨unelected, fun self => other ?_⟩
      rw [self, List.mem_singleton] at target
      exact target.symm
    · exact mem_activeValidators_iff.mpr ⟨target, elected, positive, whole⟩

variable (pages desiredTargets voters)

/-- A validator's entry lists a nominator with a stake exactly when that nominator's entry
lists the validator with it. -/
def ViewsAgree : Prop :=
  ∀ view ∈ validatorViews pages desiredTargets, ∀ nominator stake, nominator ≠ view.account →
    0 < stake → ((nominator, stake) ∈ view.nominators ↔
      ∃ shown ∈ nominatorViews pages desiredTargets voters, shown.account = nominator ∧
        (view.account, stake) ∈ shown.activeValidators)

/-- Who backs an elected validator is not elected, votes for it, and backs it in one go. -/
def BackersApart : Prop :=
  ∀ validator, Elected pages desiredTargets validator → ∀ entry ∈ backing pages validator,
    entry.1 ≠ validator → 0 < entry.2 → ¬Elected pages desiredTargets entry.1 ∧
      (∃ voter ∈ voters, voter.1 = entry.1 ∧ validator ∈ voter.2.2) ∧
      entry.2 = addedUp (stakesOf pages entry.1 validator)

variable {pages desiredTargets voters}

theorem viewsAgree_iff (distinct : (voters.map Prod.fst).Nodup) :
    ViewsAgree pages desiredTargets voters ↔ BackersApart pages desiredTargets voters := by
  rw [ViewsAgree, validatorViews_eq, List.forall_mem_map]
  simp only [mem_take_ranked_iff]
  constructor
  · intro agree validator elected entry backed other positive
    have shown := (agree validator elected entry.1 entry.2 other positive).mp
      (mem_nominators_iff.mpr ⟨backed, other⟩)
    obtain ⟨_, unelected, voted, _, whole⟩ := (shown_iff distinct other).mp shown
    exact ⟨unelected, voted, whole⟩
  · intro apart validator elected nominator stake (other : nominator ≠ validator) positive
    refine mem_nominators_iff.trans (Iff.trans ?_ (shown_iff distinct other).symm)
    constructor
    · rintro ⟨backed, _⟩
      obtain ⟨unelected, voted, whole⟩ := apart validator elected _ backed other positive
      exact ⟨elected, unelected, voted, positive, whole⟩
    · rintro ⟨_, _, _, _, rfl⟩
      obtain ⟨part, member, some⟩ := exists_pos_of_addedUp positive
      obtain ⟨entry, kept, rfl⟩ := List.mem_map.mp member
      obtain ⟨backed, same⟩ := List.mem_filter.mp kept
      obtain rfl := of_decide_eq_true same
      obtain ⟨_, _, whole⟩ := apart validator elected entry backed other some
      rw [← whole]
      exact ⟨backed, other⟩

theorem predictions_agree_iff {Solution : Type}
    (libraries : PredictionLibraries Account Solution) (context : PredictionContext)
    (bounds : ElectionBounds) (solution : Solution)
    (targetSnapshot : TargetSnapshotPage Account bounds)
    (voterSnapshot : List (VoterSnapshotPage Account bounds))
    (pages : List (PageSupports Account)) (validators : ValidatorsPrediction)
    (nominators : NominatorsPrediction)
    (feasible : libraries.checkFeasibility bounds solution (.truncateFrom _ voterSnapshot)
      targetSnapshot context.desiredTargets = .ok pages)
    (built : buildPredictionsFromSolution libraries context bounds solution targetSnapshot
      voterSnapshot = .ok (validators, nominators))
    (distinct : ((allVoters voterSnapshot).map Prod.fst).Nodup) :
    (validatorViews pages context.desiredTargets).mapM (ValidatorView.print libraries context) =
        some validators.results ∧
      (nominatorViews pages context.desiredTargets (allVoters voterSnapshot)).mapM
        (NominatorView.print libraries context) = some nominators.nominators ∧
      (ViewsAgree pages context.desiredTargets (allVoters voterSnapshot) ↔
        BackersApart pages context.desiredTargets (allVoters voterSnapshot)) := by
  have ⟨printed, shown⟩ := built_prints feasible built
  exact ⟨printed, shown, viewsAgree_iff distinct⟩

def crowdedVoters : List (VoterSnapshotPage Nat ⟨1, 3, 3, 2⟩) :=
  [⟨[(1, 10, ⟨[1, 2], by decide⟩), (2, 3, ⟨[2], by decide⟩)], by decide⟩]

def crowdedSupports : List (PageSupports Nat) :=
  [[(1, ⟨5, [(1, 5)]⟩), (2, ⟨8, [(1, 5), (2, 3)]⟩)]]

theorem predictions_agree_iff_one_seat :
    ∃ validators nominators, buildPredictionsFromSolution (supportsMiner crowdedSupports)
        (supportsContext 1) ⟨1, 3, 3, 2⟩ () ⟨[1, 2], by decide⟩ crowdedVoters =
          .ok (validators, nominators) ∧
      ViewsAgree crowdedSupports 1 (allVoters crowdedVoters) := by
  have feasible : (supportsMiner crowdedSupports).checkFeasibility ⟨1, 3, 3, 2⟩ ()
      (.truncateFrom _ crowdedVoters) ⟨[1, 2], by decide⟩ (supportsContext 1).desiredTargets =
        .ok crowdedSupports := rfl
  obtain ⟨validators, nominators, built⟩ := exists_built feasible (by decide)
  have facts := predictions_agree_iff _ _ _ _ _ _ _ _ _ feasible built (by decide)
  refine ⟨validators, nominators, built, facts.2.2.mpr fun validator elected => ?_⟩
  have listed := elected.1
  revert elected
  revert validator
  unfold Elected
  decide

/-- With two seats account 1 is elected too: account 2 still lists it as its nominator, but it
has no entry of its own. -/
theorem elected_nominator_left_out :
    ∃ validators nominators, buildPredictionsFromSolution (supportsMiner crowdedSupports)
        (supportsContext 2) ⟨1, 3, 3, 2⟩ () ⟨[1, 2], by decide⟩ crowdedVoters =
          .ok (validators, nominators) ∧
      ((allVoters crowdedVoters).map Prod.fst).Nodup ∧
      (∀ voter ∈ allVoters crowdedVoters, voter.2.2.Nodup) ∧
      (∀ validator, ∀ entry ∈ backing crowdedSupports validator,
        ∃ voter ∈ allVoters crowdedVoters, voter.1 = entry.1 ∧ validator ∈ voter.2.2) ∧
      ¬ViewsAgree crowdedSupports 2 (allVoters crowdedVoters) := by
  have feasible : (supportsMiner crowdedSupports).checkFeasibility ⟨1, 3, 3, 2⟩ ()
      (.truncateFrom _ crowdedVoters) ⟨[1, 2], by decide⟩ (supportsContext 2).desiredTargets =
        .ok crowdedSupports := rfl
  obtain ⟨validators, nominators, built⟩ := exists_built feasible (by decide)
  refine ⟨validators, nominators, built, by decide, by decide, ?_, fun agree => ?_⟩
  · intro validator
    by_cases winner : validator ∈ winners crowdedSupports
    · revert validator
      decide
    · rw [backing_eq_nil winner]
      exact fun _ member => absurd member List.not_mem_nil
  · have apart := (viewsAgree_iff (by decide)).mp agree
    have elected (validator : Nat) (member : validator ∈ [1, 2]) :
        Elected crowdedSupports 2 validator := by
      revert validator
      unfold Elected
      decide
    exact (apart 2 (elected 2 (by decide)) (1, 5) (by decide) (by decide) (by decide)).1
      (elected 1 (by decide))

end Agreement

end LeanStakingMiner
