import Mathlib.Algebra.GroupWithZero.Nat
import Mathlib.Algebra.Order.BigOperators.Group.List
import Mathlib.Data.List.Dedup
import StakingMiner.PredictionCore
import StakingMiner.Selection
import StakingMiner.Traversals

/-!
What a prediction is computed from: for each winner the supports that all pages hold for it,
and the ranking of the winners by total stake.
-/

namespace LeanStakingMiner

open LeanKeyed LeanPaging LeanSelection LeanTraversal

variable {Account : Type} [LinearOrder Account] {pages : List (PageSupports Account)}

theorem foldl_saturatingAddU128 (values : List Nat) {start : Nat} (bounded : start ≤ 2 ^ 128 - 1) :
    values.foldl saturatingAddU128 start = min (start + values.sum) (2 ^ 128 - 1) := by
  induction values generalizing start with
  | nil => rw [List.foldl_nil, List.sum_nil, Nat.add_zero, Nat.min_eq_left bounded]
  | cons value rest ih =>
      have capped : saturatingAddU128 start value ≤ 2 ^ 128 - 1 := Nat.min_le_right _ _
      rw [List.foldl_cons, ih capped, saturatingAddU128, List.sum_cons]
      omega

section Merged

variable (pages)

def supportsOf (validator : Account) : List (Support Account) :=
  (pages.flatten.filter fun entry => entry.1 = validator).map Prod.snd

def backing (validator : Account) : List (Account × Nat) :=
  (supportsOf pages validator).flatMap Support.voters

def totalOf (validator : Account) : Nat :=
  min ((supportsOf pages validator).map Support.total).sum (2 ^ 128 - 1)

def winners : List Account := (pages.flatten.map Prod.fst).dedup

def merged (validator : Account) : Support Account :=
  ⟨totalOf pages validator, backing pages validator⟩

variable {pages}

omit [LinearOrder Account] in
theorem foldl_addSupport (supports : List (Support Account)) (start : Support Account) :
    supports.foldl (fun old support => some (addSupport support old)) (some start) =
      some ⟨(supports.map Support.total).foldl saturatingAddU128 start.total,
        start.voters ++ supports.flatMap Support.voters⟩ := by
  induction supports generalizing start with
  | nil => simp
  | cons support rest ih =>
      rw [List.foldl_cons, ih]
      simp [addSupport]

theorem supportsOf_eq_nil_iff {validator : Account} :
    supportsOf pages validator = [] ↔ validator ∉ winners pages := by
  simp only [supportsOf, winners, List.map_eq_nil_iff, List.filter_eq_nil_iff, List.mem_dedup,
    List.mem_map, decide_eq_true_eq, not_exists, not_and]

theorem backing_eq_nil {validator : Account} (lost : validator ∉ winners pages) :
    backing pages validator = [] := by
  rw [backing, supportsOf_eq_nil_iff.mpr lost, List.flatMap_nil]

theorem winnerSupportMap_find (validator : Account) :
    (winnerSupportMap pages).find validator =
      if validator ∈ winners pages then some (merged pages validator) else none := by
  have flat : winnerSupportMap pages = pages.flatten.foldl
      (fun map entry => map.alter entry.1 (addSupport entry.2)) .empty := by
    rw [winnerSupportMap, List.foldl_flatten]
  have collected : (winnerSupportMap pages).find validator =
      (supportsOf pages validator).foldl
        (fun old support => some (addSupport support old)) none := by
    rw [flat, Table.find_foldl_alter Prod.fst fun entry => addSupport entry.2, supportsOf,
      List.foldl_map]
    rfl
  rw [collected]
  cases listed : supportsOf pages validator with
  | nil => rw [if_neg (supportsOf_eq_nil_iff.mp listed), List.foldl_nil]
  | cons first rest =>
      have winner : validator ∈ winners pages := by
        by_contra absent
        rw [supportsOf_eq_nil_iff.mpr absent] at listed
        exact absurd listed (by simp)
      rw [if_pos winner, List.foldl_cons, foldl_addSupport, merged, totalOf, backing, listed]
      have total := foldl_saturatingAddU128 ((first :: rest).map Support.total) (Nat.zero_le _)
      rw [Nat.zero_add] at total
      rw [← total]
      simp [addSupport]

theorem mem_winnerSupportMap {entry : Account × Support Account} :
    entry ∈ (winnerSupportMap pages).inOrder ↔
      entry.1 ∈ winners pages ∧ entry.2 = merged pages entry.1 := by
  rw [Table.mem_inOrder, winnerSupportMap_find]
  split <;> simp [eq_comm, *]

end Merged

section Ranking

variable (pages)

/-- The order of the winners: by descending total stake, and by account for equal stakes. -/
def Ahead (first second : Account) : Prop :=
  totalOf pages second < totalOf pages first ∨
    totalOf pages first = totalOf pages second ∧ first < second

instance : DecidableRel (Ahead pages) := fun _ _ => inferInstanceAs (Decidable (_ ∨ _))

def ranked : List Account :=
  ((winnerSupportMap pages).inOrder.mergeSort fun a b => b.2.total ≤ a.2.total).map Prod.fst

/-- Fewer winners are ahead of the account than there are seats. -/
def Elected (desiredTargets : Nat) (validator : Account) : Prop :=
  validator ∈ winners pages ∧
    ((winners pages).filter fun other => Ahead pages other validator).length < desiredTargets

variable {pages}

theorem Ahead.asymm {first second : Account} (ahead : Ahead pages first second) :
    ¬Ahead pages second first := by
  rcases ahead with more | ⟨tie, before⟩
  · rintro (less | ⟨same, _⟩)
    · omega
    · omega
  · rintro (less | ⟨_, after⟩)
    · omega
    · exact lt_asymm before after

theorem sorted_entries :
    ((winnerSupportMap pages).inOrder.mergeSort fun a b => b.2.total ≤ a.2.total) =
      (ranked pages).map fun validator => (validator, merged pages validator) := by
  rw [ranked, List.map_map]
  refine (List.map_id _).symm.trans (List.map_congr_left fun entry member => ?_)
  have stored := mem_winnerSupportMap.mp ((List.mergeSort_perm _ _).mem_iff.mp member)
  exact Prod.ext rfl stored.2

theorem ranked_perm : (ranked pages).Perm (winners pages) := by
  have sorted := (List.mergeSort_perm (winnerSupportMap pages).inOrder
    fun a b => decide (b.2.total ≤ a.2.total)).map Prod.fst
  refine sorted.trans ((List.perm_ext_iff_of_nodup ?_ (List.nodup_dedup _)).mpr fun validator => ?_)
  · exact ((winnerSupportMap pages).inOrder_perm.map _).nodup_iff.mpr
      (winnerSupportMap pages).distinct
  · rw [List.mem_map]
    constructor
    · rintro ⟨entry, member, rfl⟩
      exact (mem_winnerSupportMap.mp member).1
    · intro winner
      exact ⟨(validator, merged pages validator), mem_winnerSupportMap.mpr ⟨winner, rfl⟩, rfl⟩

theorem ranked_pairwise : (ranked pages).Pairwise (Ahead pages) := by
  have ordered := (winnerSupportMap pages).inOrder_sorted
  have distinct : (winnerSupportMap pages).inOrder.Nodup :=
    ordered.imp fun before same => absurd (congrArg Prod.fst same) (ne_of_lt before)
  have sorted := pairwise_mergeSort_descending (fun entry => entry.2.total) distinct ordered
  rw [sorted_entries, List.pairwise_map] at sorted
  exact sorted

theorem winnersSorted_eq (desiredTargets : Nat) :
    winnersSorted (winnerSupportMap pages) desiredTargets =
      ((ranked pages).take desiredTargets).map fun validator =>
        (validator, merged pages validator) := by
  rw [winnersSorted, sorted_entries]
  split
  · exact List.map_take.symm
  · next short =>
      rw [List.length_map] at short
      rw [List.take_of_length_le (by omega)]

theorem mem_take_ranked_iff {desiredTargets : Nat} {validator : Account} :
    validator ∈ (ranked pages).take desiredTargets ↔ Elected pages desiredTargets validator := by
  rw [mem_take_iff_ahead (fun _ _ => Ahead.asymm) ranked_pairwise, Elected,
    ranked_perm.mem_iff, (ranked_perm.filter _).length_eq]

end Ranking

section Print

variable {Solution : Type} (libraries : PredictionLibraries Account Solution)
  {context : PredictionContext} (divisible : 10 ^ context.tokenDecimals % 2 ^ 128 ≠ 0)

include divisible

theorem exists_token (planck : Nat) : ∃ text, context.token planck = some text :=
  ⟨_, if_neg divisible⟩

omit [LinearOrder Account] in
theorem exists_mapM_token {γ : Type} (shown : Account → String → γ)
    (stakes : List (Account × Nat)) :
    ∃ texts, (stakes.mapM fun entry => do
      pure (shown entry.1 (← context.token entry.2))) = some texts := by
  refine exists_mapM_some fun entry _ => ?_
  obtain ⟨text, printed⟩ := exists_token divisible entry.2
  exact ⟨shown entry.1 text, by rw [printed]; rfl⟩

omit [LinearOrder Account] in
theorem exists_validator_print (view : ValidatorView Account) :
    ∃ info, view.print libraries context = some info := by
  obtain ⟨total, totalStake⟩ := exists_token divisible view.totalStake
  obtain ⟨self, selfStake⟩ := exists_token divisible view.selfStake
  obtain ⟨texts, nominators⟩ := exists_mapM_token divisible (fun account => NominatorAllocation.mk
    (libraries.encodeAccountId account context.ss58Prefix)) view.nominators
  exact ⟨_, by rw [ValidatorView.print, nominators, totalStake, selfStake]; rfl⟩

omit [LinearOrder Account] in
theorem exists_nominator_print (view : NominatorView Account) :
    ∃ prediction, view.print libraries context = some prediction := by
  obtain ⟨total, stake⟩ := exists_token divisible view.stake
  obtain ⟨texts, active⟩ := exists_mapM_token divisible (fun account =>
    ValidatorStakeAllocation.mk (libraries.encodeAccountId account context.ss58Prefix))
    view.activeValidators
  exact ⟨_, by rw [NominatorView.print, active, stake]; rfl⟩

end Print

def stamped (timestamp : String) (prediction : Prediction) : Prediction :=
  ({ prediction.1 with metadata := { prediction.1.metadata with timestamp } }, prediction.2)

section Build

variable {Solution : Type} {libraries : PredictionLibraries Account Solution}
  {context : PredictionContext} {bounds : ElectionBounds} {solution : Solution}
  {targetSnapshot : TargetSnapshotPage Account bounds}
  {voterSnapshot : List (VoterSnapshotPage Account bounds)}
  (feasible : libraries.checkFeasibility bounds solution (.truncateFrom _ voterSnapshot)
    targetSnapshot context.desiredTargets = .ok pages)

include feasible

omit feasible in
theorem metadata_of_built {prediction : Prediction}
    (built : buildPredictionsFromSolution libraries context bounds solution targetSnapshot
      voterSnapshot = .ok prediction) :
    prediction.1.metadata = ⟨libraries.timestamp, context.desiredTargets, context.round,
      context.blockNumber, some (libraries.score solution), context.dataSource.text⟩ := by
  unfold buildPredictionsFromSolution at built
  split at built
  · cases built
  · dsimp only at built
    split at built
    · cases built
      rfl
    · cases built

omit feasible in
theorem built_stamped {prediction : Prediction}
    (built : buildPredictionsFromSolution libraries context bounds solution targetSnapshot
      voterSnapshot = .ok prediction) (timestamp : String) :
    buildPredictionsFromSolution { libraries with timestamp } context bounds solution targetSnapshot
      voterSnapshot = .ok (stamped timestamp prediction) := by
  unfold buildPredictionsFromSolution at built ⊢
  split at built
  · cases built
  · next pages feasible =>
      have printed : ValidatorView.print { libraries with timestamp } context =
          ValidatorView.print libraries context := rfl
      have shown : NominatorView.print { libraries with timestamp } context =
          NominatorView.print libraries context := rfl
      dsimp only at built ⊢
      rw [feasible, printed, shown]
      dsimp only
      split at built
      · cases built
        rfl
      · cases built

theorem built_prints {validators : ValidatorsPrediction} {nominators : NominatorsPrediction}
    (built : buildPredictionsFromSolution libraries context bounds solution targetSnapshot
      voterSnapshot = .ok (validators, nominators)) :
    (validatorViews pages context.desiredTargets).mapM (ValidatorView.print libraries context) =
        some validators.results ∧
      (nominatorViews pages context.desiredTargets (allVoters voterSnapshot)).mapM
        (NominatorView.print libraries context) = some nominators.nominators := by
  rw [buildPredictionsFromSolution, feasible] at built
  dsimp only at built
  split at built
  · next results predictions printed shown =>
      obtain ⟨rfl, rfl⟩ := Prod.mk.inj (LeanProgram.Outcome.ok.inj built)
      exact ⟨printed, shown⟩
  · cases built

theorem exists_built (divisible : 10 ^ context.tokenDecimals % 2 ^ 128 ≠ 0) :
    ∃ validators nominators, buildPredictionsFromSolution libraries context bounds solution
      targetSnapshot voterSnapshot = .ok (validators, nominators) := by
  obtain ⟨results, printed⟩ := exists_mapM_some
    fun view (_ : view ∈ validatorViews pages context.desiredTargets) =>
      exists_validator_print libraries divisible view
  obtain ⟨predictions, shown⟩ := exists_mapM_some
    fun view (_ : view ∈ nominatorViews pages context.desiredTargets (allVoters voterSnapshot)) =>
      exists_nominator_print libraries divisible view
  rw [buildPredictionsFromSolution, feasible]
  dsimp only
  rw [printed, shown]
  exact ⟨_, _, rfl⟩

theorem exists_built_of_ne_panic
    (returns : buildPredictionsFromSolution libraries context bounds solution targetSnapshot
      voterSnapshot ≠ .panic) :
    ∃ validators nominators, buildPredictionsFromSolution libraries context bounds solution
      targetSnapshot voterSnapshot = .ok (validators, nominators) := by
  rw [buildPredictionsFromSolution, feasible] at returns ⊢
  dsimp only at returns ⊢
  split
  · exact ⟨_, _, rfl⟩
  · next unprinted =>
      split at returns
      · next results predictions printed shown =>
          exact absurd shown (unprinted results predictions printed)
      · exact absurd rfl returns

end Build

end LeanStakingMiner
