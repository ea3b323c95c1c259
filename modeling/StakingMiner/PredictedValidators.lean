import StakingMiner.PredictionLogic
import StakingMiner.Traversals

/-!
The validators of a prediction: their stakes add up, they are the winners with the most
stake, and they do not depend on the order of the pages.
-/

namespace LeanStakingMiner

open LeanKeyed LeanPaging LeanSelection LeanTraversal

variable {Account : Type} [LinearOrder Account] {pages other : List (PageSupports Account)}

theorem validatorViews_eq (desiredTargets : Nat) :
    validatorViews pages desiredTargets = ((ranked pages).take desiredTargets).map
      fun validator => validatorView (validator, merged pages validator) := by
  rw [validatorViews, winnersSorted_eq, List.map_map]
  rfl

section Sums

theorem sum_eq_self_add_others {backings : List (Account × Nat)} {validator : Account}
    (single : (backings.map Prod.fst).Nodup) :
    (backings.map Prod.snd).sum =
      ((backings.find? fun entry => entry.1 = validator).map Prod.snd).getD 0 +
        ((backings.filter fun entry => entry.1 ≠ validator).map Prod.snd).sum := by
  induction backings with
  | nil => rfl
  | cons entry rest ih =>
      obtain ⟨fresh, single⟩ := List.nodup_cons.mp single
      by_cases self : entry.1 = validator
      · have others : (rest.filter fun entry => entry.1 ≠ validator) = rest := by
          rw [List.filter_eq_self]
          intro later member
          have different : later.1 ≠ entry.1 :=
            fun same => fresh (same ▸ List.mem_map_of_mem member)
          simpa [self] using different
        rw [List.find?_cons_of_pos (by simpa using self),
          List.filter_cons_of_neg (by simpa using self), others]
        simp
      · rw [List.find?_cons_of_neg (by simpa using self),
          List.filter_cons_of_pos (by simpa using self), List.map_cons, List.sum_cons, ih single,
          List.map_cons, List.sum_cons]
        omega

theorem totalOf_eq_sum {validator : Account}
    (totals : ∀ page ∈ pages, ∀ entry ∈ page, entry.2.total = (entry.2.voters.map Prod.snd).sum)
    (small : ((backing pages validator).map Prod.snd).sum < 2 ^ 128) :
    totalOf pages validator = ((backing pages validator).map Prod.snd).sum := by
  have each : (supportsOf pages validator).map Support.total =
      (supportsOf pages validator).map fun support => (support.voters.map Prod.snd).sum := by
    refine List.map_congr_left fun support member => ?_
    obtain ⟨entry, listed, rfl⟩ := List.mem_map.mp member
    obtain ⟨page, stored, within⟩ := List.mem_flatten.mp (List.mem_filter.mp listed).1
    exact totals page stored entry within
  have sums : ((supportsOf pages validator).map Support.total).sum =
      ((backing pages validator).map Prod.snd).sum := by
    rw [each, backing, List.map_flatMap, List.flatMap_def, List.sum_flatten, List.map_map]
    rfl
  rw [totalOf, sums]
  omega

theorem nominators_perm (winner : Account × Support Account) :
    (validatorView winner).nominators.Perm
      (winner.2.voters.filter fun entry => entry.1 ≠ winner.1) :=
  List.mergeSort_perm _ _

theorem view_adds_up {validator : Account}
    (totals : ∀ page ∈ pages, ∀ entry ∈ page, entry.2.total = (entry.2.voters.map Prod.snd).sum)
    (single : ((backing pages validator).map Prod.fst).Nodup)
    (small : ((backing pages validator).map Prod.snd).sum < 2 ^ 128) :
    (validatorView (validator, merged pages validator)).totalStake =
      (validatorView (validator, merged pages validator)).selfStake +
        ((validatorView (validator, merged pages validator)).nominators.map Prod.snd).sum := by
  rw [((nominators_perm _).map Prod.snd).sum_eq]
  exact (totalOf_eq_sum totals small).trans (sum_eq_self_add_others single)

theorem sum_eq_filters (backings : List (Account × Nat)) (validator : Account) :
    (backings.map Prod.snd).sum =
      ((backings.filter fun entry => entry.1 = validator).map Prod.snd).sum +
        ((backings.filter fun entry => entry.1 ≠ validator).map Prod.snd).sum := by
  have split := ((List.filter_append_perm (fun entry => decide (entry.1 = validator))
    backings).map Prod.snd).sum_eq
  rw [List.map_append, List.sum_append] at split
  simpa using split.symm

theorem view_of_backing {validator : Account}
    (totals : ∀ page ∈ pages, ∀ entry ∈ page, entry.2.total = (entry.2.voters.map Prod.snd).sum)
    (single : ((backing pages validator).map Prod.fst).Nodup)
    (small : ((backing pages validator).map Prod.snd).sum < 2 ^ 128) :
    let view := validatorView (validator, merged pages validator)
    view.totalStake = ((backing pages validator).map Prod.snd).sum ∧
      view.selfStake =
        (((backing pages validator).filter fun entry => entry.1 = validator).map Prod.snd).sum ∧
      view.nominators.Perm ((backing pages validator).filter fun entry => entry.1 ≠ validator) := by
  refine ⟨totalOf_eq_sum totals small, ?_, nominators_perm _⟩
  have adds := view_adds_up totals single small
  rw [((nominators_perm (validator, merged pages validator)).map Prod.snd).sum_eq,
    show (validatorView (validator, merged pages validator)).totalStake = _ from
      totalOf_eq_sum totals small, sum_eq_filters _ validator] at adds
  exact (Nat.add_right_cancel adds).symm

end Sums

section Permuted

variable (same : other.Perm pages)

include same

theorem supportsOf_perm (validator : Account) :
    (supportsOf other validator).Perm (supportsOf pages validator) :=
  (same.flatten.filter _).map _

theorem backing_perm (validator : Account) :
    (backing other validator).Perm (backing pages validator) :=
  (supportsOf_perm same validator).flatMap_right _

theorem totalOf_perm : totalOf other = totalOf pages := by
  funext validator
  rw [totalOf, totalOf, ((supportsOf_perm same validator).map Support.total).sum_eq]

theorem ranked_of_perm : ranked other = ranked pages := by
  have keys : (ranked other).Perm (ranked pages) :=
    ranked_perm.trans (((same.flatten.map Prod.fst).dedup).trans ranked_perm.symm)
  have order : Ahead other = Ahead pages := by
    unfold Ahead
    rw [totalOf_perm same]
  have ranking : (ranked other).Pairwise (Ahead pages) := order ▸ ranked_pairwise
  refine keys.eq_of_pairwise (fun first second _ _ ahead behind => ?_) ranking ranked_pairwise
  exact absurd behind ahead.asymm

theorem nominators_of_perm (validator : Account) :
    (validatorView (validator, merged other validator)).nominators.Perm
      (validatorView (validator, merged pages validator)).nominators := by
  refine (nominators_perm _).trans (((backing_perm same validator).filter _).trans ?_)
  exact (nominators_perm (validator, merged pages validator)).symm

theorem selfStake_of_perm {validator : Account}
    (totals : ∀ page ∈ pages, ∀ entry ∈ page, entry.2.total = (entry.2.voters.map Prod.snd).sum)
    (single : ((backing pages validator).map Prod.fst).Nodup)
    (small : ((backing pages validator).map Prod.snd).sum < 2 ^ 128) :
    (validatorView (validator, merged other validator)).selfStake =
      (validatorView (validator, merged pages validator)).selfStake := by
  have backed := backing_perm same validator
  have permuted := view_adds_up (fun page member => totals page (same.mem_iff.mp member))
    ((backed.map Prod.fst).nodup_iff.mpr single) ((backed.map Prod.snd).sum_eq ▸ small)
  have total : (validatorView (validator, merged other validator)).totalStake =
      (validatorView (validator, merged pages validator)).totalStake :=
    congrFun (totalOf_perm same) validator
  rw [total, view_adds_up totals single small,
    ((nominators_of_perm same validator).map Prod.snd).sum_eq] at permuted
  exact (Nat.add_right_cancel permuted).symm

end Permuted

theorem left_out_le {desiredTargets : Nat} {winner : Account} {view : ValidatorView Account}
    (won : winner ∈ winners pages)
    (left : winner ∉ (validatorViews pages desiredTargets).map ValidatorView.account)
    (listed : view ∈ validatorViews pages desiredTargets) :
    totalOf pages winner ≤ view.totalStake := by
  rw [validatorViews_eq] at left listed
  obtain ⟨validator, first, rfl⟩ := List.mem_map.mp listed
  have ranking : (ranked pages).Pairwise (Ahead pages) := ranked_pairwise
  rw [← List.take_append_drop desiredTargets (ranked pages)] at ranking
  have dropped : winner ∈ (ranked pages).drop desiredTargets := by
    have all := ranked_perm.mem_iff.mpr won
    rw [← List.take_append_drop desiredTargets (ranked pages), List.mem_append] at all
    refine all.resolve_left fun kept => left ?_
    rw [List.map_map]
    exact List.mem_map.mpr ⟨winner, kept, rfl⟩
  rcases (List.pairwise_append.mp ranking).2.2 validator first winner dropped with less | ⟨tie, _⟩
  · exact Nat.le_of_lt less
  · exact Nat.le_of_eq tie.symm

omit [LinearOrder Account] in
theorem nominatorCount_of_print {Solution : Type} {libraries : PredictionLibraries Account Solution}
    {context : PredictionContext} (view : ValidatorView Account) (info : ValidatorInfo)
    (printed : view.print libraries context = some info) :
    info.nominatorCount = view.nominators.length := by
  simp only [ValidatorView.print, Option.bind_eq_bind, Option.pure_def,
    Option.bind_eq_some_iff] at printed
  obtain ⟨_, _, _, _, _, _, given⟩ := printed
  rw [← Option.some.inj given]

/-- The stakes of a listed validator are those of its merged supports and add up, the listed
validators are the first in the order of total stake and account, and the order of the pages makes
no difference. -/
theorem predicted_validators_add_up {Solution : Type}
    (libraries : PredictionLibraries Account Solution) (context : PredictionContext)
    (bounds : ElectionBounds) (solution : Solution)
    (targetSnapshot : TargetSnapshotPage Account bounds)
    (voterSnapshot : List (VoterSnapshotPage Account bounds))
    (pages : List (PageSupports Account)) (validators : ValidatorsPrediction)
    (nominators : NominatorsPrediction)
    (feasible : libraries.checkFeasibility bounds solution (.truncateFrom _ voterSnapshot)
      targetSnapshot context.desiredTargets = .ok pages)
    (built : buildPredictionsFromSolution libraries context bounds solution targetSnapshot
      voterSnapshot = .ok (validators, nominators))
    (totals : ∀ page ∈ pages, ∀ entry ∈ page, entry.2.total = (entry.2.voters.map Prod.snd).sum)
    (single : ∀ validator, ((backing pages validator).map Prod.fst).Nodup)
    (small : ∀ validator, ((backing pages validator).map Prod.snd).sum < 2 ^ 128) :
    (validatorViews pages context.desiredTargets).mapM (ValidatorView.print libraries context) =
        some validators.results ∧
      (∀ view ∈ validatorViews pages context.desiredTargets,
        view.totalStake = view.selfStake + (view.nominators.map Prod.snd).sum) ∧
      (∀ view ∈ validatorViews pages context.desiredTargets, view.account ∈ winners pages ∧
        view.totalStake = ((backing pages view.account).map Prod.snd).sum ∧
        view.selfStake = (((backing pages view.account).filter
          fun entry => entry.1 = view.account).map Prod.snd).sum ∧
        view.nominators.Perm
          ((backing pages view.account).filter fun entry => entry.1 ≠ view.account)) ∧
      validators.results.map ValidatorInfo.nominatorCount =
        (validatorViews pages context.desiredTargets).map (fun view => view.nominators.length) ∧
      (validatorViews pages context.desiredTargets).length ≤ context.desiredTargets ∧
      ((validatorViews pages context.desiredTargets).Pairwise fun first second =>
        second.totalStake < first.totalStake ∨
          first.totalStake = second.totalStake ∧ first.account < second.account) ∧
      (∀ winner ∈ winners pages,
        winner ∉ (validatorViews pages context.desiredTargets).map ValidatorView.account →
        ∀ view ∈ validatorViews pages context.desiredTargets,
          ((backing pages winner).map Prod.snd).sum ≤ view.totalStake) ∧
      ∀ other, other.Perm pages → List.Forall₂ (fun permuted view =>
          permuted.account = view.account ∧ permuted.totalStake = view.totalStake ∧
            permuted.selfStake = view.selfStake ∧ permuted.nominators.Perm view.nominators)
        (validatorViews other context.desiredTargets)
        (validatorViews pages context.desiredTargets) := by
  have printed := (built_prints feasible built).1
  have adds (validator : Account) := view_adds_up totals (single validator) (small validator)
  refine ⟨printed, ?_, ?_, map_of_mapM_some nominatorCount_of_print printed, ?_, ?_, ?_, ?_⟩
  · intro view member
    rw [validatorViews_eq] at member
    obtain ⟨validator, _, rfl⟩ := List.mem_map.mp member
    exact adds validator
  · intro view member
    rw [validatorViews_eq] at member
    obtain ⟨validator, first, rfl⟩ := List.mem_map.mp member
    exact ⟨ranked_perm.mem_iff.mp (List.mem_of_mem_take first),
      view_of_backing totals (single validator) (small validator)⟩
  · rw [validatorViews_eq, List.length_map]
    exact List.length_take_le _ _
  · rw [validatorViews_eq, List.pairwise_map]
    exact ranked_pairwise.sublist (List.take_sublist _ _)
  · intro winner won left view member
    rw [← totalOf_eq_sum totals (small winner)]
    exact left_out_le won left member
  · intro other same
    rw [validatorViews_eq, validatorViews_eq, ranked_of_perm same, List.forall₂_map_left_iff,
      List.forall₂_map_right_iff, List.forall₂_same]
    intro validator _
    exact ⟨rfl, congrFun (totalOf_perm same) validator,
      selfStake_of_perm same totals (single validator) (small validator),
      nominators_of_perm same validator⟩

def supportsMiner (pages : List (PageSupports Nat)) : PredictionLibraries Nat Unit where
  checkFeasibility _ _ _ _ _ := .ok pages
  score _ := ⟨0, 0, 0⟩
  encodeAccountId account _ := toString account
  timestamp := "0"

def supportsContext (desiredTargets : Nat) : PredictionContext :=
  ⟨0, desiredTargets, 0, 0, 0, "", .staking⟩

def spreadSupports : List (PageSupports Nat) :=
  [[(1, ⟨5, [(1, 2), (2, 3)]⟩)], [(3, ⟨4, [(2, 4)]⟩), (1, ⟨1, [(3, 1)]⟩)]]

theorem predicted_validators_add_up_spread :
    ∃ validators nominators, buildPredictionsFromSolution (supportsMiner spreadSupports)
        (supportsContext 1) ⟨2, 1, 1, 1⟩ () ⟨[], by decide⟩ [] = .ok (validators, nominators) ∧
      (validatorViews spreadSupports 1).length = 1 ∧
      ∀ view ∈ validatorViews spreadSupports 1,
        view.totalStake = view.selfStake + (view.nominators.map Prod.snd).sum := by
  have feasible : (supportsMiner spreadSupports).checkFeasibility ⟨2, 1, 1, 1⟩ ()
      (.truncateFrom _ []) ⟨[], by decide⟩ (supportsContext 1).desiredTargets =
        .ok spreadSupports := rfl
  obtain ⟨validators, nominators, built⟩ := exists_built feasible (by decide)
  have backed (validator : Nat) : ((backing spreadSupports validator).map Prod.fst).Nodup ∧
      ((backing spreadSupports validator).map Prod.snd).sum < 2 ^ 128 := by
    by_cases winner : validator ∈ winners spreadSupports
    · revert validator
      decide
    · rw [backing_eq_nil winner]
      decide
  have facts := predicted_validators_add_up _ _ _ _ _ _ _ _ _ feasible built (by decide)
    (fun validator => (backed validator).1) fun validator => (backed validator).2
  refine ⟨validators, nominators, built, ?_, facts.2.1⟩
  rw [validatorViews_eq, List.length_map, List.length_take, ranked_perm.length_eq]
  decide

end LeanStakingMiner
