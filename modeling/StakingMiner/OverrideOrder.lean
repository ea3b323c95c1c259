import StakingMiner.OverridePrecedence
import StakingMiner.Selection

/-!
When overrides leave voters in the order of their stakes.
-/

namespace LeanStakingMiner

open LeanKeyed LeanSelection

variable {Account : Type} [DecidableEq Account]

namespace ParsedOverrides

variable (parsed : ParsedOverrides Account) (voters : List (NominatorData Account))

def listedVoters : List (NominatorData Account) :=
  voters ++ freshEntries parsed.selfVotes voters

/-- The stake and targets a listed voter comes out with: the first entry of an account takes
the self-vote of its candidate, the last one what `voters_include` says. -/
def settledVote (position : Nat) (voter : NominatorData Account) : Nat × List Account :=
  let listed := parsed.listedVoters voters
  let selfVote := if voter.1 ∈ (listed.take position).map Prod.fst then none
    else lastValue voter.1 parsed.selfVotes
  let included := if voter.1 ∈ (listed.drop (position + 1)).map Prod.fst then none
    else lastValue voter.1 parsed.votersInclude
  (included.or selfVote).getD voter.2

def Appends (account : Account) : Prop :=
  account ∉ (parsed.listedVoters voters).map Prod.fst ∨ account ∈ parsed.votersExclude

instance (account : Account) : Decidable (parsed.Appends voters account) :=
  inferInstanceAs (Decidable (_ ∨ _))

/-- The stakes that overrides set fit in with those of the voters before and after. -/
structure FitsIn : Prop where
  listed : ∀ (p q : Nat) (earlier later : NominatorData Account), p < q →
    (parsed.listedVoters voters)[p]? = some earlier →
    (parsed.listedVoters voters)[q]? = some later →
    earlier.1 ∉ parsed.votersExclude → later.1 ∉ parsed.votersExclude →
    parsed.Names earlier.1 ∨ parsed.Names later.1 →
      (parsed.settledVote voters q later).1 ≤ (parsed.settledVote voters p earlier).1
  appended : ∀ added ∈ parsed.votersInclude, parsed.Appends voters added.1 →
    ∀ (p : Nat) (earlier : NominatorData Account),
      (parsed.listedVoters voters)[p]? = some earlier → earlier.1 ∉ parsed.votersExclude →
        added.2.1 ≤ (parsed.settledVote voters p earlier).1
  among : (parsed.votersInclude.filter fun added => parsed.Appends voters added.1).Pairwise
    fun earlier later => later.2.1 ≤ earlier.2.1

variable {parsed voters} {candidates : List (ValidatorData Account)}

theorem unnamed_descend (candidates : List (ValidatorData Account))
    (sorted : voters.Pairwise fun earlier later => later.2.1 ≤ earlier.2.1) :
    (parsed.apply candidates voters).2.Pairwise fun earlier later =>
      ¬parsed.Names earlier.1 → ¬parsed.Names later.1 → later.2.1 ≤ earlier.2.1 := by
  have unnamed : ((parsed.apply candidates voters).2.filter
      fun entry => ¬parsed.Names entry.1).Pairwise
        fun earlier later => later.2.1 ≤ earlier.2.1 := by
    rw [parsed.unnamed_voters candidates voters]
    exact sorted.sublist List.filter_sublist
  simpa only [List.pairwise_filter, decide_eq_true_eq] using unnamed

theorem puts_selfVotes_keys :
    (puts parsed.selfVotes voters).map Prod.fst = (parsed.listedVoters voters).map Prod.fst := by
  rw [puts_eq_changeAt_all, changeAt_keys, listedVoters]

theorem mem_mapped_keys_iff_not_appends {account : Account} :
    account ∈ (parsed.mappedVoters voters).map Prod.fst ↔ ¬parsed.Appends voters account := by
  rw [mem_mapped_keys, puts_selfVotes_keys, Appends, not_or, not_not]

def settledVoters (parsed : ParsedOverrides Account) (voters : List (NominatorData Account)) :
    List (NominatorData Account) :=
  changeAt isLast parsed.votersInclude []
    (changeAt isFirst parsed.selfVotes [] (parsed.listedVoters voters))

theorem apply_voters_settled :
    (parsed.apply candidates voters).2 =
      ((parsed.settledVoters voters).filter fun entry => entry.1 ∉ parsed.votersExclude) ++
        parsed.votersInclude.filter fun added => parsed.Appends voters added.1 := by
  have changed : changeAt isLast parsed.votersInclude [] (parsed.mappedVoters voters) =
      (parsed.settledVoters voters).filter fun entry => entry.1 ∉ parsed.votersExclude := by
    rw [mappedVoters, puts_eq_changeAt_all]
    exact changeLast_filter (fun account => decide (account ∉ parsed.votersExclude)) _ _
  rw [apply_voters_eq, changed]
  congr 1
  refine List.filter_congr fun added _ => ?_
  rw [decide_eq_decide, mem_mapped_keys_iff_not_appends, not_not]

theorem getElem?_settledVoters (position : Nat) :
    (parsed.settledVoters voters)[position]? =
      (parsed.listedVoters voters)[position]?.map fun voter =>
        (voter.1, parsed.settledVote voters position voter) := by
  rw [settledVoters, getElem?_changeAt, getElem?_changeAt, Option.map_map, List.map_drop,
    changeAt_keys, ← List.map_drop]
  congr 1
  funext voter
  simp only [Function.comp_apply, isFirst, isLast, settledVote, List.append_nil,
    List.mem_reverse, decide_eq_true_eq]
  by_cases again : voter.1 ∈ ((parsed.listedVoters voters).take position).map Prod.fst
  · by_cases later : voter.1 ∈ ((parsed.listedVoters voters).drop (position + 1)).map Prod.fst
    · simp only [again, later, not_true_eq_false, if_true, if_false]
      rfl
    · simp only [again, later, not_true_eq_false, not_false_eq_true, if_true, if_false,
        Option.or_none]
  · by_cases later : voter.1 ∈ ((parsed.listedVoters voters).drop (position + 1)).map Prod.fst
    · simp only [again, later, not_true_eq_false, not_false_eq_true, if_true, if_false,
        Option.none_or]
    · simp only [again, later, not_false_eq_true, if_true, if_false]
      cases lastValue voter.1 parsed.votersInclude <;> rfl

theorem pairwise_settledVoters_iff
    {relates : NominatorData Account → NominatorData Account → Prop} :
    (parsed.settledVoters voters).Pairwise relates ↔
      ∀ (p q : Nat) (earlier later : NominatorData Account), p < q →
        (parsed.listedVoters voters)[p]? = some earlier →
        (parsed.listedVoters voters)[q]? = some later →
          relates (earlier.1, parsed.settledVote voters p earlier)
            (later.1, parsed.settledVote voters q later) := by
  rw [pairwise_iff_getElem?]
  constructor
  · intro related p q earlier later before atP atQ
    refine related p q _ _ before ?_ ?_
    · rw [getElem?_settledVoters, atP, Option.map_some]
    · rw [getElem?_settledVoters, atQ, Option.map_some]
  · intro related p q first second before atP atQ
    rw [getElem?_settledVoters] at atP atQ
    obtain ⟨earlier, listedP, rfl⟩ := Option.map_eq_some_iff.mp atP
    obtain ⟨later, listedQ, rfl⟩ := Option.map_eq_some_iff.mp atQ
    exact related p q earlier later before listedP listedQ

theorem mem_settledVoters_iff {voter : NominatorData Account} :
    voter ∈ parsed.settledVoters voters ↔ ∃ p earlier,
      (parsed.listedVoters voters)[p]? = some earlier ∧
        (earlier.1, parsed.settledVote voters p earlier) = voter := by
  simp only [List.mem_iff_getElem?, getElem?_settledVoters, Option.map_eq_some_iff]

theorem descends_iff_named (candidates : List (ValidatorData Account))
    (sorted : voters.Pairwise fun earlier later => later.2.1 ≤ earlier.2.1) :
    ((parsed.apply candidates voters).2.Pairwise fun earlier later => later.2.1 ≤ earlier.2.1) ↔
      (parsed.apply candidates voters).2.Pairwise fun earlier later =>
        parsed.Names earlier.1 ∨ parsed.Names later.1 → later.2.1 ≤ earlier.2.1 := by
  constructor
  · intro descends
    refine descends.imp ?_
    exact fun le _ => le
  · intro fits
    refine (fits.and (unnamed_descend candidates sorted)).imp ?_
    intro earlier later both
    by_cases one : parsed.Names earlier.1 ∨ parsed.Names later.1
    · exact both.1 one
    · exact both.2 (fun first => one (.inl first)) fun second => one (.inr second)

theorem descends_iff_fitsIn (candidates : List (ValidatorData Account))
    (sorted : voters.Pairwise fun earlier later => later.2.1 ≤ earlier.2.1) :
    ((parsed.apply candidates voters).2.Pairwise fun earlier later => later.2.1 ≤ earlier.2.1) ↔
      parsed.FitsIn voters := by
  rw [descends_iff_named candidates sorted, apply_voters_settled, List.pairwise_append,
    List.pairwise_filter]
  simp only [pairwise_settledVoters_iff, decide_eq_true_eq]
  have included {added : NominatorData Account} (member : added ∈ parsed.votersInclude) :
      parsed.Names added.1 := .inr (.inr (.inl (List.mem_map_of_mem member)))
  constructor
  · rintro ⟨listed, among, cross⟩
    refine ⟨listed, ?_, ?_⟩
    · intro added member appends p earlier atP kept
      have first : (earlier.1, parsed.settledVote voters p earlier) ∈
          (parsed.settledVoters voters).filter fun entry => entry.1 ∉ parsed.votersExclude :=
        List.mem_filter.mpr ⟨mem_settledVoters_iff.mpr ⟨p, earlier, atP, rfl⟩, by simpa using kept⟩
      exact cross _ first added (List.mem_filter.mpr ⟨member, by simpa using appends⟩)
        (.inr (included member))
    · refine among.imp_of_mem fun member _ fits => fits ?_
      exact .inl (included (List.mem_filter.mp member).1)
  · intro fits
    refine ⟨fits.listed, ?_, fun first member added taken _ => ?_⟩
    · refine fits.among.imp ?_
      exact fun le _ => le
    · obtain ⟨settled, kept⟩ := List.mem_filter.mp member
      obtain ⟨p, earlier, atP, rfl⟩ := mem_settledVoters_iff.mp settled
      obtain ⟨listed, appends⟩ := List.mem_filter.mp taken
      exact fits.appended added listed (by simpa using appends) p earlier atP (by simpa using kept)

end ParsedOverrides

end LeanStakingMiner
