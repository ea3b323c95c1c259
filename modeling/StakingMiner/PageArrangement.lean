import StakingMiner.ElectionDataLogic
import StakingMiner.OverrideOrder

/-!
Where voters end up when election data is arranged in pages: which of them are kept, and
whether stronger voters come on later pages.
-/

namespace LeanStakingMiner

open LeanPaging LeanKeyed LeanSelection

section Capacity

variable {Account : Type} {bounds : ElectionBounds}

theorem fillPages_length (libraries : Libraries Account) (voters : List (NominatorData Account))
    (pages : 0 < bounds.pages) (size : 0 < bounds.voterSnapshotPerBlock) :
    (fillPages libraries bounds voters).length ≤ bounds.pages := by
  obtain ⟨packed, flat⟩ := fillPages_packed libraries voters size
  have fits : ((fillPages libraries bounds voters).map (·.items)).flatten.length ≤
      bounds.pages * bounds.voterSnapshotPerBlock := by
    rw [flat, List.length_map, dropWeakest_length libraries voters (Nat.mul_pos pages size)]
    omega
  simpa using packed.length_le fits

theorem arranged_arranged (dataSource : ElectionDataSource)
    (pages : List (VoterSnapshotPage Account bounds)) :
    arranged dataSource (arranged dataSource pages) = pages := by
  cases dataSource with
  | staking => exact List.reverse_reverse pages
  | snapshot => rfl

theorem arranged_length (dataSource : ElectionDataSource)
    (pages : List (VoterSnapshotPage Account bounds)) :
    (arranged dataSource pages).length = pages.length := by
  cases dataSource with
  | staking => exact List.length_reverse
  | snapshot => rfl

/-- The pages hold as many voters as fit, the strongest ones, in the order they came in, and
fill up one page after the other. So no push finds its page full, and cutting the pages to
`T::Pages` later drops nobody. -/
theorem snapshot_keeps_strongest_voters (libraries : Libraries Account) (bounds : ElectionBounds)
    (pagesPositive : 1 ≤ bounds.pages) (sizePositive : 1 ≤ bounds.voterSnapshotPerBlock)
    (candidates : List (ValidatorData Account)) (voters : List (NominatorData Account))
    (dataSource : ElectionDataSource) :
    ∃ targets pages, ∃ kept dropped : List (NominatorData Account),
      convertElectionDataToSnapshots libraries bounds candidates voters dataSource =
        .ok (targets, pages) ∧
      (arranged dataSource pages).flatMap (·.items) = kept.map (convertVoter bounds) ∧
      kept.Sublist voters ∧ (kept ++ dropped).Perm voters ∧
      kept.length = min voters.length (bounds.pages * bounds.voterSnapshotPerBlock) ∧
      (∀ strong ∈ kept, ∀ weak ∈ dropped, weak.2.1 ≤ strong.2.1) ∧
      (∀ page ∈ (arranged dataSource pages).dropLast,
        page.items.length = bounds.voterSnapshotPerBlock) ∧
      pages.length ≤ bounds.pages ∧
      (∀ before voter after, kept.map (convertVoter bounds) = before ++ voter :: after →
        ∀ last, (before.foldl pushVoter []).getLast? = some last →
          last.items.length < bounds.voterSnapshotPerBlock →
            ∃ fuller, last.tryPush voter = .ok fuller) ∧
      (BoundedVec.truncateFrom bounds.pages pages).items = pages := by
  obtain ⟨packed, flat⟩ := fillPages_packed libraries voters sizePositive
  have enough := fillPages_length libraries voters pagesPositive sizePositive
  refine ⟨_, _, dropWeakest libraries bounds voters, weakest libraries voters bounds,
    convert_eq libraries bounds candidates voters dataSource, ?_,
    dropWeakest_sublist libraries voters, dropWeakest_append_weakest_perm libraries voters,
    dropWeakest_length libraries voters (Nat.mul_pos pagesPositive sizePositive),
    fun strong kept weak cut => weakest_le libraries voters kept cut, ?_, ?_,
    fun _ _ _ _ _ _ => tryPush_of_room, ?_⟩
  · rw [arranged_arranged, List.flatMap_def, flat]
  · intro page member
    rw [arranged_arranged] at member
    refine packed.full page.items ?_
    rw [← List.map_dropLast]
    exact List.mem_map_of_mem member
  · rw [arranged_length]
    exact enough
  · refine List.take_of_length_le ?_
    rw [arranged_length]
    exact enough

theorem snapshot_keeps_strongest_voters_trimmed :
    ∃ targets pages, convertElectionDataToSnapshots sampleLibraries ⟨2, 1, 1, 1⟩ [(1, 0)]
        [(1, 5, [1]), (2, 3, [1]), (3, 4, [1])] .staking = .ok (targets, pages) ∧
      pages.length ≤ 2 := by
  obtain ⟨targets, pages, _, _, converted, _, _, _, _, _, _, enough, _⟩ :=
    snapshot_keeps_strongest_voters sampleLibraries ⟨2, 1, 1, 1⟩ (by decide) (by decide) [(1, 0)]
      [(1, 5, [1]), (2, 3, [1]), (3, 4, [1])] .staking
  exact ⟨targets, pages, converted, enough⟩

end Capacity

section Order

variable {Account : Type} {bounds : ElectionBounds}

/-- Page 0 holds the weakest voters and the last page the strongest. -/
def PagesAscend (pages : List (VoterSnapshotPage Account bounds)) : Prop :=
  ∀ (i j : Nat) (lower upper : VoterSnapshotPage Account bounds), i < j → pages[i]? = some lower →
    pages[j]? = some upper → ∀ weak ∈ lower.items, ∀ strong ∈ upper.items, weak.2.1 ≤ strong.2.1

theorem pagesAscend_reverse_iff (pages : List (VoterSnapshotPage Account bounds)) :
    PagesAscend pages.reverse ↔
      ∀ (i j : Nat) (earlier later : VoterSnapshotPage Account bounds), i < j →
        pages[i]? = some earlier → pages[j]? = some later →
          ∀ strong ∈ earlier.items, ∀ weak ∈ later.items, weak.2.1 ≤ strong.2.1 := by
  constructor
  · intro ascends i j earlier later before atI atJ strong inEarlier weak inLater
    have insideI := (List.getElem?_eq_some_iff.mp atI).1
    have insideJ := (List.getElem?_eq_some_iff.mp atJ).1
    refine ascends (pages.length - 1 - j) (pages.length - 1 - i) later earlier (by omega) ?_ ?_
      weak inLater strong inEarlier
    · rw [List.getElem?_reverse (by omega), ← atJ]
      congr 1
      omega
    · rw [List.getElem?_reverse (by omega), ← atI]
      congr 1
      omega
  · intro descends i j lower upper before atI atJ weak inLower strong inUpper
    have insideJ := (List.getElem?_eq_some_iff.mp atJ).1
    rw [List.length_reverse] at insideJ
    rw [List.getElem?_reverse (by omega)] at atI atJ
    exact descends (pages.length - 1 - j) (pages.length - 1 - i) upper lower (by omega) atJ atI
      strong inUpper weak inLower

theorem mem_fillPages_iff (libraries : Libraries Account) (voters : List (NominatorData Account))
    (positive : 0 < bounds.voterSnapshotPerBlock) (i stake : Nat) :
    (∃ page, (fillPages libraries bounds voters)[i]? = some page ∧
        ∃ voter ∈ page.items, voter.2.1 = stake) ↔
      ∃ position entry, position / bounds.voterSnapshotPerBlock = i ∧
        (dropWeakest libraries bounds voters)[position]? = some entry ∧ entry.2.1 = stake := by
  obtain ⟨packed, flat⟩ := fillPages_packed libraries voters positive
  constructor
  · rintro ⟨page, listed, voter, member, rfl⟩
    obtain ⟨position, quotient, placed⟩ := (packed.mem_page_iff positive i voter).mp
      ⟨page.items, by simp [listed], member⟩
    rw [flat, List.getElem?_map] at placed
    obtain ⟨entry, found, rfl⟩ := Option.map_eq_some_iff.mp placed
    exact ⟨position, entry, quotient, found, rfl⟩
  · rintro ⟨position, entry, quotient, placed, rfl⟩
    have shown : (((fillPages libraries bounds voters).map BoundedVec.items).flatten)[position]? =
        some (convertVoter bounds entry) := by
      rw [flat, List.getElem?_map, placed]
      rfl
    obtain ⟨items, listed, member⟩ :=
      (packed.mem_page_iff positive i (convertVoter bounds entry)).mpr ⟨position, quotient, shown⟩
    rw [List.getElem?_map] at listed
    obtain ⟨page, found, rfl⟩ := Option.map_eq_some_iff.mp listed
    exact ⟨page, found, _, member, rfl⟩

theorem fillPages_ascend_iff (libraries : Libraries Account) (bounds : ElectionBounds)
    (voters : List (NominatorData Account)) :
    PagesAscend (fillPages libraries bounds voters).reverse ↔
      ∀ p q earlier later, (dropWeakest libraries bounds voters)[p]? = some earlier →
        (dropWeakest libraries bounds voters)[q]? = some later →
        p / bounds.voterSnapshotPerBlock < q / bounds.voterSnapshotPerBlock →
          later.2.1 ≤ earlier.2.1 := by
  rw [pagesAscend_reverse_iff]
  rcases Nat.eq_zero_or_pos bounds.voterSnapshotPerBlock with zero | positive
  · -- without room on a page there is nothing to compare
    constructor
    · intro _ p q _ _ _ _ apart
      simp [zero] at apart
    · intro _ i j earlier later _ _ _ strong member
      have bounded := earlier.bounded
      have empty : earlier.items = [] := List.eq_nil_of_length_eq_zero (by omega)
      rw [empty] at member
      contradiction
  · constructor
    · intro descends p q earlier later atP atQ apart
      obtain ⟨first, firstAt, strong, inFirst, strongStake⟩ :=
        (mem_fillPages_iff libraries voters positive _ _).mpr ⟨p, earlier, rfl, atP, rfl⟩
      obtain ⟨second, secondAt, weak, inSecond, weakStake⟩ :=
        (mem_fillPages_iff libraries voters positive _ _).mpr ⟨q, later, rfl, atQ, rfl⟩
      rw [← strongStake, ← weakStake]
      exact descends _ _ first second apart firstAt secondAt strong inFirst weak inSecond
    · intro ordered i j earlier later before atI atJ strong inEarlier weak inLater
      obtain ⟨p, first, atPage, firstAt, firstStake⟩ :=
        (mem_fillPages_iff libraries voters positive i _).mp ⟨earlier, atI, strong, inEarlier, rfl⟩
      obtain ⟨q, second, atLater, secondAt, secondStake⟩ :=
        (mem_fillPages_iff libraries voters positive j _).mp ⟨later, atJ, weak, inLater, rfl⟩
      rw [← firstStake, ← secondStake]
      exact ordered p q first second firstAt secondAt (by rwa [atPage, atLater])

/-- Whatever the size of a page and their number, stronger voters come on later pages exactly
if the voters were in the order of their stakes. -/
theorem always_ascend_iff (libraries : Libraries Account) (voters : List (NominatorData Account)) :
    (∀ bounds, PagesAscend (fillPages libraries bounds voters).reverse) ↔
      voters.Pairwise fun earlier later => later.2.1 ≤ earlier.2.1 := by
  constructor
  · intro ascends
    have whole : dropWeakest libraries ⟨voters.length + 1, 1, 1, 1⟩ voters = voters := by
      refine (dropWeakest_sublist libraries voters).eq_of_length ?_
      rw [dropWeakest_length libraries voters (by simp)]
      simp
    have ordered := (fillPages_ascend_iff libraries _ voters).mp
      (ascends ⟨voters.length + 1, 1, 1, 1⟩)
    rw [whole] at ordered
    rw [pairwise_iff_getElem?]
    intro p q earlier later before atP atQ
    exact ordered p q earlier later atP atQ (by simpa using before)
  · intro sorted bounds
    have part : (dropWeakest libraries bounds voters).Sublist voters :=
      dropWeakest_sublist libraries voters
    have kept := pairwise_iff_getElem?.mp (sorted.sublist part)
    rw [fillPages_ascend_iff]
    intro p q earlier later atP atQ apart
    exact kept p q earlier later (Nat.lt_of_div_lt_div apart) atP atQ

/-- Stronger voters come on later pages, whatever the bounds are, exactly if the stakes that
the overrides set fit in with those of the voters before and after. -/
theorem staking_pages_ascend_iff [DecidableEq Account] (libraries : Libraries Account)
    (candidates : List (ValidatorData Account)) (voters : List (NominatorData Account))
    (sorted : voters.Pairwise fun earlier later => later.2.1 ≤ earlier.2.1)
    (overrides : ElectionOverrides) (newCandidates : List (ValidatorData Account))
    (newVoters : List (NominatorData Account))
    (applied : applyOverrides libraries candidates voters overrides =
      .ok (newCandidates, newVoters)) :
    ∃ parsed, overrides.parsed libraries = some parsed ∧
      ((∀ bounds, ∃ targets pages,
          convertElectionDataToSnapshots libraries bounds newCandidates newVoters .staking =
            .ok (targets, pages) ∧ PagesAscend pages) ↔ parsed.FitsIn voters) := by
  obtain ⟨parsed, read, same⟩ := applyOverrides_parsed applied
  have sameVoters : newVoters = (parsed.apply candidates voters).2 := congrArg Prod.snd same
  refine ⟨parsed, read, ?_⟩
  rw [← ParsedOverrides.descends_iff_fitsIn candidates sorted, ← sameVoters,
    ← always_ascend_iff libraries]
  constructor
  · intro ascend bounds
    obtain ⟨targets, pages, converted, ascends⟩ := ascend bounds
    rw [convert_eq] at converted
    obtain ⟨_, rfl⟩ := Prod.mk.inj (Except.ok.inj converted)
    exact ascends
  · intro ascends bounds
    exact ⟨_, _, convert_eq libraries bounds newCandidates newVoters .staking, ascends bounds⟩

theorem staking_pages_ascend_iff_appended :
    ∃ targets pages, convertElectionDataToSnapshots devLibraries ⟨2, 1, 1, 1⟩ [(1, 0)]
        [(1, 5, [1]), (2, 2, [1])] .staking = .ok (targets, pages) ∧ PagesAscend pages := by
  obtain ⟨parsed, read, ascends⟩ := staking_pages_ascend_iff devLibraries [(1, 0)] [(1, 5, [1])]
    (by simp) ⟨[], [], [(bob, 2, [alice])], []⟩ [(1, 0)] [(1, 5, [1]), (2, 2, [1])] rfl
  obtain rfl := Option.some.inj read
  have single {q : Nat} {voter : NominatorData Nat}
      (listed : ([(1, 5, [1])] : List (NominatorData Nat))[q]? = some voter) :
      q = 0 ∧ (1, 5, [1]) = voter := by
    cases q with
    | zero => exact ⟨rfl, Option.some.inj listed⟩
    | succ q => simp at listed
  refine ascends.mpr ⟨?_, ?_, ?_⟩ ⟨2, 1, 1, 1⟩
  · intro p q earlier later before _ atQ
    exact absurd (single atQ).1 (Nat.ne_of_gt (Nat.zero_lt_of_lt before))
  · intro added member _ p earlier atP _
    obtain rfl := List.mem_singleton.mp member
    obtain ⟨rfl, rfl⟩ := single atP
    decide
  · exact List.pairwise_singleton _ _

/-- The only voter has stake 5. One with stake 10 is included and appended: it fills the last
page, which the reversal makes page 0. -/
theorem included_voter_leads_page_zero :
    ∃ newCandidates newVoters targets pages,
      applyOverrides devLibraries [(1, 0)] [(1, 5, [1])] ⟨[], [], [(bob, 10, [alice])], []⟩ =
        .ok (newCandidates, newVoters) ∧
      convertElectionDataToSnapshots devLibraries ⟨2, 1, 1, 1⟩ newCandidates newVoters .staking =
        .ok (targets, pages) ∧ ¬PagesAscend pages := by
  refine ⟨[(1, 0)], [(1, 5, [1]), (2, 10, [1])], _, _, rfl, rfl, fun ascends => ?_⟩
  have wrong : 10 ≤ 5 := ascends 0 1 _ _ (by decide) rfl rfl _ List.mem_cons_self _
    List.mem_cons_self
  contradiction

end Order

end LeanStakingMiner
