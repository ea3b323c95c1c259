import StakingMiner.ElectionDataLogic
import StakingMiner.PredictCore
import StakingMiner.ProgramEnds
import StakingMiner.SnapshotLogic

/-!
What a prediction makes of an on-chain snapshot. The pages are flattened and filled again
from the front, so they survive only if every page but the last was full.
-/

namespace LeanStakingMiner

open LeanProgram LeanPaging

variable {Account : Type} {bounds : ElectionBounds}

section Pages

def repaginate (pages : List (VoterSnapshotPage Account bounds)) :
    List (VoterSnapshotPage Account bounds) :=
  (pages.flatMap (·.items)).foldl pushVoter []

theorem repaginate_eq_iff (pages : List (VoterSnapshotPage Account bounds)) :
    repaginate pages = pages ↔ (∀ page ∈ pages, page.items ≠ []) ∧
      ∀ page ∈ pages.dropLast, page.items.length = bounds.voterSnapshotPerBlock := by
  have fits : ∀ page ∈ pages.map (·.items), page.length ≤ bounds.voterSnapshotPerBlock := by
    intro page member
    obtain ⟨bounded, _, rfl⟩ := List.mem_map.mp member
    exact bounded.bounded
  have same : repaginate pages = pages ↔
      paginate bounds.voterSnapshotPerBlock (pages.map (·.items)).flatten =
        pages.map (·.items) := by
    rw [← (List.map_injective_iff.mpr items_injective).eq_iff]
    simp only [repaginate, foldl_pushVoter, List.map_nil, paginate, List.flatMap_def]
  rw [same, paginate_flatten_iff fits, ← List.map_dropLast, List.forall_mem_map,
    List.forall_mem_map]

theorem repaginate_length (pages : List (VoterSnapshotPage Account bounds)) :
    (pages.flatMap (·.items)).length ≤ pages.length * bounds.voterSnapshotPerBlock := by
  induction pages with
  | nil => simp
  | cons page rest ih =>
      have first := page.bounded
      rw [List.flatMap_cons, List.length_append, List.length_cons, Nat.succ_mul]
      omega

theorem convertVoter_raw (voter : Voter Account bounds) :
    convertVoter bounds (voter.1, voter.2.1, voter.2.2.items) = voter := by
  obtain ⟨stash, stake, votes⟩ := voter
  rw [convertVoter, BoundedVec.truncateFrom_items]

theorem convert_snapshot (libraries : Libraries Account)
    (target : TargetSnapshotPage Account bounds)
    (voterPages : BoundedVec (VoterSnapshotPage Account bounds) bounds.pages) :
    convertElectionDataToSnapshots libraries bounds (target.items.map fun account => (account, 0))
        (voterPages.items.flatMap fun page =>
          page.items.map fun voter => (voter.1, voter.2.1, voter.2.2.items)) .snapshot =
      .ok (target, repaginate voterPages.items) := by
  have raw : (voterPages.items.flatMap fun page =>
        page.items.map fun voter => (voter.1, voter.2.1, voter.2.2.items)) =
      (voterPages.items.flatMap (·.items)).map fun voter =>
        (voter.1, voter.2.1, voter.2.2.items) := by
    rw [List.map_flatMap]
  have fits : (voterPages.items.flatMap (·.items)).length ≤
      bounds.pages * bounds.voterSnapshotPerBlock :=
    Nat.le_trans (repaginate_length voterPages.items)
      (Nat.mul_le_mul_right _ voterPages.bounded)
  have back : ∀ voter : Voter Account bounds,
      convertVoter bounds (voter.1, voter.2.1, voter.2.2.items) = voter := convertVoter_raw
  unfold convertElectionDataToSnapshots
  rw [raw, dropWeakest_of_fits libraries (by rwa [List.length_map]), List.map_map, List.map_map]
  simp only [Function.comp_def, back, List.map_id', BoundedVec.truncateFrom_items]
  rfl

end Pages

section Fetch

variable {C : PredictChain} {env : Environment (ServerOp C) ServerResp}
variable {history : Trace (ServerOp C) ServerResp} {nPages currentRound : Nat} {storage : AtBlock}

theorem fetchSnapshots_of_snapshot {target : TargetSnapshotPage C.Account bounds}
    {voterPages : BoundedVec (VoterSnapshotPage C.Account bounds) bounds.pages}
    (fetched : (run env (tryFetchSnapshot bounds nPages currentRound storage) () history).outcome =
      .ok (target, voterPages)) :
    (run env (fetchSnapshots bounds nPages currentRound storage none) () history).outcome =
      .ok (target, repaginate voterPages.items, .snapshot) := by
  have ends : Ends env (fetchSnapshots bounds nPages currentRound storage none)
      (fun outcome _ _ => outcome = .ok (target, repaginate voterPages.items, .snapshot)) ()
      history := by
    unfold fetchSnapshots getElectionData
    rw [ends_bind, ends_bind, ends_attempt]
    unfold Ends
    rw [fetched]
    simp only [caught, continued_ok, ends_return]
    rw [ends_bind, ends_return, continued_ok, convert_snapshot]
    rfl
  exact ends

/-- An election snapshot in the storage of a block: the target page and one voter page for
every page index. -/
structure OnChainSnapshot (C : PredictChain) (bounds : ElectionBounds) where
  target : TargetSnapshotPage C.Account bounds
  voterPages : List (VoterSnapshotPage C.Account bounds)
  complete : voterPages.length = bounds.pages

structure Shows (env : Environment (ServerOp C) ServerResp) (storage : AtBlock) (round : Nat)
    (snapshot : OnChainSnapshot C bounds) : Prop where
  target : ∀ history page value,
    env.answer history (.targetSnapshot bounds storage round page) = .ok value →
      value = some (some snapshot.target)
  voter : ∀ history page value,
    env.answer history (.voterSnapshot bounds storage round page) = .ok value →
      value = snapshot.voterPages[page]?.map some

variable {snapshot : OnChainSnapshot C bounds}

theorem fetchTargetPage_shown (shown : Shows env storage currentRound snapshot) (page : Nat) :
    Ends env (fetchTargetPage bounds currentRound storage page)
      (fun outcome _ _ => ∀ target, outcome = .ok target → target = snapshot.target) ()
      history := by
  refine ends_call.mpr ?_
  cases answered : env.answer history (.targetSnapshot bounds storage currentRound page) with
  | error error => exact (ends_fail _).mpr (by simp)
  | ok value =>
      rw [shown.target history page value answered]
      refine (ends_return _).mpr ?_
      intro target same
      exact (Outcome.ok.inj same).symm

theorem fetchVoterPage_shown (shown : Shows env storage currentRound snapshot) (page : Nat) :
    Ends env (fetchVoterPage bounds currentRound storage page)
      (fun outcome _ _ => ∀ fetched, outcome = .ok fetched →
        snapshot.voterPages[page]? = some fetched) () history := by
  refine ends_call.mpr ?_
  cases answered : env.answer history (.voterSnapshot bounds storage currentRound page) with
  | error error => exact (ends_fail _).mpr (by simp)
  | ok value =>
      rw [shown.voter history page value answered]
      cases stored : snapshot.voterPages[page]? with
      | none => exact (ends_fail _).mpr (by simp)
      | some voterPage =>
          refine (ends_return _).mpr ?_
          intro fetched same
          rw [Outcome.ok.inj same]

theorem fetchAllVoterPages_shown (shown : Shows env storage currentRound snapshot)
    (indices : List Nat) (history : Trace (ServerOp C) ServerResp) :
    Ends env (fetchAllVoterPages bounds currentRound storage indices)
      (fun outcome _ _ => ∀ pages, outcome = .ok pages →
        pages.map some = indices.map (snapshot.voterPages[·]?)) () history := by
  induction indices generalizing history with
  | nil =>
      refine (ends_return _).mpr ?_
      intro pages same
      rw [← Outcome.ok.inj same]
      rfl
  | cons page rest ih =>
      refine Ends.seq (fetchVoterPage_shown shown page) ?_ (by simp) (by simp)
      intro fetched _ history stored
      refine Ends.seq (ih history) ?_ (by simp) (by simp)
      intro later _ history rest
      refine (ends_return _).mpr ?_
      intro pages same
      rw [← Outcome.ok.inj same, List.map_cons, List.map_cons, rest later rfl,
        stored fetched rfl]

theorem map_range_getElem? {α : Type} (items : List α) :
    (List.range items.length).map (items[·]?) = items.map some := by
  apply List.ext_getElem
  · simp
  · intro index first second
    simp only [List.length_map, List.length_range] at first
    simp [first]

theorem tryFetchSnapshot_shown (shown : Shows env storage currentRound snapshot)
    {target : TargetSnapshotPage C.Account bounds}
    {voterPages : BoundedVec (VoterSnapshotPage C.Account bounds) bounds.pages}
    (fetched : (run env (tryFetchSnapshot bounds nPages currentRound storage) () history).outcome =
      .ok (target, voterPages)) :
    target = snapshot.target ∧ voterPages.items = snapshot.voterPages := by
  have ends : Ends env (tryFetchSnapshot bounds nPages currentRound storage) (fun outcome _ _ =>
      ∀ result, outcome = .ok result →
        result.1 = snapshot.target ∧ result.2.items = snapshot.voterPages) () history := by
    unfold tryFetchSnapshot
    by_cases count : nPages ≠ bounds.pages
    · rw [if_pos count]
      exact (ends_fail _).mpr (by simp)
    · rw [if_neg count]
      refine Ends.seq (fetchTargetPage_shown shown _) ?_ (by simp) (by simp)
      intro shownTarget _ history first
      refine Ends.seq (fetchAllVoterPages_shown shown _ history) ?_ (by simp) (by simp)
      intro pages _ history rest
      refine (ends_return _).mpr ?_
      intro result same
      rw [← Outcome.ok.inj same]
      refine ⟨first shownTarget rfl, ?_⟩
      have every : nPages = snapshot.voterPages.length :=
        (not_not.mp count).trans snapshot.complete.symm
      have all : pages = snapshot.voterPages := by
        have same := rest pages rfl
        rw [every, map_range_getElem?] at same
        exact List.map_injective_iff.mpr (Option.some_injective _) same
      change pages.take bounds.pages = snapshot.voterPages
      rw [all, ← snapshot.complete, List.take_length]
  exact ends _ fetched

/-- When the snapshot can be fetched, a prediction without overrides uses its targets, and it
uses its voter pages exactly if none of them is empty and all but the last are full. -/
theorem refetched_pages_same_iff (snapshot : OnChainSnapshot C bounds)
    (shown : Shows env storage currentRound snapshot)
    (available : ∃ result, (run env (tryFetchSnapshot bounds nPages currentRound storage) ()
      history).outcome = .ok result) :
    ∃ pages, (run env (fetchSnapshots bounds nPages currentRound storage none) () history).outcome =
        .ok (snapshot.target, pages, .snapshot) ∧
      (pages = snapshot.voterPages ↔ (∀ page ∈ snapshot.voterPages, page.items ≠ []) ∧
        ∀ page ∈ snapshot.voterPages.dropLast,
          page.items.length = bounds.voterSnapshotPerBlock) := by
  obtain ⟨⟨target, voterPages⟩, fetched⟩ := available
  obtain ⟨rfl, same⟩ := tryFetchSnapshot_shown shown fetched
  have refetched := fetchSnapshots_of_snapshot fetched
  rw [same] at refetched
  exact ⟨repaginate snapshot.voterPages, refetched, repaginate_eq_iff snapshot.voterPages⟩

end Fetch

abbrev sampleBounds : ElectionBounds := ⟨2, 3, 2, 1⟩

def sampleVoter (account : Nat) : Voter Nat sampleBounds := (account, 10, ⟨[1], by decide⟩)

def partlyFilled : OnChainSnapshot samplePredictChain sampleBounds where
  target := ⟨[1], by decide⟩
  voterPages := [⟨[sampleVoter 5], by decide⟩, ⟨[sampleVoter 6, sampleVoter 7], by decide⟩]
  complete := rfl

def fullFirst : OnChainSnapshot samplePredictChain sampleBounds where
  target := ⟨[1], by decide⟩
  voterPages := [⟨[sampleVoter 5, sampleVoter 6], by decide⟩, ⟨[sampleVoter 7], by decide⟩]
  complete := rfl

def snapshotAnswer (snapshot : OnChainSnapshot samplePredictChain sampleBounds) :
    (op : ServerOp samplePredictChain) → ServerResp op
  | .targetSnapshot ⟨2, 3, 2, 1⟩ _ _ _ => .ok (some (some snapshot.target))
  | .voterSnapshot ⟨2, 3, 2, 1⟩ _ _ page => .ok (snapshot.voterPages[page]?.map some)
  | op => offline op

def snapshotEnv (snapshot : OnChainSnapshot samplePredictChain sampleBounds) :
    Environment (ServerOp samplePredictChain) ServerResp :=
  ⟨fun _ op => snapshotAnswer snapshot op, fun _ _ => false⟩

theorem snapshotEnv_shows (snapshot : OnChainSnapshot samplePredictChain sampleBounds) :
    Shows (snapshotEnv snapshot) 50 3 snapshot :=
  ⟨fun _ _ _ answered => (Except.ok.inj answered).symm,
    fun _ _ _ answered => (Except.ok.inj answered).symm⟩

theorem refetched_pages_same_iff_full :
    ∃ pages, (run (snapshotEnv fullFirst) (fetchSnapshots sampleBounds 2 3 50 none) () []).outcome =
        .ok (fullFirst.target, pages, .snapshot) ∧
      (pages = fullFirst.voterPages ↔ (∀ page ∈ fullFirst.voterPages, page.items ≠ []) ∧
        ∀ page ∈ fullFirst.voterPages.dropLast, page.items.length = 2) :=
  refetched_pages_same_iff fullFirst (snapshotEnv_shows fullFirst)
    ⟨(fullFirst.target, ⟨fullFirst.voterPages, by decide⟩), rfl⟩

/-- The voter of page 0 is joined by the first voter of page 1, which loses its page. -/
theorem partly_filled_page_is_refilled :
    Shows (snapshotEnv partlyFilled) 50 3 partlyFilled ∧
    (run (snapshotEnv partlyFilled) (tryFetchSnapshot sampleBounds 2 3 50) () []).outcome =
      .ok (partlyFilled.target, ⟨partlyFilled.voterPages, by decide⟩) ∧
    (run (snapshotEnv partlyFilled) (fetchSnapshots sampleBounds 2 3 50 none) () []).outcome =
      .ok (partlyFilled.target,
        [⟨[sampleVoter 5, sampleVoter 6], by decide⟩, ⟨[sampleVoter 7], by decide⟩], .snapshot) ∧
    partlyFilled.voterPages ≠
      [⟨[sampleVoter 5, sampleVoter 6], by decide⟩, ⟨[sampleVoter 7], by decide⟩] :=
  ⟨snapshotEnv_shows partlyFilled, rfl, rfl, by decide⟩

end LeanStakingMiner
