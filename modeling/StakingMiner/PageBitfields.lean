import StakingMiner.ResumeBounds
import StakingMiner.RoundScans

/-!
The page bitfield of a stored submission and the three places that read it: the check for an
existing submission, the validation of the signed phase, and the clearing of old rounds.
-/

namespace LeanStakingMiner

open LeanProgram

section Bits

variable {bits : List Bool} {page : Nat}

theorem mem_submittedPages : page ∈ submittedPages bits ↔ bits[page]? = some true := by
  rw [submittedPages, List.mem_toFinset, List.mem_filterMap]
  constructor
  · rintro ⟨⟨submitted, index⟩, member, kept⟩
    have stored := List.mem_zipIdx_iff_getElem?.mp member
    cases submitted with
    | false => simp at kept
    | true =>
        obtain rfl : index = page := by simpa using kept
        exact stored
  · intro stored
    exact ⟨(true, page), List.mem_zipIdx_iff_getElem?.mpr stored, rfl⟩

theorem submittedPages_eq :
    submittedPages bits = ((List.range bits.length).filter (· ∈ submittedPages bits)).toFinset := by
  ext page
  rw [List.mem_toFinset, List.mem_filter, List.mem_range, decide_eq_true_eq]
  constructor
  · intro submitted
    exact ⟨(List.getElem?_eq_some_iff.mp (mem_submittedPages.mp submitted)).1, submitted⟩
  · exact fun kept => kept.2

theorem card_submittedPages_eq_filter : (submittedPages bits).card =
    ((List.range bits.length).filter (· ∈ submittedPages bits)).length := by
  have distinct : (List.range bits.length).Nodup := List.nodup_range
  conv_lhs => rw [submittedPages_eq]
  exact List.toFinset_card_of_nodup (distinct.filter _)

theorem card_submittedPages : (submittedPages bits).card = bits.count true := by
  have listed : bits = (List.range bits.length).map fun page => bits[page]?.getD false := by
    refine List.ext_getElem (by simp) fun page inside _ => ?_
    simp [inside]
  rw [card_submittedPages_eq_filter, ← List.countP_eq_length_filter]
  conv_rhs => rw [listed, List.count, List.countP_map]
  refine List.countP_congr fun page _ => ?_
  rw [decide_eq_true_eq, mem_submittedPages]
  cases stored : bits[page]? with
  | none => simp [stored]
  | some submitted => cases submitted <;> simp [stored]

theorem all_iff_card : bits.all id = true ↔ (submittedPages bits).card = bits.length := by
  rw [card_submittedPages, List.count_eq_length, List.all_eq_true]
  simp [eq_comm]

end Bits

section Missing

variable (metadata : SubmissionMetadata)

/-- What `get_submission` hands to the resume path when pages are missing. -/
def resumed (nPages : Nat) : IncompleteSubmission :=
  ⟨metadata.claimedScore, submittedPages metadata.pages, nPages⟩

variable {metadata} {nPages : Nat}

theorem currentSubmission_done_iff :
    currentSubmission nPages (some metadata) = .done metadata.claimedScore ↔
      (submittedPages metadata.pages).card = nPages := by
  rw [currentSubmission]
  split
  · next full => exact iff_of_true rfl full
  · next short => exact iff_of_false (by simp) short

theorem currentSubmission_of_not_done
    (short : currentSubmission nPages (some metadata) ≠ .done metadata.claimedScore) :
    currentSubmission nPages (some metadata) = .incomplete (resumed metadata nPages) := by
  rw [currentSubmission, if_neg (currentSubmission_done_iff.not.mp short), resumed]

theorem missing_increasing :
    (resumed metadata nPages).getMissingPages.Pairwise (· < ·) :=
  List.pairwise_lt_range.filter _

variable (length : metadata.pages.length = nPages)

include length

theorem mem_missing_iff {page : Nat} :
    page ∈ (resumed metadata nPages).getMissingPages ↔ metadata.pages[page]? = some false := by
  rw [mem_getMissingPages]
  simp only [resumed, mem_submittedPages, ← length]
  constructor
  · rintro ⟨inside, unset⟩
    rw [List.getElem?_eq_getElem inside] at unset ⊢
    cases stored : metadata.pages[page] with
    | false => rfl
    | true => simp [stored] at unset
  · intro unset
    exact ⟨(List.getElem?_eq_some_iff.mp unset).1, by simp [unset]⟩

theorem count_eq_sub_missing :
    metadata.pages.count true = nPages - (resumed metadata nPages).getMissingPages.length := by
  have split : (List.range metadata.pages.length).length = _ :=
    List.length_eq_countP_add_countP fun page => page ∈ submittedPages metadata.pages
  have missing : (resumed metadata nPages).getMissingPages.length =
      (List.range nPages).countP fun page => page ∉ submittedPages metadata.pages :=
    List.countP_eq_length_filter.symm
  rw [List.length_range, List.countP_eq_length_filter, ← card_submittedPages_eq_filter,
    card_submittedPages, length] at split
  simp only [decide_eq_true_eq, ← missing] at split
  omega

end Missing

section Runs

variable {T : MinerConfig} {env : MinerEnv T} {storage : AtBlock} {round : Nat}
  {metadata : SubmissionMetadata} {history : MinerTrace T}
  (stored : ∀ history, env.answer history (.submissionMetadata storage round) =
    .ok (some metadata))

theorem run_rpc {σ α β : Type} {op : Op T} (answered : Resp op → Read α)
    {rest : α → Miner T σ β} {value : α} {store : σ}
    (given : answered (env.answer history op) = .ok value) :
    run env (do
      let result ← rpc (answered (← ask op))
      rest result) store history =
      (run env (rest value) store (history ++ [⟨op, env.answer history op⟩])).prepend
        ⟨op, env.answer history op⟩ := by
  change (run env (rpc (answered (env.answer history op)) >>= rest) store _).prepend _ = _
  rw [given]
  rfl

theorem bail_trace_ne_nil : (run env bail () history).trace ≠ [] := by
  intro silent
  cases silent

theorem bailIncomplete_trace_eq_nil_iff (env : MinerEnv T) (history : MinerTrace T) :
    (run env (bailIncomplete (some metadata)) () history).trace = [] ↔
      metadata.pages.all id = true := by
  rw [bailIncomplete]
  split
  · next complete => exact iff_of_true rfl complete
  · next short => exact iff_of_false bail_trace_ne_nil short

include stored

theorem getSubmission_outcome (nPages : Nat) (history : MinerTrace T) :
    (run env (getSubmission storage round nPages) () history).outcome =
      .ok (currentSubmission nPages (some metadata)) := by
  rw [getSubmission, run_rpc _ (stored history)]
  rfl

theorem validateSignedPhaseOrBail_trace (head : env.answer history .storageAtHead = .ok storage)
    {blocks minBlocks : Nat} (low : blocks ≤ minBlocks) :
    ∃ later,
      (run env (validateSignedPhaseOrBail (.signed blocks) round minBlocks) () history).trace =
      ⟨.storageAtHead, .ok storage⟩ :: metadataRead storage round (some metadata) ::
        (run env (bailIncomplete (some metadata)) () later).trace := by
  rw [validateSignedPhaseOrBail, if_pos low, run_rpc _ head, run_rpc _ (stored _), head, stored]
  exact ⟨_, congrArg _ (congrArg _ (run_bind_fail _ _ _ _ _))⟩

theorem cleanRounds_trace (rest : List Nat) (cleanedCount : Nat) (history : MinerTrace T) :
    metadataRead storage round (some metadata) :: cleanupEvents env round
        (history ++ [metadataRead storage round (some metadata)]) (some metadata) <+:
      (run env (cleanRounds storage (round :: rest) cleanedCount) () history).trace := by
  rw [cleanRounds, run_rpc _ (stored history), stored]
  refine (List.prefix_cons_inj _).mpr ?_
  dsimp only [cleanupEvents]
  by_cases none_set : metadata.pages.count true = 0
  · rw [if_pos none_set]
    exact List.nil_prefix
  · rw [if_neg none_set, if_neg none_set]
    refine List.IsPrefix.trans ?_ (run_bind_extends _ _ _ _ _)
    rw [run_attempt]
    exact List.prefix_rfl

end Runs

/-- Of one stored bitfield with a bit for every page: `get_submission` reports it as done
exactly if the validation of the signed phase lets it stand (nothing follows the two reads);
otherwise the missing pages are the unset bits in increasing order; and an old round is cleared
with as many witness pages as are not missing. -/
theorem page_bitfield_readings_agree {T : MinerConfig} (env : MinerEnv T) (storage : AtBlock)
    (round nPages : Nat) (metadata : SubmissionMetadata) (length : metadata.pages.length = nPages)
    (stored : ∀ history, env.answer history (.submissionMetadata storage round) =
      .ok (some metadata))
    (history : MinerTrace T) (head : env.answer history .storageAtHead = .ok storage)
    (blocks minBlocks : Nat) (low : blocks ≤ minBlocks) (rest : List Nat) (cleanedCount : Nat) :
    let read := metadataRead storage round (some metadata)
    let submission := run env (getSubmission storage round nPages) () history
    let validation :=
      run env (validateSignedPhaseOrBail (.signed blocks) round minBlocks) () history
    let cleanup := run env (cleanRounds storage (round :: rest) cleanedCount) () history
    let missing := (resumed metadata nPages).getMissingPages
    let witnessPages := nPages - missing.length
    (submission.outcome = .ok (.done metadata.claimedScore) ↔
        validation.trace = [⟨.storageAtHead, .ok storage⟩, read]) ∧
      (submission.outcome ≠ .ok (.done metadata.claimedScore) →
        submission.outcome = .ok (.incomplete (resumed metadata nPages)) ∧
          missing.Pairwise (· < ·) ∧ ∀ page, page ∈ missing ↔ metadata.pages[page]? = some false) ∧
      read :: (if witnessPages = 0 then []
        else (run env (clearOldRoundData round witnessPages) () (history ++ [read])).trace) <+:
          cleanup.trace := by
  intro read submission validation cleanup missing witnessPages
  have outcome := getSubmission_outcome stored nPages history
  refine ⟨?_, ?_, ?_⟩
  · obtain ⟨later, trace⟩ := validateSignedPhaseOrBail_trace stored head low
    have lets : validation.trace = [⟨.storageAtHead, .ok storage⟩, read] ↔
        metadata.pages.all id = true := by
      rw [← bailIncomplete_trace_eq_nil_iff env later, trace]
      simp [read]
    rw [lets, all_iff_card, length, ← currentSubmission_done_iff]
    simp [submission, outcome]
  · intro short
    refine ⟨?_, missing_increasing, fun page => mem_missing_iff length⟩
    rw [outcome] at short ⊢
    rw [currentSubmission_of_not_done fun done => short (congrArg Outcome.ok done)]
  · have counted : metadata.pages.count true = witnessPages := count_eq_sub_missing length
    have started := cleanRounds_trace stored rest cleanedCount history
    rw [cleanupEvents, counted] at started
    exact started

def partlyStored : (op : Op sampleConfig) → Resp op
  | .storageAtHead => .ok 8
  | .submissionMetadata _ _ => .ok (some ⟨⟨5, 5, 5⟩, [true, false, true]⟩)
  | op => unavailable op

theorem page_bitfield_readings_agree_partly :
    (run ⟨fun _ => partlyStored, fun _ _ => false⟩ (getSubmission 8 7 3) () []).outcome =
        .ok (.incomplete (resumed ⟨⟨5, 5, 5⟩, [true, false, true]⟩ 3)) ∧
      (resumed ⟨⟨5, 5, 5⟩, [true, false, true]⟩ 3).getMissingPages = [1] :=
  have ⟨_, short, _⟩ := page_bitfield_readings_agree ⟨fun _ => partlyStored, fun _ _ => false⟩ 8 7 3
    ⟨⟨5, 5, 5⟩, [true, false, true]⟩ rfl (fun _ => rfl) [] rfl 2 10 (by decide) [] 0
  ⟨(short (by decide)).1, by decide⟩

end LeanStakingMiner
