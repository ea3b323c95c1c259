import StakingMiner.PalletReads

/-!
When a solution is counted as not competitive. The scores are compared after a bail but in
the storage read before it, so a score that was just bailed is still among them.
-/

namespace LeanStakingMiner

open LeanProgram

variable {T : MinerConfig} {account : AccountId}

/-- The call has compared the solution with a score it does not pass, at a block where the
account's own submission let it go on. -/
def Outcompeted (pallet : SignedPallet account) (config : ProcessConfig) (details : BlockDetails)
    (trace : MinerTrace T) (solution : PagedRawSolution T) : Prop :=
  ∃ head, Superseded config solution (pallet.current details head) ∧
    ⟨.sortedScores head details.round, .ok (pallet.sortedScores head details.round)⟩ ∈ trace ∧
    ∃ entry ∈ pallet.sortedScores head details.round, config.passes solution entry.2 = false

section Skipping

variable {pallet : SignedPallet account} {config : ProcessConfig} {details : BlockDetails}
variable {trace record : MinerTrace T}

def readMonitor (pallet : SignedPallet account) (trace : MinerTrace T) :
    Monitor (Op T) Resp (MinerTrace T) :=
  Monitor.recording (fun op answer => pallet.Agrees op answer ∧ ⟨op, answer⟩ ∈ trace)
    fun _ => false

def SkipsOutcompeted (pallet : SignedPallet account) (config : ProcessConfig)
    (details : BlockDetails) (trace : MinerTrace T) (store : MinerState T) : Prop :=
  store.lastOutcompetedRound = some details.round → ComparesScores config details ∧
    ∃ solution, store.cachedSolution = some solution ∧
      Outcompeted pallet config details trace solution

theorem competeAndSubmit_skips (compares : ComparesScores config details) {head : AtBlock}
    {solution : PagedRawSolution T} (superseded : Superseded config solution
      (pallet.current details head)) {state : MinerState T}
    (cached : state.cachedSolution = some solution)
    (unmarked : state.lastOutcompetedRound ≠ some details.round) :
    wp (readMonitor pallet trace) (competeAndSubmit config details.round solution head)
      (fun _ store _ => SkipsOutcompeted pallet config details trace store) state record := by
  have unchanged : SkipsOutcompeted pallet config details trace state :=
    fun marked => absurd marked unmarked
  refine (checkCompetitive_settles compares.1 head details.round solution).liftSeq ?_
    fun _ _ _ => unchanged
  rintro _ record ⟨scores, ⟨agreed, read⟩, rfl⟩
  obtain rfl : scores = pallet.sortedScores head details.round := agreed
  split
  · rw [wp_bind, wp_ask]
    refine ⟨trivial, fun _ _ => ?_⟩
    rw [followedBy_ok, wp_lift]
    exact wp_mono (wp_trivial (fun _ _ => trivial) _ _ _) fun _ _ _ _ => unchanged
  · rename_i beaten
    rw [skipNotCompetitive, wp_bind, wp_load, followedBy_ok, if_pos unmarked]
    rw [wp_bind, wp_modify, followedBy_ok, wp_ask]
    refine ⟨trivial, fun _ _ _ => ⟨compares, solution, cached, head, superseded, read, ?_⟩⟩
    simpa using beaten

theorem submitSolution_skips (compares : ComparesScores config details)
    (solution : PagedRawSolution T) {state : MinerState T}
    (cached : state.cachedSolution = some solution)
    (unmarked : state.lastOutcompetedRound ≠ some details.round) :
    wp (readMonitor pallet trace) (submitSolution config details solution)
      (fun _ store _ => SkipsOutcompeted pallet config details trace store) state record := by
  have unchanged : SkipsOutcompeted pallet config details trace state :=
    fun marked => absurd marked unmarked
  refine wp_lift_seq (fun _ _ => trivial) (fun minimum record => ?_) (fun _ _ => unchanged)
    fun _ => unchanged
  split
  · exact unchanged
  · exact unchanged
  · refine (existingSubmission_settles (fun _ _ read => read.1) details).liftSeq ?_
      fun _ _ _ => unchanged
    rintro ⟨head, existing⟩ record ⟨found, _⟩
    obtain rfl : existing = pallet.current details head := found
    rw [wp_bind, wp_lift]
    refine wp_mono (handleExisting_superseded config details.round solution _) ?_
    rintro (flow | error | _) _ record proceeds
    · cases flow with
      | finished => exact unchanged
      | proceed => exact competeAndSubmit_skips compares (proceeds rfl) cached unmarked
    · exact unchanged
    · exact unchanged

theorem mineAndSubmit_skips {state : MinerState T}
    (signed : ∃ blocks, details.phase = .signed blocks ∧ config.minSignedPhaseBlocks < blocks)
    (unmarked : state.lastOutcompetedRound ≠ some details.round) :
    wp (readMonitor pallet trace) (mineAndSubmit config details)
      (fun _ store _ => SkipsOutcompeted pallet config details trace store) state record := by
  rw [mineAndSubmit, wp_bind]
  refine wp_mono (wp_free_of_issuing (refreshCache_issues details config.doReduce state)
    fun _ _ _ => trivial) ?_
  intro outcome store record same
  have fresh : store.lastOutcompetedRound ≠ some details.round := same ▸ unmarked
  have unchanged : SkipsOutcompeted pallet config details trace store :=
    fun marked => absurd marked fresh
  cases outcome with
  | ok _ =>
      rw [followedBy_ok, wp_bind, wp_load, followedBy_ok]
      split
      · exact unchanged
      · rename_i solution cached
        split
        · rw [wp_lift]
          exact wp_mono (wp_trivial (fun _ _ => trivial) _ _ _) fun _ _ _ _ => unchanged
        · rename_i checked
          exact submitSolution_skips ⟨Bool.eq_false_iff.mpr checked, signed⟩ solution cached fresh
  | err _ => exact unchanged
  | panic => exact unchanged

theorem processBlock_skips {state : MinerState T}
    (unmarked : state.lastOutcompetedRound ≠ some details.round) :
    wp (readMonitor pallet trace) (processBlock config details)
      (fun _ store _ => SkipsOutcompeted pallet config details trace store) state [] :=
  wp_processBlock config details state (fun _ _ => recording_ignores rfl)
    (fun _ _ marked => absurd marked unmarked) fun blocks phase enough =>
      mineAndSubmit_skips ⟨blocks, phase, enough⟩ unmarked

theorem handleBlock_outcompeted {env : MinerEnv T} (serves : pallet.Serves env)
    {state : MinerState T} {history : MinerTrace T}
    (unmarked : state.lastOutcompetedRound ≠ some details.round) :
    let block := handleBlock config env details state history
    SkipsOutcompeted pallet config details block.result.trace block.result.store :=
  (wp_run env history (processBlock_skips unmarked) (recording_expected fun event member =>
    ⟨run_answers env serves _ _ _ event member, member⟩)).2

end Skipping

/-- The call counts its solution as not competitive. It does so where it marks the round. -/
def CountsSkip (block : ProcessedBlock T) : Prop :=
  block.before.lastOutcompetedRound ≠ some block.details.round ∧
    block.result.store.lastOutcompetedRound = some block.details.round ∧
    ⟨.metric .submissionSkippedNotCompetitive, ()⟩ ∈ block.result.trace

theorem countsSkip_of_givenUp {pallet : SignedPallet account} {first head : AtBlock}
    {block : ProcessedBlock T} (unmarked : block.before.lastOutcompetedRound = none)
    (givenUp : block.result =
      ⟨.ok (), { block.before with lastOutcompetedRound := some block.details.round },
        cachedTrace pallet block.details first ++ givenUpTrace pallet block.details head⟩) :
    CountsSkip block := by
  refine ⟨by simp [unmarked], by simp [givenUp], ?_⟩
  simp [givenUp, givenUpTrace, skipCounted]

/-- The account's own incomplete submission, which the call bails, has a score that the
solution does not pass. -/
def OwnScoreStops (pallet : SignedPallet account) (config : ProcessConfig)
    (details : BlockDetails) (solution : PagedRawSolution T) (head : AtBlock) : Prop :=
  ∃ submission, pallet.current details head = .incomplete submission ∧
    submission.score ≠ solution.score ∧ config.passes solution submission.score = false

def OtherScoreStops (pallet : SignedPallet account) (config : ProcessConfig)
    (details : BlockDetails) (solution : PagedRawSolution T) (head : AtBlock) : Prop :=
  ∃ entry ∈ pallet.sortedScores head details.round,
    entry.1 ≠ account ∧ config.passes solution entry.2 = false

theorem own_entry_stops {pallet : SignedPallet account} {config : ProcessConfig}
    {details : BlockDetails} {solution : PagedRawSolution T} {head : AtBlock}
    (superseded : Superseded config solution (pallet.current details head))
    {score : ElectionScore} (member : (account, score) ∈ pallet.sortedScores head details.round)
    (lost : config.passes solution score = false) :
    OwnScoreStops pallet config details solution head := by
  obtain ⟨metadata, found, rfl⟩ := (pallet.registered head details.round score).mp member
  rw [SignedPallet.current, found, currentSubmission] at superseded
  split at superseded
  · exact absurd (superseded.symm.trans lost) nofun
  · rename_i incomplete
    refine ⟨_, ?_, superseded, lost⟩
    rw [SignedPallet.current, found, currentSubmission, if_neg incomplete]

theorem own_score_registered {pallet : SignedPallet account} {details : BlockDetails}
    {head : AtBlock} {submission : IncompleteSubmission}
    (incomplete : pallet.current details head = .incomplete submission) :
    (account, submission.score) ∈ pallet.sortedScores head details.round := by
  rw [SignedPallet.current] at incomplete
  cases found : pallet.submission head details.round with
  | none =>
      rw [found] at incomplete
      exact nomatch incomplete
  | some metadata =>
      rw [found, currentSubmission] at incomplete
      split at incomplete
      · exact nomatch incomplete
      · obtain rfl := CurrentSubmission.incomplete.inj incomplete
        exact (pallet.registered head details.round _).mpr ⟨metadata, found, rfl⟩

/-- A call counts its solution as not competitive only because of another account exactly
when a score of our own that it bails never stands in the way alone. -/
theorem skip_means_outcompeted_iff (pallet : SignedPallet account) (config : ProcessConfig)
    (details : BlockDetails) (solution : PagedRawSolution T)
    (sameRound : solution.round = details.round) :
    (∀ (env : MinerEnv T) (state : MinerState T) (history : MinerTrace T), pallet.Serves env →
      let block := handleBlock config env details state history
      block.result.store.cachedSolution = some solution → CountsSkip block →
        ∃ head scores, ⟨.sortedScores head details.round, .ok scores⟩ ∈ block.result.trace ∧
          ∃ entry ∈ scores, entry.1 ≠ account ∧ config.passes solution entry.2 = false) ↔
      (ComparesScores config details → ∀ head, OwnScoreStops pallet config details solution head →
        OtherScoreStops pallet config details solution head) := by
  constructor
  · intro holds compares head own
    obtain ⟨submission, incomplete, different, lost⟩ := own
    let state : MinerState T := ⟨Snapshot.new 0, some solution, none⟩
    have givenUp : (handleBlock config (bailedEnv pallet head head) details state []).result = _ :=
      handleBlock_givenUp compares (by rw [incomplete]; rfl) (by rw [incomplete]; exact nofun)
        (by rw [incomplete]; exact different) ⟨_, own_score_registered incomplete, lost⟩ rfl
        sameRound nofun
    obtain ⟨storage, scores, read, stopped⟩ := holds _ state [] (bailedEnv_serves pallet head head)
      (by rw [givenUp]) (countsSkip_of_givenUp rfl givenUp)
    rw [givenUp] at read
    obtain ⟨rfl, rfl⟩ := givenUp_scores read
    exact stopped
  · intro holds env state history serves block cached skipped
    obtain ⟨unmarked, marked, _⟩ := skipped
    obtain ⟨compares, used, found, head, superseded, read, entry, member, lost⟩ :=
      handleBlock_outcompeted serves unmarked marked
    obtain rfl : used = solution := Option.some.inj (found.symm.trans cached)
    refine ⟨head, _, read, ?_⟩
    by_cases own : entry.1 = account
    · obtain ⟨_, score⟩ := entry
      obtain rfl : _ = account := own
      exact holds compares head (own_entry_stops superseded member lost)
    · exact ⟨entry, member, own, lost⟩

def ownPallet : SignedPallet 1 where
  sortedScores _ _ := [(1, ⟨5, 5, 5⟩)]
  submission _ _ := some ⟨⟨5, 5, 5⟩, [true, false]⟩
  registered := by simp [eq_comm]

def outcompetedPallet : SignedPallet 1 where
  sortedScores _ _ := [(1, ⟨5, 5, 5⟩), (2, ⟨6, 6, 6⟩)]
  submission _ _ := some ⟨⟨5, 5, 5⟩, [true, false]⟩
  registered := by simp [eq_comm]

theorem skip_means_outcompeted_iff_leading :
    OwnScoreStops outcompetedPallet ⟨.ifLeading, false, 0, 10, false⟩ sampleDetails
        sampleSolution 51 ∧
      ∀ (env : MinerEnv sampleConfig) (state : MinerState sampleConfig)
        (history : MinerTrace sampleConfig), outcompetedPallet.Serves env →
        let block := handleBlock ⟨.ifLeading, false, 0, 10, false⟩ env sampleDetails state history
        block.result.store.cachedSolution = some sampleSolution → CountsSkip block →
          ∃ head scores, ⟨.sortedScores head 7, .ok scores⟩ ∈ block.result.trace ∧
            ∃ entry ∈ scores, entry.1 ≠ 1 ∧
              ProcessConfig.passes ⟨.ifLeading, false, 0, 10, false⟩ sampleSolution entry.2 =
                false := by
  refine ⟨⟨⟨⟨5, 5, 5⟩, {0}, 2⟩, by decide, by decide, by decide⟩,
    (skip_means_outcompeted_iff outcompetedPallet ⟨.ifLeading, false, 0, 10, false⟩
      sampleDetails sampleSolution rfl).mpr ?_⟩
  intro _ head _
  exact ⟨(2, ⟨6, 6, 6⟩), by simp [outcompetedPallet], by decide, by decide⟩

/-- An incomplete submission of ours has the better score. It is bailed, and the solution is
then counted as outcompeted although no other account has registered anything. -/
theorem bailed_score_causes_skip :
    let block := handleBlock ⟨.ifLeading, false, 0, 10, false⟩ (bailedEnv ownPallet 51 51)
      sampleDetails ⟨Snapshot.new 2, some sampleSolution, none⟩ []
    CountsSkip block ∧ block.result.outcome = .ok () ∧
      (∃ event ∈ block.result.trace, event.1.kind = .bail) ∧
      ∀ head scores, ⟨.sortedScores head 7, .ok scores⟩ ∈ block.result.trace →
        ∀ entry ∈ scores, entry.1 = 1 := by
  intro block
  have found : ownPallet.current sampleDetails 51 = .incomplete ⟨⟨5, 5, 5⟩, {0}, 2⟩ := by decide
  have different : (⟨5, 5, 5⟩ : ElectionScore) ≠ ⟨4, 4, 4⟩ := by decide
  have givenUp : block.result = _ := handleBlock_givenUp ⟨rfl, 20, rfl, by decide⟩ (by decide)
    (by decide) (by rw [found]; exact different) ⟨(1, ⟨5, 5, 5⟩), by decide, by decide⟩ rfl rfl
    nofun
  refine ⟨countsSkip_of_givenUp rfl givenUp, by rw [givenUp], ?_, ?_⟩
  · rw [givenUp]
    exact givenUp_bails
  · intro head scores read
    rw [givenUp] at read
    obtain ⟨_, rfl⟩ := givenUp_scores read
    decide

end LeanStakingMiner
