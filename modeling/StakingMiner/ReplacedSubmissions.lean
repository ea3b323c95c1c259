import StakingMiner.PalletReads

/-!
What follows the bail of a complete submission. It is decided against the score of that
submission alone; the scores of the other accounts are looked at when there is no way back.
-/

namespace LeanStakingMiner

open LeanProgram

variable {T : MinerConfig} {account : AccountId}

/-- Unless an RPC error or a timeout ends the call, a complete submission that it bails is
replaced by the solution. The submission is read before the mining and once more after it;
the second is the one that is bailed. -/
def Replaces (details : BlockDetails) (solution : PagedRawSolution T)
    (outcome : Outcome Error Unit) (trace : MinerTrace T) : Prop :=
  ¬Interrupted outcome → ∀ head metadata,
    (trace.filter fun event => event.1.kind = .submission)[1]? =
      some ⟨.submissionMetadata head details.round, .ok metadata⟩ →
    (currentSubmission details.nPages metadata).isDone = true →
    (∃ event ∈ trace, event.1.kind = .bail) → ⟨.submitCalled solution, ()⟩ ∈ trace

section Replacing

variable {pallet : SignedPallet account} {config : ProcessConfig} {details : BlockDetails}
variable {solution : PagedRawSolution T} {outcome : Outcome Error Unit} {record : MinerTrace T}
variable {state : MinerState T}

def milestone (op : Op T) : Bool := op.kind ∈ [OpKind.submission, .bail, .submitCall]

def replaceMonitor (pallet : SignedPallet account) : Monitor (Op T) Resp (MinerTrace T) :=
  Monitor.recording pallet.Agrees milestone

theorem replaceMonitor_ignores {kinds : List OpKind}
    (passed : ∀ kind ∈ kinds, kind ∉ [OpKind.submission, .bail, .submitCall]) (op : Op T)
    (member : op.kind ∈ kinds) : (replaceMonitor pallet).Ignores record op :=
  recording_ignores (decide_eq_false (passed op.kind member))

theorem Replaces.of_filter {trace : MinerTrace T}
    (replaces : Replaces details solution outcome (trace.filter fun event => milestone event.1)) :
    Replaces details solution outcome trace := by
  intro finished head metadata read complete bailed
  have sameReads : (trace.filter fun event => milestone event.1).filter
      (fun event => event.1.kind = .submission) =
        trace.filter fun event => event.1.kind = .submission := by
    rw [List.filter_filter]
    refine List.filter_congr fun event _ => ?_
    by_cases submission : event.1.kind = .submission
    · simp [milestone, submission]
    · simp [submission]
  obtain ⟨event, member, kind⟩ := bailed
  rw [← sameReads] at read
  have called := replaces finished head metadata read complete
    ⟨event, List.mem_filter.mpr ⟨member, by simp [milestone, kind]⟩, kind⟩
  exact (List.mem_filter.mp called).1

theorem replaces_unbailed (unbailed : ∀ event ∈ record, event.1.kind ≠ .bail) :
    Replaces details solution outcome record := by
  rintro _ head metadata _ _ ⟨event, member, kind⟩
  exact absurd kind (unbailed event member)

def ownRead (pallet : SignedPallet account) (details : BlockDetails) (storage : AtBlock) :
    Event (Op T) Resp :=
  ⟨.submissionMetadata storage details.round, .ok (pallet.submission storage details.round)⟩

theorem submissionRead_recorded (storage : AtBlock) :
    (Monitor.recording pallet.Agrees milestone).after record
      (submissionRead pallet details storage) = record ++ [ownRead pallet details storage] := by
  rw [recording_after]
  rfl

theorem replaces_unfinished {first head : AtBlock}
    (unfinished : (pallet.current details head).isDone = false)
    (reads : [ownRead pallet details first, ownRead pallet details head] <+: record) :
    Replaces details solution outcome record := by
  obtain ⟨rest, rfl⟩ := reads
  intro _ storage metadata read complete _
  simp [ownRead, Op.kind] at read
  obtain ⟨rfl, rfl⟩ := read
  exact absurd (unfinished.symm.trans complete) (by simp)

theorem bailIfSigned_settles : Settles (replaceMonitor pallet) (bailIfSigned : Task T Flow)
    (fun flow after => flow = .finished → after = record) record := by
  have asked : Settles (replaceMonitor pallet) (signedPhase : Task T Bool)
      (fun _ after => after = record) record := by
    have phase : Issues [.head, .phase] (signedPhase : Task T Bool)
        (fun outcome => Interrupted outcome ∨ ∃ signed, outcome = .ok signed) := by
      simp [Issues, signedPhase, readPhase, Op.kind, Interrupted]
    refine phase.keeps (replaceMonitor_ignores (by simp)) ?_
    rintro outcome (interrupted | ⟨signed, finished⟩)
    · exact Or.inl interrupted
    · exact Or.inr ⟨signed, finished, rfl⟩
  have sent (record : MinerTrace T) : Settles (replaceMonitor pallet) (bail : Task T Unit)
      (fun _ _ => True) record := by
    have bails : Issues [.other, .nonce, .bail] (bail : Task T Unit)
        (fun outcome => Interrupted outcome ∨ ∃ value, outcome = .ok value ∧ True) := by
      simp [Issues, bail, submitAndFinalize, Op.kind, Transaction.kind, Interrupted]
    exact wp_free_of_issuing bails fun _ _ _ => trivial
  refine (asked.timed _).bind ?_
  rintro stillSigned _ rfl
  split
  · exact ((sent _).timed _).bind fun _ _ _ => Or.inr ⟨_, rfl, by simp⟩
  · exact Or.inr ⟨_, rfl, fun _ => rfl⟩

theorem competeAndSubmit_replaces (checked : config.shady = false) {head : AtBlock}
    (covered : ∀ entry ∈ pallet.sortedScores head details.round,
      config.passes solution entry.2 = true) :
    wp (replaceMonitor pallet) (competeAndSubmit config details.round solution head)
      (fun outcome _ after => Replaces details solution outcome after) state record := by
  refine (checkCompetitive_settles checked head details.round solution).liftSeq ?_
    fun _ _ interrupted complete => absurd interrupted complete
  rintro _ record ⟨scores, agreed, rfl⟩
  obtain rfl : scores = pallet.sortedScores head details.round := agreed
  rw [if_pos (List.all_eq_true.mpr covered), wp_bind, wp_ask]
  refine ⟨trivial, fun _ _ => ?_⟩
  rw [followedBy_ok, wp_lift]
  refine wp_mono (wp_recording_extends _ _ _) fun _ _ _ extended _ _ _ _ _ _ => ?_
  exact extended.subset (List.mem_append_right _ (List.mem_singleton_self _))

/-- The solution passes every registered score wherever it passes that of a complete
submission of the account. -/
def CoversOthers (pallet : SignedPallet account) (config : ProcessConfig)
    (details : BlockDetails) (solution : PagedRawSolution T) : Prop :=
  ∀ head score, pallet.current details head = .done score →
    config.passes solution score = true →
    ∀ entry ∈ pallet.sortedScores head details.round, config.passes solution entry.2 = true

theorem handleDone_settles (round : Nat) (score : ElectionScore) :
    Settles (replaceMonitor pallet) (handleExisting config round solution (.done score))
      (fun flow after => (flow = .finished → after = record) ∧
        (flow = .proceed → config.passes solution score = true)) record := by
  rw [handleExisting]
  split
  · rename_i better
    refine wp_mono bailIfSigned_settles ?_
    rintro outcome _ after (interrupted | ⟨flow, finished, kept⟩)
    · exact Or.inl interrupted
    · exact Or.inr ⟨flow, finished, kept, fun _ => better⟩
  · exact Or.inr ⟨_, rfl, fun _ => rfl, by simp⟩

theorem submitSolution_replaces (checked : config.shady = false)
    (covers : CoversOthers pallet config details solution) {first : AtBlock} :
    wp (replaceMonitor pallet) (submitSolution config details solution)
      (fun outcome _ after => Replaces details solution outcome after) state
      [ownRead pallet details first] := by
  have unbailed (outcome : Outcome Error Unit) :
      Replaces details solution outcome [ownRead pallet details first] :=
    replaces_unbailed (by simp [ownRead, Op.kind])
  have stopped (error : Error) (after : MinerTrace T)
      (interrupted : Interrupted (.err error : Outcome Error Unit)) :
      Replaces details solution (.err error) after :=
    fun complete => absurd interrupted complete
  refine (fetchMinimumScore_issues details.atBlock).liftSeq (replaceMonitor_ignores (by simp))
    (fun minimum _ => ?_) (fun _ _ => unbailed _) fun _ => unbailed _
  split
  · exact unbailed _
  · exact unbailed _
  · refine (existingSubmission_settles (fun _ _ agreed => agreed) details).liftSeq ?_ stopped
    rintro ⟨head, existing⟩ _ ⟨same, rfl⟩
    obtain rfl : existing = pallet.current details head := same
    rw [submissionRead_recorded]
    cases found : pallet.current details head with
    | done score =>
        refine (handleDone_settles details.round score).liftSeq ?_ stopped
        rintro flow after ⟨kept, better⟩
        cases flow with
        | finished =>
            rw [kept rfl]
            exact replaces_unbailed (by simp [ownRead, Op.kind])
        | proceed => exact competeAndSubmit_replaces checked (covers head score found (better rfl))
    | incomplete submission =>
        refine wp_mono (wp_recording_extends _ _ _) fun _ _ _ reads => ?_
        exact replaces_unfinished (by rw [found]; rfl) reads
    | notStarted =>
        refine wp_mono (wp_recording_extends _ _ _) fun _ _ _ reads => ?_
        exact replaces_unfinished (by rw [found]; rfl) reads

theorem mineAndSubmit_replaces
    (covers : config.shady = false → CoversOthers pallet config details solution)
    {first : AtBlock} :
    wp (replaceMonitor pallet) (mineAndSubmit config details)
      (fun outcome store after => store.cachedSolution = some solution →
        Replaces details solution outcome after) state [ownRead pallet details first] := by
  have unbailed (outcome : Outcome Error Unit) :
      Replaces details solution outcome [ownRead pallet details first] :=
    replaces_unbailed (by simp [ownRead, Op.kind])
  rw [mineAndSubmit, wp_bind]
  refine wp_mono (wp_of_issuing (refreshCache_issues details config.doReduce state)
    (replaceMonitor_ignores (by simp [miningKinds]))) ?_
  rintro (_ | error | _) store after ⟨rfl, _⟩
  · rw [followedBy_ok, wp_bind, wp_load, followedBy_ok]
    split
    · exact fun _ => unbailed _
    · rename_i used found
      split
      · rw [wp_lift]
        exact (executeShadyBehavior_issues details.phase).keeps (replaceMonitor_ignores (by simp))
          fun _ _ _ => unbailed _
      · rename_i disclosed
        have checked : config.shady = false := Bool.eq_false_iff.mpr disclosed
        by_cases same : used = solution
        · subst same
          exact wp_mono (submitSolution_replaces checked (covers checked))
            fun _ _ _ replaces _ => replaces
        · refine wp_mono (wp_free_of_issuing (submitSolution_issues config details used store)
            fun _ _ _ => trivial) ?_
          rintro _ final _ ⟨_, kept⟩ cached
          exact absurd (Option.some.inj (found.symm.trans (kept.symm.trans cached))) same
  · exact fun _ => unbailed _
  · exact fun _ => unbailed _

theorem processBlock_replaces (covers : ComparesScores config details →
      (∃ first, (pallet.current details first).isDone = false) →
        CoversOthers pallet config details solution) :
    wp (replaceMonitor pallet) (processBlock config details)
      (fun outcome store after => store.cachedSolution = some solution →
        Replaces details solution outcome after) state [] := by
  have unread (outcome : Outcome Error Unit) : Replaces details solution outcome [] :=
    replaces_unbailed (by simp)
  refine wp_processBlock_signed config details state (replaceMonitor_ignores (by simp))
    (fun _ _ _ => unread _) fun blocks phase enough => ?_
  refine (alreadySubmitted_settles (fun _ _ agreed => agreed) details).liftSeq ?_
    fun _ _ interrupted _ complete => absurd interrupted complete
  rintro submitted _ ⟨first, same, rfl⟩
  rw [submissionRead_recorded, List.nil_append]
  cases submitted with
  | true => exact fun _ => replaces_unbailed (by simp [ownRead, Op.kind])
  | false =>
      have covered (checked : config.shady = false) :
          CoversOthers pallet config details solution :=
        covers ⟨checked, blocks, phase, enough⟩ ⟨first, same.symm⟩
      exact mineAndSubmit_replaces covered

theorem handleBlock_replaces {env : MinerEnv T} (serves : pallet.Serves env)
    {history : MinerTrace T} (covers : ComparesScores config details →
      (∃ first, (pallet.current details first).isDone = false) →
        CoversOthers pallet config details solution) :
    let block := handleBlock config env details state history
    block.result.store.cachedSolution = some solution →
      Replaces details solution block.result.outcome block.result.trace := by
  intro block cached
  have replaced := (wp_run env history (processBlock_replaces covers) (recording_expected
    (run_answers env serves (processBlock config details) state history))).2 cached
  rw [replaceMonitor, recording_after] at replaced
  exact replaced.of_filter

end Replacing

theorem givenUp_not_replaced {pallet : SignedPallet account} {details : BlockDetails}
    {solution : PagedRawSolution T} {first head : AtBlock} {score : ElectionScore}
    (found : pallet.current details head = .done score) :
    ¬Replaces details solution (.ok ())
      (cachedTrace pallet details first ++ givenUpTrace pallet details head) := by
  intro replaced
  have complete : (pallet.current details head).isDone = true := by
    rw [found]
    rfl
  exact givenUp_uncalled (replaced id head _ rfl complete givenUp_bails)

/-- A complete submission that is bailed is always replaced exactly when the solution passes
every score that stands beside a complete submission which it passes. The call gets to
bail one only if it has first read a head at which the submission is not complete. -/
theorem bailed_submission_replaced_iff (pallet : SignedPallet account) (config : ProcessConfig)
    (details : BlockDetails) (solution : PagedRawSolution T)
    (sameRound : solution.round = details.round) :
    (∀ (env : MinerEnv T) (state : MinerState T) (history : MinerTrace T), pallet.Serves env →
      let block := handleBlock config env details state history
      block.result.store.cachedSolution = some solution →
        Replaces details solution block.result.outcome block.result.trace) ↔
      (ComparesScores config details →
        (∃ first, (pallet.current details first).isDone = false) →
          CoversOthers pallet config details solution) := by
  constructor
  · rintro holds compares ⟨first, unfinished⟩ head score found better
    by_contra uncovered
    have beaten : ∃ entry ∈ pallet.sortedScores head details.round,
        config.passes solution entry.2 = false := by
      simpa using uncovered
    let state : MinerState T := ⟨Snapshot.new 0, some solution, none⟩
    have givenUp : (handleBlock config (bailedEnv pallet first head) details state []).result = _ :=
      handleBlock_givenUp compares unfinished (by rw [found]; exact nofun)
        (by rw [found]; exact better) beaten rfl sameRound nofun
    have replaced := holds (bailedEnv pallet first head) state []
      (bailedEnv_serves pallet first head) (by rw [givenUp])
    rw [givenUp] at replaced
    exact givenUp_not_replaced found replaced
  · exact fun covers env state history serves => handleBlock_replaces serves covers

def rivalPallet : SignedPallet 1 where
  sortedScores _ _ := [(1, ⟨3, 3, 3⟩), (2, ⟨5, 5, 5⟩)]
  submission storage _ := some ⟨⟨3, 3, 3⟩, [true, decide (52 ≤ storage)]⟩
  registered := by simp [eq_comm]

def weakRivalPallet : SignedPallet 1 where
  sortedScores _ _ := [(1, ⟨3, 3, 3⟩), (2, ⟨2, 2, 2⟩)]
  submission storage _ := some ⟨⟨3, 3, 3⟩, [true, decide (52 ≤ storage)]⟩
  registered := by simp [eq_comm]

theorem bailed_submission_replaced_iff_leading :
    weakRivalPallet.current sampleDetails 52 = .done ⟨3, 3, 3⟩ ∧
      ∀ (env : MinerEnv sampleConfig) (state : MinerState sampleConfig)
        (history : MinerTrace sampleConfig), weakRivalPallet.Serves env →
        let block := handleBlock ⟨.ifLeading, false, 0, 10, false⟩ env sampleDetails state history
        block.result.store.cachedSolution = some sampleSolution →
          Replaces sampleDetails sampleSolution block.result.outcome block.result.trace := by
  refine ⟨by decide, (bailed_submission_replaced_iff weakRivalPallet
    ⟨.ifLeading, false, 0, 10, false⟩ sampleDetails sampleSolution rfl).mpr ?_⟩
  intro _ _ head score _ _ entry listed
  rcases List.mem_pair.mp listed with rfl | rfl
  · decide
  · decide

/-- The submission is complete by the time the solution is compared with it. Its score is
passed and it is bailed, but the solution does not pass the other account's. -/
theorem complete_submission_given_up :
    let block := handleBlock ⟨.ifLeading, false, 0, 10, false⟩ (bailedEnv rivalPallet 51 52)
      sampleDetails ⟨Snapshot.new 2, some sampleSolution, none⟩ []
    (rivalPallet.current sampleDetails 52).isDone = true ∧
      ¬Replaces sampleDetails sampleSolution block.result.outcome block.result.trace ∧
      block.result.outcome = .ok () ∧
      (∃ event ∈ block.result.trace, event.1.kind = .bail) ∧
      ⟨.submitCalled sampleSolution, ()⟩ ∉ block.result.trace := by
  intro block
  have found : rivalPallet.current sampleDetails 52 = .done ⟨3, 3, 3⟩ := by decide
  have givenUp : block.result = _ := handleBlock_givenUp ⟨rfl, 20, rfl, by decide⟩ (by decide)
    (by decide) (by rw [found]; rfl) ⟨(2, ⟨5, 5, 5⟩), by decide, by decide⟩ rfl rfl nofun
  rw [givenUp]
  exact ⟨by decide, givenUp_not_replaced found, rfl, givenUp_bails, givenUp_uncalled⟩

end LeanStakingMiner
