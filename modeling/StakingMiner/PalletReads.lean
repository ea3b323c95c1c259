import StakingMiner.BlockLogic
import StakingMiner.ProgramTrace

/-!
What `process_block` reads of the signed pallet: the submission of its account and the
registered scores. A submission of its own may be bailed between the two, and the scores are
still those of the storage read before.
-/

namespace LeanStakingMiner

open LeanProgram

variable {T : MinerConfig} {account : AccountId}

/-- What the signed pallet holds at each block: the scores registered for a round, and the
submission of our account. The two are written together. -/
structure SignedPallet (account : AccountId) where
  sortedScores : AtBlock → Nat → List (AccountId × ElectionScore)
  submission : AtBlock → Nat → Option SubmissionMetadata
  registered : ∀ storage round score, (account, score) ∈ sortedScores storage round ↔
    ∃ metadata, submission storage round = some metadata ∧ metadata.claimedScore = score

namespace SignedPallet

def Agrees (pallet : SignedPallet account) : (op : Op T) → Resp op → Prop
  | .sortedScores storage round, .ok scores => scores = pallet.sortedScores storage round
  | .submissionMetadata storage round, .ok metadata => metadata = pallet.submission storage round
  | _, _ => True

/-- Reads may fail, but one that succeeds returns what the pallet holds. -/
def Serves (pallet : SignedPallet account) (env : MinerEnv T) : Prop :=
  ∀ history op, pallet.Agrees op (env.answer history op)

/-- The account's submission for the block's round as `get_submission` sees it. -/
def current (pallet : SignedPallet account) (details : BlockDetails) (storage : AtBlock) :
    CurrentSubmission :=
  currentSubmission details.nPages (pallet.submission storage details.round)

end SignedPallet

def ProcessConfig.passes (config : ProcessConfig) (solution : PagedRawSolution T)
    (score : ElectionScore) : Bool :=
  scorePassesStrategy T solution.score score config.submissionStrategy

def ComparesScores (config : ProcessConfig) (details : BlockDetails) : Prop :=
  config.shady = false ∧
    ∃ blocks, details.phase = .signed blocks ∧ config.minSignedPhaseBlocks < blocks

def Superseded (config : ProcessConfig) (solution : PagedRawSolution T) :
    CurrentSubmission → Prop
  | .done score => config.passes solution score = true
  | .incomplete submission => submission.score ≠ solution.score
  | .notStarted => True

/-- The call was ended by an RPC error or a timeout. -/
def Interrupted {α : Type} : Outcome Error α → Prop
  | .err (.subxt _) | .err (.timeout _) => True
  | _ => False

theorem Interrupted.err {α β : Type} {error : Error}
    (interrupted : Interrupted (.err error : Outcome Error α)) :
    Interrupted (.err error : Outcome Error β) := by
  cases error <;> exact interrupted

section Settling

variable {α β γ σ : Type} {M : Monitor (Op T) Resp γ} {ghost : γ} {task : Task T α}
variable {ready : α → γ → Prop}

/-- The task returns a value as `ready` says, unless an RPC error or a timeout ends it. -/
def Settles (M : Monitor (Op T) Resp γ) (task : Task T α) (ready : α → γ → Prop) (ghost : γ) :
    Prop :=
  wp M task (fun outcome _ after => Interrupted outcome ∨
    ∃ value, outcome = .ok value ∧ ready value after) () ghost

theorem Settles.timed (settles : Settles M task ready ghost) (error : TimeoutError) :
    Settles M (withTimeout error task) ready ghost :=
  wp_withTimeout settles fun _ => Or.inl trivial

theorem Settles.liftSeq {rest : α → Miner T σ β} {post : Outcome Error β → σ → γ → Prop}
    {store : σ} (settles : Settles M task ready ghost)
    (second : ∀ value after, ready value after → wp M (rest value) post store after)
    (stopped : ∀ error after, Interrupted (.err error : Outcome Error β) →
      post (.err error) store after) :
    wp M (task.lift >>= rest) post store ghost := by
  rw [wp_bind, wp_lift]
  refine wp_mono settles ?_
  rintro (value | error | _) _ after (interrupted | ⟨_, finished, holds⟩)
  · exact interrupted.elim
  · obtain rfl := Outcome.ok.inj finished
    exact second value after holds
  · exact stopped error after interrupted.err
  · exact nomatch finished
  · exact interrupted.elim
  · exact nomatch finished

theorem Settles.bind {rest : α → Task T β} {final : β → γ → Prop}
    (settles : Settles M task ready ghost)
    (second : ∀ value after, ready value after → Settles M (rest value) final after) :
    Settles M (task >>= rest) final ghost := by
  refine wp_seq settles ?_ ?_ ?_
  · rintro value _ after (interrupted | ⟨_, finished, holds⟩)
    · exact interrupted.elim
    · obtain rfl := Outcome.ok.inj finished
      exact second value after holds
  · rintro error _ after (interrupted | ⟨_, finished, _⟩)
    · exact Or.inl interrupted.err
    · exact nomatch finished
  · rintro _ after (interrupted | ⟨_, finished, _⟩)
    · exact interrupted.elim
    · exact nomatch finished

end Settling

def submissionRead (pallet : SignedPallet account) (details : BlockDetails) (storage : AtBlock) :
    MinerTrace T :=
  [⟨.storageAtHead, .ok storage⟩,
    ⟨.submissionMetadata storage details.round, .ok (pallet.submission storage details.round)⟩]

section Reading

variable {expected : (op : Op T) → Resp op → Prop} {kept : Op T → Bool} {record : MinerTrace T}

theorem handleExisting_superseded (config : ProcessConfig) (round : Nat)
    (solution : PagedRawSolution T) (existing : CurrentSubmission) :
    wp (Monitor.recording expected kept) (handleExisting config round solution existing)
      (fun outcome _ _ => outcome = .ok .proceed → Superseded config solution existing)
      () record := by
  cases existing with
  | done score =>
      simp only [handleExisting]
      split
      · rename_i better
        exact wp_mono (wp_trivial (fun _ _ => trivial) _ _ _) fun _ _ _ _ _ => better
      · simp
  | incomplete submission =>
      simp only [handleExisting]
      split
      · refine wp_seq (wp_trivial (fun _ _ => trivial) _ _ _) ?_ (fun _ _ _ _ => by simp)
          fun _ _ _ => by simp
        exact fun _ _ _ _ => by simp
      · rename_i different
        exact wp_mono (wp_trivial (fun _ _ => trivial) _ _ _) fun _ _ _ _ _ => different
  | notStarted => exact fun _ => trivial

theorem readSubmission_settles {α : Type} {pallet : SignedPallet account}
    (agrees : ∀ op answer, expected op answer → pallet.Agrees op answer)
    (details : BlockDetails) {rest : AtBlock → CurrentSubmission → Task T α}
    {ready : α → MinerTrace T → Prop}
    (second : ∀ head, Settles (Monitor.recording expected kept)
      (rest head (pallet.current details head)) ready
      ((Monitor.recording expected kept).after record (submissionRead pallet details head))) :
    Settles (Monitor.recording expected kept) (do
        let storage ← rpc (← ask .storageAtHead)
        let submission ← getSubmission storage details.round details.nPages
        rest storage submission) ready record := by
  unfold Settles
  rw [wp_bind, wp_ask]
  refine ⟨trivial, ?_⟩
  rintro (error | head) _
  · exact Or.inl trivial
  · rw [followedBy_ok, wp_bind, wp_rpc_ok, followedBy_ok, getSubmission, wp_bind, wp_bind, wp_ask]
    refine ⟨trivial, ?_⟩
    rintro (error | metadata) read
    · exact Or.inl trivial
    · obtain rfl : metadata = pallet.submission head details.round := agrees _ _ read
      exact second head

theorem existingSubmission_settles {pallet : SignedPallet account}
    (agrees : ∀ op answer, expected op answer → pallet.Agrees op answer)
    (details : BlockDetails) :
    Settles (Monitor.recording expected kept) (existingSubmission details)
      (fun existing after => existing.2 = pallet.current details existing.1 ∧
        after = (Monitor.recording expected kept).after record
          (submissionRead pallet details existing.1)) record := by
  refine Settles.timed ?_ _
  refine readSubmission_settles agrees details fun head => ?_
  exact Or.inr ⟨_, rfl, rfl, rfl⟩

theorem alreadySubmitted_settles {pallet : SignedPallet account}
    (agrees : ∀ op answer, expected op answer → pallet.Agrees op answer)
    (details : BlockDetails) :
    Settles (Monitor.recording expected kept) (alreadySubmitted details)
      (fun submitted after => ∃ head, submitted = (pallet.current details head).isDone ∧
        after = (Monitor.recording expected kept).after record
          (submissionRead pallet details head)) record := by
  refine Settles.timed ?_ _
  refine readSubmission_settles agrees details fun head => ?_
  exact Or.inr ⟨_, rfl, head, rfl, rfl⟩

theorem checkCompetitive_settles {config : ProcessConfig} (checked : config.shady = false)
    (storage : AtBlock) (round : Nat) (solution : PagedRawSolution T) :
    Settles (Monitor.recording expected kept)
      (checkCompetitive config storage round solution.score)
      (fun competitive _ => ∃ scores, expected (.sortedScores storage round) (.ok scores) ∧
        competitive = scores.all fun entry => config.passes solution entry.2) record := by
  have compared : Settles (Monitor.recording expected kept)
      (scoreBetter storage solution.score round config.submissionStrategy : Task T Bool)
      (fun competitive _ => ∃ scores, expected (.sortedScores storage round) (.ok scores) ∧
        competitive = scores.all fun entry => config.passes solution entry.2) record := by
    refine ⟨trivial, ?_⟩
    rintro (error | scores) read
    · exact Or.inl trivial
    · exact Or.inr ⟨_, rfl, scores, read, rfl⟩
  rw [checkCompetitive, if_neg (by simp [checked])]
  exact compared.timed _

end Reading

def bailedAnswer (pallet : SignedPallet account) (first head : AtBlock) (history : MinerTrace T) :
    (op : Op T) → Resp op
  | .account _ => .ok (some 0)
  | .storageAtHead =>
      .ok (if history.any fun event => event.1.kind = .submission then head else first)
  | .submissionMetadata storage round => .ok (pallet.submission storage round)
  | .minimumScore _ => .ok none
  | .currentPhase _ _ => .ok (some (.signed 0))
  | .atCurrentBlock => .ok head
  | .accountNonce => .ok 0
  | .createSigned _ _ => .ok ()
  | .submitAndWatch _ _ _ => .ok 0
  | .waitForFinalized _ => .ok 0
  | .sortedScores storage round => .ok (pallet.sortedScores storage round)
  | op => unavailable op

def bailedEnv (pallet : SignedPallet account) (first head : AtBlock) : MinerEnv T :=
  ⟨bailedAnswer pallet first head, fun _ _ => false⟩

theorem bailedEnv_serves (pallet : SignedPallet account) (first head : AtBlock) :
    pallet.Serves (bailedEnv pallet first head : MinerEnv T) := by
  intro history op
  cases op <;> trivial

def phaseRead (head : AtBlock) : MinerTrace T :=
  [⟨.storageAtHead, .ok head⟩, ⟨.currentPhase .validation head, .ok (some (.signed 0))⟩]

def bailSent (head : AtBlock) : MinerTrace T :=
  [⟨.atCurrentBlock, .ok head⟩,
    ⟨.accountNonce, .ok 0⟩,
    ⟨.createSigned .bail 0, .ok ()⟩,
    ⟨.submitAndWatch .bail 0 none, .ok 0⟩,
    ⟨.waitForFinalized 0, .ok 0⟩]

def balanceRead (details : BlockDetails) : MinerTrace T :=
  [⟨.account details.atBlock, .ok (some 0)⟩]

def minimumRead (details : BlockDetails) : MinerTrace T :=
  [⟨.minimumScore details.atBlock, .ok none⟩]

def scoresRead (pallet : SignedPallet account) (details : BlockDetails) (storage : AtBlock) :
    MinerTrace T :=
  [⟨.sortedScores storage details.round, .ok (pallet.sortedScores storage details.round)⟩]

def skipCounted : MinerTrace T := [⟨.metric .submissionSkippedNotCompetitive, ()⟩]

def givenUpTrace (pallet : SignedPallet account) (details : BlockDetails) (head : AtBlock) :
    MinerTrace T :=
  minimumRead details ++ (submissionRead pallet details head ++ (phaseRead head ++ bailSent head ++
    (scoresRead pallet details head ++ skipCounted)))

section Bailing

variable {pallet : SignedPallet account} {first head : AtBlock} {config : ProcessConfig}
variable {details : BlockDetails} {solution : PagedRawSolution T} {state : MinerState T}

theorem handleExisting_bails (bails : pallet.current details head ≠ .notStarted)
    (superseded : Superseded config solution (pallet.current details head)) :
    handleExisting config details.round solution (pallet.current details head) =
      bailIfSigned := by
  cases found : pallet.current details head with
  | done score =>
      rw [found] at superseded
      exact if_pos superseded
  | incomplete submission =>
      rw [found] at superseded
      exact if_neg superseded
  | notStarted => exact absurd found bails

theorem checkCompetitive_beaten (checked : config.shady = false)
    (beaten : ∃ entry ∈ pallet.sortedScores head details.round,
      config.passes solution entry.2 = false) (history : MinerTrace T) :
    run (bailedEnv pallet first head)
        (checkCompetitive config head details.round solution.score) () history =
      ⟨.ok false, (), scoresRead pallet details head⟩ := by
  have lost : (pallet.sortedScores head details.round).all
      (fun entry => config.passes solution entry.2) = false := by
    simpa using beaten
  have compared : run (bailedEnv pallet first head) (scoreBetter head solution.score details.round
      config.submissionStrategy) () history = ⟨.ok ((pallet.sortedScores head details.round).all
        fun entry => config.passes solution entry.2), (), scoresRead pallet details head⟩ := rfl
  rw [checkCompetitive, if_neg (by simp [checked]), run_withTimeout _ fun _ _ => rfl, compared,
    lost]

theorem skipNotCompetitive_counts {env : MinerEnv T} {round : Nat}
    (unmarked : state.lastOutcompetedRound ≠ some round) (history : MinerTrace T) :
    run env (skipNotCompetitive round) state history =
      ⟨.ok (), { state with lastOutcompetedRound := some round }, skipCounted⟩ := by
  rw [skipNotCompetitive, run_load_bind, if_pos unmarked]
  rfl

theorem bailIfSigned_bails {history : MinerTrace T}
    (read : (history.any fun event => event.1.kind = .submission) = true) :
    run (bailedEnv pallet first head) bailIfSigned () history =
      ⟨.ok .proceed, (), phaseRead head ++ bailSent head⟩ := by
  have quiet : (bailedEnv pallet first head : MinerEnv T).Quiet := fun _ _ => rfl
  have signed : run (bailedEnv pallet first head) (withTimeout (.phaseCheck 60) signedPhase) ()
      history = ⟨.ok true, (), phaseRead head⟩ := by
    have moved : run (bailedEnv pallet first head : MinerEnv T) (ask .storageAtHead) () history =
        ⟨.ok (.ok head), (), [⟨.storageAtHead, .ok head⟩]⟩ := by
      simp [ask, Program.perform, run, bailedEnv, bailedAnswer, read, Result.prepend]
    have phase : run (bailedEnv pallet first head : MinerEnv T) (readPhase .validation) () history =
        ⟨.ok (.signed 0), (), phaseRead head⟩ := by
      rw [readPhase, run_bind, moved]
      rfl
    rw [run_withTimeout _ quiet, signedPhase, run_bind, phase]
    rfl
  have sent : run (bailedEnv pallet first head) (withTimeout (.bail 120) bail) ()
      (history ++ phaseRead head) = ⟨.ok (), (), bailSent head⟩ := by
    rw [run_withTimeout _ quiet]
    rfl
  refine run_seq signed ?_
  exact run_seq sent rfl

def cachedTrace (pallet : SignedPallet account) (details : BlockDetails) (first : AtBlock) :
    MinerTrace T :=
  balanceRead details ++ submissionRead pallet details first

theorem submitSolution_givenUp (checked : config.shady = false)
    (bails : pallet.current details head ≠ .notStarted)
    (superseded : Superseded config solution (pallet.current details head))
    (beaten : ∃ entry ∈ pallet.sortedScores head details.round,
      config.passes solution entry.2 = false)
    (unmarked : state.lastOutcompetedRound ≠ some details.round) :
    run (bailedEnv pallet first head) (submitSolution config details solution) state
        (cachedTrace pallet details first) =
      ⟨.ok (), { state with lastOutcompetedRound := some details.round },
        givenUpTrace pallet details head⟩ := by
  have minimum : run (bailedEnv pallet first head : MinerEnv T)
      (fetchMinimumScore details.atBlock) () (cachedTrace pallet details first) =
        ⟨.ok none, (), minimumRead details⟩ := rfl
  have existing : run (bailedEnv pallet first head : MinerEnv T) (existingSubmission details) ()
      (cachedTrace pallet details first ++ minimumRead details) =
        ⟨.ok (head, pallet.current details head), (), submissionRead pallet details head⟩ := rfl
  rw [submitSolution, givenUpTrace]
  refine run_lift_seq minimum ?_
  dsimp only [meetsMinimumScore]
  refine run_lift_seq existing ?_
  rw [handleExisting_bails bails superseded]
  refine run_lift_seq (bailIfSigned_bails rfl) ?_
  refine run_lift_seq (checkCompetitive_beaten checked beaten _) ?_
  exact skipNotCompetitive_counts unmarked _

theorem handleBlock_givenUp (compares : ComparesScores config details)
    (unfinished : (pallet.current details first).isDone = false)
    (bails : pallet.current details head ≠ .notStarted)
    (superseded : Superseded config solution (pallet.current details head))
    (beaten : ∃ entry ∈ pallet.sortedScores head details.round,
      config.passes solution entry.2 = false)
    (cached : state.cachedSolution = some solution) (sameRound : solution.round = details.round)
    (unmarked : state.lastOutcompetedRound ≠ some details.round) :
    (handleBlock config (bailedEnv pallet first head) details state []).result =
      ⟨.ok (), { state with lastOutcompetedRound := some details.round },
        cachedTrace pallet details first ++ givenUpTrace pallet details head⟩ := by
  obtain ⟨checked, blocks, phase, enough⟩ := compares
  have balance : run (bailedEnv pallet first head : MinerEnv T) (fetchBalance details.atBlock) ()
      [] = ⟨.ok .proceed, (), balanceRead details⟩ := rfl
  have long : checkPhase config.minSignedPhaseBlocks details =
      (pure .proceed : Miner T (MinerState T) Flow) := by
    simp [checkPhase, phase, enough]
  have submitted : run (bailedEnv pallet first head : MinerEnv T) (alreadySubmitted details) ()
      (balanceRead details) =
        ⟨.ok (pallet.current details first).isDone, (), submissionRead pallet details first⟩ := rfl
  have mining : run (bailedEnv pallet first head) (mineAndSubmit config details) state
      (cachedTrace pallet details first) =
        ⟨.ok (), { state with lastOutcompetedRound := some details.round },
          givenUpTrace pallet details head⟩ := by
    have kept : run (bailedEnv pallet first head) (refreshCache details config.doReduce) state
        (cachedTrace pallet details first) = ⟨.ok (), state, []⟩ := by
      rw [refreshCache, run_load_bind, if_neg (by simp [cached, sameRound])]
      rfl
    rw [← List.nil_append (givenUpTrace pallet details head)]
    refine run_seq kept ?_
    rw [run_load_bind, List.append_nil]
    split
    · rename_i absent
      exact absurd (absent.symm.trans cached) (by simp)
    · rename_i used found
      obtain rfl : used = solution := Option.some.inj (found.symm.trans cached)
      rw [if_neg (by simp [checked])]
      exact submitSolution_givenUp checked bails superseded beaten unmarked
  rw [cachedTrace, List.append_assoc]
  refine run_lift_seq balance ?_
  rw [long]
  refine run_lift_seq submitted ?_
  rw [unfinished]
  exact mining

theorem givenUp_scores {storage : AtBlock} {scores : List (AccountId × ElectionScore)}
    (read : (⟨.sortedScores storage details.round, .ok scores⟩ : Event (Op T) Resp) ∈
      cachedTrace pallet details first ++ givenUpTrace pallet details head) :
    storage = head ∧ scores = pallet.sortedScores head details.round := by
  simpa [cachedTrace, givenUpTrace, balanceRead, submissionRead, minimumRead, phaseRead, bailSent,
    scoresRead, skipCounted] using read

theorem givenUp_bails :
    ∃ event ∈ cachedTrace pallet details first ++ givenUpTrace pallet details head,
      (event : Event (Op T) Resp).1.kind = .bail :=
  ⟨⟨.submitAndWatch .bail 0 none, .ok 0⟩, by simp [givenUpTrace, bailSent], rfl⟩

theorem givenUp_uncalled (called : (⟨.submitCalled solution, ()⟩ : Event (Op T) Resp) ∈
    cachedTrace pallet details first ++ givenUpTrace pallet details head) : False := by
  simp [cachedTrace, givenUpTrace, balanceRead, submissionRead, minimumRead, phaseRead, bailSent,
    scoresRead, skipCounted] at called

end Bailing

def sampleDetails : BlockDetails := ⟨50, .signed 20, 2, 7, 2, 50⟩

def sampleSolution : PagedRawSolution sampleConfig := ⟨[3, 4], ⟨4, 4, 4⟩, 7⟩

end LeanStakingMiner
