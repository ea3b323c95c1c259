import StakingMiner.BlockLogic
import StakingMiner.ListenerLogic
import StakingMiner.MonitorCore

/-!
How the tasks use the account's nonce. Every transaction is signed either with the nonce
the task read last or, inside a batch of pages, with the one after the previous page's.
-/

namespace LeanStakingMiner

open LeanProgram

variable {T : MinerConfig} {α σ : Type}

def nonceNext (usable : Option Nat) : (op : Op T) → Resp op → Option Nat
  | .accountNonce, .ok nonce => some nonce
  | .submitAndWatch _ nonce _, .ok _ => some (nonce + 1)
  | .submitAndWatch _ _ _, .error _ => none
  | _, _ => usable

def nonceAllowed (usable : Option Nat) : Op T → Prop
  | .submitAndWatch _ nonce _ => usable = some nonce
  | _ => True

/-- The ghost value is the nonce the task may sign with next. -/
def nonceMonitor : Monitor (Op T) Resp (Option Nat) where
  expects _ _ _ := True
  allows := nonceAllowed
  next := nonceNext

variable {usable : Option Nat}

@[simp] theorem nonceMonitor_allows (op : Op T) :
    nonceMonitor.allows usable op ↔ nonceAllowed usable op := Iff.rfl

@[simp] theorem nonceMonitor_expects (op : Op T) (answer : Resp op) :
    nonceMonitor.expects usable op answer ↔ True := Iff.rfl

@[simp] theorem nonceMonitor_next (op : Op T) (answer : Resp op) :
    nonceMonitor.next usable op answer = nonceNext usable op answer := rfl

def nonceFreeKinds : List OpKind :=
  [.head, .phase, .submission, .snapshot, .solver, .events, .submitCall, .receive, .signal, .other]

theorem nonceMonitor_free (op : Op T) (member : op.kind ∈ nonceFreeKinds) :
    nonceMonitor.Ignores usable op := by
  cases op with
  | submitAndWatch transaction nonce mortality =>
      cases transaction <;> simp [Op.kind, Transaction.kind, nonceFreeKinds] at member
  | accountNonce => simp [Op.kind, nonceFreeKinds] at member
  | _ => exact ⟨trivial, fun _ => rfl⟩

theorem Issues.unsigned {kinds : List OpKind} {task : Task T α} {post : Outcome Error α → Prop}
    (issues : Issues kinds task post) (subset : kinds ⊆ nonceFreeKinds) :
    nonceMonitor.Permits task :=
  issues.permits fun _ op member => (nonceMonitor_free op (subset member)).1

theorem ask_nonce {op : Op T} (member : op.kind ∈ nonceFreeKinds) :
    nonceMonitor.Permits (ask op : Miner T σ (Resp op)) :=
  ask_permitted fun _ => (nonceMonitor_free op member).1

theorem submitAndFinalize_nonce (transaction : Transaction T) :
    nonceMonitor.Permits (submitAndFinalize transaction) := by
  intro _ usable
  simp [submitAndFinalize, nonceAllowed, nonceNext]

theorem submitInner_nonce (transaction : Transaction T) (nonce blocks : Nat) :
    wp nonceMonitor (submitInner transaction nonce blocks)
      (fun outcome _ after => ∀ tx, outcome = .ok tx → after = some (nonce + 1)) ()
      (some nonce) := by
  simp [submitInner, nonceAllowed, nonceNext]

theorem bail_nonce : nonceMonitor.Permits (bail : Task T Unit) :=
  (submitAndFinalize_nonce .bail).bind fun _ _ _ => trivial

theorem validateSignedPhaseOrBail_nonce (phase : Phase) (round minBlocks : Nat) :
    nonceMonitor.Permits (validateSignedPhaseOrBail phase round minBlocks : Task T Unit) := by
  cases phase with
  | signed blocks =>
      by_cases low : blocks ≤ minBlocks
      · simp only [validateSignedPhaseOrBail, low, ↓reduceIte]
        refine Monitor.Permits.bind (ask_nonce (by simp [Op.kind, nonceFreeKinds])) fun head => ?_
        refine (rpc_permitted head).bind fun storage => ?_
        refine Monitor.Permits.bind (ask_nonce (by simp [Op.kind, nonceFreeKinds])) fun found => ?_
        refine (rpc_permitted found).bind fun submission => ?_
        refine Monitor.Permits.bind ?_ fun _ _ _ => trivial
        cases submission with
        | none => exact fun _ _ => trivial
        | some submission =>
            simp only [bailIncomplete]
            split
            · exact fun _ _ => trivial
            · exact bail_nonce
      · simp only [validateSignedPhaseOrBail, low, ↓reduceIte]
        exact fun _ _ => trivial
  | _ => exact fun _ _ => trivial

theorem revalidate_nonce (round minBlocks : Nat) :
    nonceMonitor.Permits (revalidate round minBlocks : Task T Unit) :=
  ((readPhase_issues .validation).unsigned (by simp [nonceFreeKinds])).bind fun phase =>
    validateSignedPhaseOrBail_nonce phase round minBlocks

theorem submitPageTxs_nonce (pages : List (Nat × T.Solution)) (nonce : Nat) :
    wp nonceMonitor (submitPageTxs pages nonce) (fun _ _ _ => True) () (some nonce) := by
  induction pages generalizing nonce with
  | nil => trivial
  | cons entry rest ih =>
      obtain ⟨page, solution⟩ := entry
      unfold submitPageTxs
      refine (readPhase_issues .mortality).seq
        (fun op member => nonceMonitor_free op (by simp [nonceFreeKinds] at member ⊢; tauto)) ?_
        (fun _ _ => trivial) (fun _ => trivial)
      intro phase _
      cases phase with
      | signed blocks =>
          change wp _ (submitInner _ nonce blocks >>= _) _ _ _
          refine wp_seq (submitInner_nonce (.submitPage page (some solution)) nonce blocks) ?_
            (fun _ _ _ _ => trivial) (fun _ _ _ => trivial)
          intro tx _ after sent
          rw [sent tx rfl]
          exact wp_seq (ih (nonce + 1)) (fun _ _ _ _ => trivial) (fun _ _ _ _ => trivial)
            (fun _ _ _ => trivial)
      | _ => trivial

theorem submitPagesBatch_nonce (pages : List (Nat × T.Solution)) (round minBlocks : Nat) :
    nonceMonitor.Permits (submitPagesBatch pages round minBlocks) := by
  unfold submitPagesBatch
  refine ((readPhase_issues .validation).unsigned (by simp [nonceFreeKinds])).bind fun phase => ?_
  refine (validateSignedPhaseOrBail_nonce phase round minBlocks).bind fun _ => ?_
  intro _ usable
  rw [wp_bind, wp_ask]
  refine ⟨trivial, fun answer _ => ?_⟩
  cases answer with
  | error error => trivial
  | ok nonce =>
      change wp _ (submitPageTxs pages nonce >>= _) _ _ _
      refine wp_seq (submitPageTxs_nonce pages nonce) ?_ (fun _ _ _ _ => trivial)
        (fun _ _ _ => trivial)
      intro txs store after _
      refine Monitor.Permits.bind ((awaitPageTxs_issues txs.length txs ∅ ∅).unsigned
        (by simp [nonceFreeKinds])) ?_ store after
      intro result
      exact Monitor.Permits.bind (ask_nonce (by simp [Op.kind, nonceFreeKinds])) fun _ _ _ => trivial

theorem submitChunks_nonce (totalPages round minBlocks : Nat)
    (remaining : List (List (Nat × T.Solution))) (submitted : Finset Nat) :
    nonceMonitor.Permits (submitChunks totalPages round minBlocks remaining submitted) := by
  induction remaining generalizing submitted with
  | nil => exact fun _ _ => trivial
  | cons chunk rest ih =>
      refine ((readPhase_issues .validation).unsigned (by simp [nonceFreeKinds])).bind
        fun phase => ?_
      refine (validateSignedPhaseOrBail_nonce phase round minBlocks).bind fun _ => ?_
      refine (submitPagesBatch_nonce chunk round minBlocks).bind fun result => ?_
      split
      · change nonceMonitor.Permits (if _ then _ else _)
        split
        · exact fun _ _ => trivial
        · exact ih _
      · exact fun _ _ => trivial

theorem innerSubmitPages_nonce (pages : List (Nat × T.Solution))
    (chunkSize round minBlocks : Nat) :
    nonceMonitor.Permits (innerSubmitPages pages chunkSize round minBlocks) := by
  unfold innerSubmitPages
  split
  · refine (submitPagesBatch_nonce pages round minBlocks).bind fun result => ?_
    split
    · exact fun _ _ => trivial
    · exact fun _ _ => trivial
  · unfold innerSubmitPagesChunked
    split
    · exact fun _ _ => trivial
    · exact submitChunks_nonce _ round minBlocks _ ∅

theorem takePages_nonce (pages : List Nat) (solutionPages : List T.Solution) :
    nonceMonitor.Permits (takePages pages solutionPages) := by
  induction pages generalizing solutionPages with
  | nil => exact fun _ _ => trivial
  | cons page rest ih =>
      unfold takePages
      split
      · exact fun _ _ => trivial
      · exact (ih _).bind fun _ _ _ => trivial

theorem submitAllPages_nonce (solutionPages : List T.Solution) (chunkSize round minBlocks : Nat) :
    nonceMonitor.Permits (submitAllPages solutionPages chunkSize round minBlocks) := by
  refine (innerSubmitPages_nonce _ chunkSize round minBlocks).bind fun failed => ?_
  split
  · exact ask_nonce (by simp [Op.kind, nonceFreeKinds])
  · refine (revalidate_nonce round minBlocks).bind fun _ => ?_
    refine (takePages_nonce failed solutionPages).bind fun solutions => ?_
    refine (innerSubmitPages_nonce solutions chunkSize round minBlocks).bind fun remaining => ?_
    split
    · exact ask_nonce (by simp [Op.kind, nonceFreeKinds])
    · exact (revalidate_nonce round minBlocks).bind fun _ _ _ => trivial

theorem registerAttempt_nonce (retryable : SubxtError → Bool) (score : ElectionScore)
    (blocks : Nat) {retry : SubxtError → Task T TxHandle}
    (retries : ∀ error, nonceMonitor.Permits (retry error)) :
    nonceMonitor.Permits (registerAttempt retryable score blocks retry) := by
  intro store usable
  unfold registerAttempt
  rw [wp_bind, wp_ask]
  refine ⟨trivial, fun answer _ => ?_⟩
  cases answer with
  | error error => trivial
  | ok nonce =>
      change wp _ (Program.attempt _ >>= _) _ _ _
      rw [wp_bind, wp_attempt]
      refine wp_mono (submitInner_nonce (.registerScore score) nonce blocks) ?_
      intro outcome _ after _
      cases outcome with
      | ok tx => trivial
      | panic => trivial
      | err error =>
          cases error with
          | subxt error =>
              change wp _ (if _ then _ else _) _ _ _
              split
              · exact retries error () after
              · trivial
          | _ => trivial

theorem registerLoop_nonce (retryable : SubxtError → Bool) (score : ElectionScore)
    (blocks retries : Nat) :
    nonceMonitor.Permits (registerLoop retryable score blocks retries : Task T TxHandle) := by
  induction retries with
  | zero => exact registerAttempt_nonce retryable score blocks fun _ _ _ => trivial
  | succ retries ih =>
      refine registerAttempt_nonce retryable score blocks fun _ => ?_
      exact Monitor.Permits.bind (ask_nonce (by simp [Op.kind, nonceFreeKinds])) fun _ => ih

theorem registered_nonce {rest : List (Read ChainEvent) → Task T Unit}
    (retryable : SubxtError → Bool) (score : ElectionScore) (blocks retries : Nat)
    (ends : ∀ events, nonceMonitor.Permits (rest events)) :
    nonceMonitor.Permits (do
      let txStatus ← registerLoop retryable score blocks retries
      let tx ← rpc (← ask (.waitForFinalized txStatus))
      let events ← rpc (← ask (.waitForSuccess tx))
      rest events) := by
  refine (registerLoop_nonce retryable score blocks retries).bind fun txStatus => ?_
  refine Monitor.Permits.bind (ask_nonce (by simp [Op.kind, nonceFreeKinds])) fun finalized => ?_
  refine (rpc_permitted finalized).bind fun tx => ?_
  refine Monitor.Permits.bind (ask_nonce (by simp [Op.kind, nonceFreeKinds])) fun succeeded => ?_
  exact (rpc_permitted succeeded).bind ends

theorem registerAndConfirm_nonce (score : ElectionScore) (blocks : Nat) :
    nonceMonitor.Permits (registerAndConfirm score blocks : Task T Unit) := by
  refine registered_nonce _ score blocks 9 fun events => ?_
  split
  · exact ask_nonce (by simp [Op.kind, nonceFreeKinds])
  · exact fun _ _ => trivial

theorem submit_nonce (solution : PagedRawSolution T) (chunkSize round minBlocks : Nat) :
    nonceMonitor.Permits (submit solution chunkSize round minBlocks) := by
  refine ((readPhase_issues .validation).unsigned (by simp [nonceFreeKinds])).bind fun phase => ?_
  refine (validateSignedPhaseOrBail_nonce phase round minBlocks).bind fun _ => ?_
  refine Monitor.Permits.bind ?_ fun blocks => ?_
  · cases phase <;> exact fun _ _ => trivial
  · refine (registerAndConfirm_nonce solution.score blocks).bind fun _ => ?_
    refine (revalidate_nonce round minBlocks).bind fun _ => ?_
    exact submitAllPages_nonce solution.solutionPages chunkSize round minBlocks

theorem bailIfSigned_nonce : nonceMonitor.Permits (bailIfSigned : Task T Flow) := by
  have asked : nonceMonitor.Permits (signedPhase : Task T Bool) :=
    ((readPhase_issues .validation).unsigned (by simp [nonceFreeKinds])).bind fun _ _ _ => trivial
  refine (withTimeout_permitted asked).bind fun stillSigned => ?_
  split
  · exact (withTimeout_permitted bail_nonce).bind fun _ _ _ => trivial
  · exact fun _ _ => trivial

theorem resumeSubmission_nonce (config : ProcessConfig) (round : Nat)
    (submission : IncompleteSubmission) (solution : PagedRawSolution T) :
    nonceMonitor.Permits (resumeSubmission config round submission solution) := by
  refine ((missingSolutions_issues _ _).unsigned (by simp)).bind fun pages => ?_
  have strategy : nonceMonitor.Permits (do
      let _ ← innerSubmitPages pages config.chunkSize round config.minSignedPhaseBlocks
      pure ()) := (innerSubmitPages_nonce pages _ round _).bind fun _ _ _ => trivial
  refine (withTimeout_permitted strategy).bind fun _ => ?_
  exact ask_nonce (by simp [Op.kind, nonceFreeKinds])

theorem handleExisting_nonce (config : ProcessConfig) (round : Nat)
    (solution : PagedRawSolution T) (existing : CurrentSubmission) :
    nonceMonitor.Permits (handleExisting config round solution existing) := by
  cases existing with
  | done score =>
      simp only [handleExisting]
      split
      · exact bailIfSigned_nonce
      · exact fun _ _ => trivial
  | incomplete submission =>
      simp only [handleExisting]
      split
      · exact (resumeSubmission_nonce config round submission solution).bind fun _ _ _ => trivial
      · exact bailIfSigned_nonce
  | notStarted => exact fun _ _ => trivial

theorem competeAndSubmit_nonce (config : ProcessConfig) (round : Nat)
    (solution : PagedRawSolution T) (storageHead : AtBlock) :
    nonceMonitor.Permits (competeAndSubmit config round solution storageHead) := by
  have compared := (checkCompetitive_issues (T := T) config storageHead round
    solution.score).unsigned (by simp [nonceFreeKinds])
  refine compared.lift.bind fun isCompetitive => ?_
  split
  · refine Monitor.Permits.bind (ask_nonce (by simp [Op.kind, nonceFreeKinds])) fun _ => ?_
    exact (withTimeout_permitted (submit_nonce solution _ round _)).lift
  · refine Monitor.Permits.bind (fun _ _ => trivial) fun state => ?_
    split
    · refine Monitor.Permits.bind (fun _ _ => trivial) fun _ => ?_
      exact ask_nonce (by simp [Op.kind, nonceFreeKinds])
    · exact fun _ _ => trivial

theorem submitSolution_nonce (config : ProcessConfig) (details : BlockDetails)
    (solution : PagedRawSolution T) :
    nonceMonitor.Permits (submitSolution config details solution) := by
  have read := (fetchMinimumScore_issues (T := T) details.atBlock).unsigned
    (by simp [nonceFreeKinds])
  have found := (existingSubmission_issues (T := T) details).unsigned (by simp [nonceFreeKinds])
  refine read.lift.bind fun minimum => ?_
  split
  · exact fun _ _ => trivial
  · exact fun _ _ => trivial
  · refine found.lift.bind fun existing => ?_
    refine (handleExisting_nonce config details.round solution existing.2).lift.bind fun flow => ?_
    cases flow with
    | finished => exact fun _ _ => trivial
    | proceed => exact competeAndSubmit_nonce config details.round solution existing.1

theorem mineAndSubmit_nonce (config : ProcessConfig) (details : BlockDetails) :
    nonceMonitor.Permits (mineAndSubmit config details : Miner T (MinerState T) Unit) := by
  have mined : nonceMonitor.Permits
      (refreshCache details config.doReduce : Miner T (MinerState T) Unit) := by
    refine permits_of_kinds (fun state => wp_mono (refreshCache_issues details config.doReduce
      state) fun _ _ _ _ => trivial) fun _ op member => (nonceMonitor_free op ?_).1
    have mining : miningKinds ⊆ nonceFreeKinds := by simp [miningKinds, nonceFreeKinds]
    exact mining member
  refine mined.bind fun _ => ?_
  refine Monitor.Permits.bind (fun _ _ => trivial) fun state => ?_
  split
  · exact fun _ _ => trivial
  · split
    · refine Monitor.Permits.lift ?_
      unfold executeShadyBehavior
      split
      · refine registered_nonce _ _ _ 9 fun events => ?_
        split
        · exact fun _ _ => trivial
        · exact fun _ _ => trivial
      · exact fun _ _ => trivial
    · exact submitSolution_nonce config details _

theorem processBlock_nonce (config : ProcessConfig) (details : BlockDetails) :
    nonceMonitor.Permits (processBlock config details : Miner T (MinerState T) Unit) := by
  intro state usable
  have reads : readKinds ⊆ nonceFreeKinds := by simp [readKinds, nonceFreeKinds]
  exact wp_processBlock config details state (fun op member => nonceMonitor_free op (reads member))
    (fun _ _ => trivial) fun _ _ _ => mineAndSubmit_nonce config details state usable

theorem minerTurn_nonce (config : ProcessConfig) :
    nonceMonitor.Permits (minerTurn config : Miner T (MinerState T) Unit) := by
  refine Monitor.Permits.bind (ask_nonce (by simp [Op.kind, nonceFreeKinds])) fun message => ?_
  rcases message with _ | message
  · exact fun _ _ => trivial
  · cases message with
    | clearSnapshots => exact fun _ _ => trivial
    | processBlock details =>
        refine (processBlock_nonce config details).attempt.bind fun result => ?_
        cases result with
        | ok _ => exact fun _ _ => trivial
        | error error =>
            change nonceMonitor.Permits (if _ then _ else _)
            split
            · exact fun _ _ => trivial
            · exact fun _ _ => trivial

theorem cleanRounds_nonce (atBlock : AtBlock) (rounds : List Nat) (cleaned : Nat) :
    nonceMonitor.Permits (cleanRounds atBlock rounds cleaned : Task T Nat) := by
  induction rounds generalizing cleaned with
  | nil => exact fun _ _ => trivial
  | cons oldRound rest ih =>
      refine Monitor.Permits.bind (ask_nonce (by simp [Op.kind, nonceFreeKinds])) fun found => ?_
      refine (rpc_permitted found).bind fun submission => ?_
      cases submission with
      | none => exact ih cleaned
      | some submission =>
          change nonceMonitor.Permits (if _ then _ else _)
          split
          · exact ih cleaned
          · have cleared : nonceMonitor.Permits (clearOldRoundData oldRound
                (submission.pages.count true) : Task T Unit) :=
              (submitAndFinalize_nonce _).bind fun _ _ _ => trivial
            refine cleared.attempt.bind fun result => ?_
            cases result with
            | ok _ => exact ih _
            | error error => exact ih _

theorem clearOldRoundsTurn_nonce :
    nonceMonitor.Permits (clearOldRoundsTurn : Miner T (Option Nat) Unit) := by
  refine Monitor.Permits.bind (ask_nonce (by simp [Op.kind, nonceFreeKinds])) fun message => ?_
  cases message with
  | none => exact fun _ _ => trivial
  | some currentRound =>
      refine Monitor.Permits.bind (Monitor.Permits.attempt ?_) fun result => ?_
      · refine Monitor.Permits.bind (ask_nonce (by simp [Op.kind, nonceFreeKinds])) fun head => ?_
        refine (rpc_permitted head).bind fun atBlock => ?_
        refine Monitor.Permits.bind (fun _ _ => trivial) fun last => ?_
        change nonceMonitor.Permits (if _ then _ else _)
        split
        · exact fun _ _ => trivial
        · refine (cleanRounds_nonce atBlock _ 0).lift.bind fun cleaned => ?_
          exact Monitor.Permits.bind (fun _ _ => trivial) fun _ _ _ => trivial
      · cases result with
        | ok _ => exact fun _ _ => trivial
        | error error =>
            change nonceMonitor.Permits (if _ then _ else _)
            split
            · exact fun _ _ => trivial
            · exact fun _ _ => trivial

theorem pruneOldestEra_nonce (oldestEra : Nat) :
    nonceMonitor.Permits (pruneOldestEra oldestEra : Task T Unit) := by
  have called : nonceMonitor.Permits (callPruneEraStep oldestEra : Task T Unit) :=
    (submitAndFinalize_nonce _).bind fun _ => ask_nonce (by simp [Op.kind, nonceFreeKinds])
  refine Monitor.Permits.bind (ask_nonce (by simp [Op.kind, nonceFreeKinds])) fun _ => ?_
  refine called.attempt.bind fun result => ?_
  refine Monitor.Permits.bind (ask_nonce (by simp [Op.kind, nonceFreeKinds])) fun _ => ?_
  cases result with
  | ok _ => exact fun _ _ => trivial
  | error error => exact ask_nonce (by simp [Op.kind, nonceFreeKinds])

theorem getPruneableEraIndex_nonce :
    nonceMonitor.Permits (getPruneableEraIndex : Task T (Nat × Option Nat)) := by
  refine Monitor.Permits.bind (ask_nonce (by simp [Op.kind, nonceFreeKinds])) fun head => ?_
  refine (rpc_permitted head).bind fun atBlock => ?_
  refine Monitor.Permits.bind (ask_nonce (by simp [Op.kind, nonceFreeKinds])) fun found => ?_
  cases found with
  | error error => exact fun _ _ => trivial
  | ok entries => exact (rpc_permitted entries).bind fun _ _ _ => trivial

theorem lazyEraPruningTurn_nonce :
    nonceMonitor.Permits (lazyEraPruningTurn : Miner T Bool Unit) := by
  refine Monitor.Permits.bind (ask_nonce (by simp [Op.kind, nonceFreeKinds])) fun message => ?_
  rcases message with _ | message
  · exact fun _ _ => trivial
  · cases message with
    | enterOffPhase => exact fun _ _ => trivial
    | exitOffPhase => exact fun _ _ => trivial
    | newBlock blockNumber =>
        refine Monitor.Permits.bind (fun _ _ => trivial) fun active => ?_
        split
        · refine Monitor.Permits.lift
            (Monitor.Permits.bind (getPruneableEraIndex_nonce.timeout _) fun result => ?_)
          split
          · exact pruneOldestEra_nonce _
          · exact fun _ _ => trivial
        · exact fun _ _ => trivial

theorem listenerTurn_nonce : nonceMonitor.Permits (listenerTurn : Miner T ListenerState Unit) := by
  refine listenerTurn_permitted ?_ fun header => ?_
  · intro usable op follows
    refine (nonceMonitor_free op ?_).1
    cases op <;> simp [Op.followsChain] at follows <;> simp [Op.kind, nonceFreeKinds]
  · refine Monitor.Permits.bind ((getBlockState_issues header.hash).unsigned
      (by simp [nonceFreeKinds])).lift ?_
    rintro ⟨phase, currentRound⟩
    refine Monitor.Permits.bind (fun _ _ => trivial) fun lastRound => ?_
    refine Monitor.Permits.bind ((checkRoundIncrement_issues lastRound currentRound phase).unsigned
      (by simp [nonceFreeKinds])).lift fun _ => ?_
    refine Monitor.Permits.bind (fun _ _ => trivial) fun lastPhase => ?_
    refine Monitor.Permits.bind (ask_nonce (by simp [Op.kind, nonceFreeKinds])) fun _ => ?_
    have mining (phase : Phase) := ((onMiningPhase_issues (T := T) lastPhase header phase
      currentRound).unsigned (by simp [nonceFreeKinds]))
    cases phase with
    | off => exact ((onOffPhase_issues lastPhase header).unsigned (by simp [nonceFreeKinds])).lift
    | signed blocks => exact (mining _).lift
    | snapshot page => exact (mining _).lift
    | _ => exact fun _ _ => trivial

end LeanStakingMiner
