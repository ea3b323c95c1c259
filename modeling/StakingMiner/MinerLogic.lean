import StakingMiner.MinerCore
import StakingMiner.SubmitLogic

/-!
Rules for the steps of `process_block`: steps under a timeout, and the choice of the
pages that an incomplete submission still needs.
-/

namespace LeanStakingMiner

open LeanProgram

variable {T : MinerConfig} {α γ : Type} {M : Monitor (Op T) Resp γ} {ghost : γ}

theorem wp_withTimeout {error : TimeoutError} {task : Task T α}
    {post : Outcome Error α → Unit → γ → Prop} (finishes : wp M task post () ghost)
    (dropped : ∀ passed, post (.err (.timeout error)) () (M.after ghost passed)) :
    wp M (withTimeout error task) post () ghost := by
  unfold withTimeout tokioTimeout
  rw [wp_bind]
  refine wp_timeout (wp_mono finishes ?_) dropped
  rintro (value | failure | _) _ after holds
  · exact holds
  · exact holds
  · exact holds

theorem Issues.timed {kinds : List OpKind} {task : Task T α} {post : Outcome Error α → Prop}
    (issues : Issues kinds task post) (error : TimeoutError) :
    Issues kinds (withTimeout error task)
      (fun outcome => post outcome ∨ outcome = .err (.timeout error)) :=
  wp_withTimeout (wp_mono issues fun _ _ _ holds => Or.inl holds) fun _ => Or.inr rfl

theorem missingSolutions_inside (solutionPages : List T.Solution) (pages : List Nat)
    (inside : ∀ page ∈ pages, page < solutionPages.length) :
    ∃ solutions, missingSolutions solutionPages pages = pure solutions ∧
      solutions.map Prod.fst = pages := by
  induction pages with
  | nil => exact ⟨[], rfl, rfl⟩
  | cons page rest ih =>
      obtain ⟨solutions, taken, named⟩ := ih fun other member => inside other (by simp [member])
      have bound : page < solutionPages.length := inside page (by simp)
      refine ⟨(page, solutionPages[page]) :: solutions, ?_, by simp [named]⟩
      simp only [missingSolutions, List.getElem?_eq_getElem bound, taken]
      rfl

theorem missingSolutions_outside (solutionPages : List T.Solution) (pages : List Nat)
    (outside : ∃ page ∈ pages, solutionPages.length ≤ page) :
    missingSolutions solutionPages pages = Program.panic := by
  induction pages with
  | nil => simp at outside
  | cons page rest ih =>
      by_cases bound : page < solutionPages.length
      · have later : ∃ page ∈ rest, solutionPages.length ≤ page := by
          obtain ⟨other, member, beyond⟩ := outside
          rcases List.mem_cons.mp member with same | found
          · omega
          · exact ⟨other, found, beyond⟩
        simp only [missingSolutions, List.getElem?_eq_getElem bound, ih later]
        rfl
      · simp only [missingSolutions, List.getElem?_eq_none (Nat.le_of_not_lt bound)]

theorem run_withTimeout {α : Type} (env : MinerEnv T) (quiet : env.Quiet)
    (error : TimeoutError) (task : Task T α) (history : MinerTrace T) :
    run env (withTimeout error task) () history = run env task () history := by
  unfold withTimeout tokioTimeout
  rw [run_bind, run_timeout env quiet]
  rcases run env task () history with ⟨_ | _ | _, _, trace⟩ <;>
    simp [Result.andThen, Outcome.inTime, Program.ofExcept, run]

theorem fetchBalance_issues (storage : AtBlock) :
    Issues [.other] (fetchBalance storage : Task T Flow) fun _ => True := by
  have read : Issues [.other] (tokioTimeout (do rpc (← ask (.account storage))) :
      Task T (Option (Except Error (Option Nat)))) fun _ => True := by
    refine wp_timeout ?_ fun _ => trivial
    simp [Op.kind, inTime]
  refine read.andThen fun result => ?_
  split
  · simp [Issues]
  · simp [Issues]
  · simp [Issues]
  · simp [Issues]

def submissionKinds : List OpKind :=
  [.head, .phase, .submission, .other, .nonce, .register, .bail, .page, .events]

theorem Issues.submission {kinds : List OpKind} {task : Task T α}
    {post : Outcome Error α → Prop} (issues : Issues kinds task post)
    (subset : kinds ⊆ submissionKinds) : Issues submissionKinds task fun _ => True :=
  issues.mono subset fun _ _ => trivial

theorem submitAllPages_issues (solutionPages : List T.Solution)
    (chunkSize round minBlocks : Nat) :
    Issues [.head, .phase, .submission, .other, .nonce, .bail, .page, .events]
      (submitAllPages solutionPages chunkSize round minBlocks) fun _ => True := by
  unfold submitAllPages
  refine wp_seq (firstAttempt_reported solutionPages chunkSize round minBlocks) ?_ (by simp)
    (by simp)
  rintro failed _ _ reported
  obtain ⟨_, inside⟩ := reported failed rfl
  split
  · exact (ask_issues _).mono (by simp [Op.kind]) fun _ _ => trivial
  · refine ((revalidate_issues round minBlocks).mono (by simp) fun _ holds => holds).andThen
      fun _ => ?_
    refine ((takePages_issues failed solutionPages inside).mono (by simp)
      fun _ holds => holds).andThen fun solutions => ?_
    refine (innerSubmitPages_issues solutions chunkSize round minBlocks).andThen
      fun remaining => ?_
    split
    · exact (ask_issues _).mono (by simp [Op.kind]) fun _ _ => trivial
    · refine ((revalidate_issues round minBlocks).mono (by simp) fun _ holds => holds).andThen
        fun _ => ?_
      simp [Issues]

theorem submit_issues (solution : PagedRawSolution T) (chunkSize round minBlocks : Nat) :
    Issues submissionKinds (submit solution chunkSize round minBlocks) fun _ => True := by
  unfold submit
  refine ((readPhase_issues .validation).submission (by simp [submissionKinds])).andThen
    fun phase => ?_
  refine ((validateSignedPhaseOrBail_issues phase round minBlocks).submission
    (by simp [submissionKinds])).andThen fun _ => ?_
  cases phase with
  | signed blocks =>
      refine ((registerAndConfirm_issues solution.score blocks).submission
        (by simp [submissionKinds])).andThen fun _ => ?_
      refine ((revalidate_issues round minBlocks).submission (by simp [submissionKinds])).andThen
        fun _ => ?_
      exact (submitAllPages_issues solution.solutionPages chunkSize round minBlocks).submission
        (by simp [submissionKinds])
  | _ => simp [Issues, getSignedPhaseBlocksRemaining]

theorem withTimeout_permitted {γ : Type} {M : Monitor (Op T) Resp γ} {error : TimeoutError}
    {task : Task T α} (permits : M.Permits task) : M.Permits (withTimeout error task) := by
  refine Monitor.Permits.bind (permits.timeout Op.suspends) fun result => ?_
  rcases result with _ | _ | _
  · exact fun _ _ => trivial
  · exact fun _ _ => trivial
  · exact fun _ _ => trivial

theorem bailIfSigned_issues : Issues submissionKinds (bailIfSigned : Task T Flow) fun _ => True := by
  unfold bailIfSigned
  have asked : Issues [.head, .phase] (signedPhase : Task T Bool) (· ≠ .panic) :=
    (readPhase_issues .validation).bind (fun phase _ => by simp [Issues]) (by simp) (by simp)
  refine ((asked.timed _).submission (by simp [submissionKinds])).andThen fun stillSigned => ?_
  split
  · refine ((bail_issues.timed _).submission (by simp [submissionKinds])).andThen fun _ => ?_
    simp [Issues]
  · simp [Issues]

theorem missingSolutions_issues (solutionPages : List T.Solution) (pages : List Nat) :
    Issues [] (missingSolutions solutionPages pages) fun _ => True := by
  by_cases inside : ∀ page ∈ pages, page < solutionPages.length
  · obtain ⟨solutions, taken, _⟩ := missingSolutions_inside solutionPages pages inside
    simp [Issues, taken]
  · simp only [not_forall, Nat.not_lt] at inside
    obtain ⟨page, member, beyond⟩ := inside
    simp [Issues, missingSolutions_outside solutionPages pages ⟨page, member, beyond⟩]

theorem resumeSubmission_issues (config : ProcessConfig) (round : Nat)
    (submission : IncompleteSubmission) (solution : PagedRawSolution T) :
    Issues submissionKinds (resumeSubmission config round submission solution) fun _ => True := by
  unfold resumeSubmission
  refine ((missingSolutions_issues _ _).submission (by simp)).andThen fun pages => ?_
  have strategy : Issues submissionKinds (do
      let _ ← innerSubmitPages pages config.chunkSize round config.minSignedPhaseBlocks
      pure ()) fun _ => True :=
    ((innerSubmitPages_issues pages _ round _).submission
      (by simp [submissionKinds])).andThen fun _ => by simp [Issues]
  refine (strategy.timed _).andThen fun _ => ?_
  exact (ask_issues _).submission (by simp [Op.kind, submissionKinds])

theorem handleExisting_issues (config : ProcessConfig) (round : Nat)
    (solution : PagedRawSolution T) (existing : CurrentSubmission) :
    Issues submissionKinds (handleExisting config round solution existing) fun _ => True := by
  cases existing with
  | done score =>
      simp only [handleExisting]
      split
      · exact bailIfSigned_issues
      · simp [Issues]
  | incomplete submission =>
      simp only [handleExisting]
      split
      · refine (resumeSubmission_issues config round submission solution).andThen fun _ => ?_
        simp [Issues]
      · exact bailIfSigned_issues
  | notStarted => simp [Issues, handleExisting]

theorem validateSolution_issues (solution : PagedRawSolution T) (round desiredTargets : Nat) :
    Issues [.other] (validateSolution solution round desiredTargets) (fun outcome =>
      outcome ≠ .panic ∧
        ∀ accepted, outcome = .ok accepted → accepted = solution ∧ solution.round = round) := by
  unfold validateSolution
  split
  · exact ⟨nofun, fun _ => nofun⟩
  · rename_i sameRound
    refine (ask_issues .pages).bind ?_ (fun _ _ => ⟨nofun, fun _ => nofun⟩)
      fun calm => absurd rfl calm
    intro maxPages _
    split
    · exact ⟨nofun, fun _ => nofun⟩
    · split
      · exact ⟨nofun, fun _ => nofun⟩
      · refine ⟨nofun, ?_⟩
        rintro _ ⟨⟩
        exact ⟨rfl, (not_not.mp sameRound).symm⟩

theorem alreadySubmitted_issues (details : BlockDetails) :
    Issues [.head, .submission] (alreadySubmitted details : Task T Bool) fun _ => True := by
  have read : Issues [.head, .submission] (do
      let storage ← rpc (← ask .storageAtHead)
      hasSubmitted storage details.round details.nPages : Task T Bool) fun _ => True := by
    simp [Issues, hasSubmitted, getSubmission, Op.kind]
  exact (read.timed _).mono (by simp) fun _ _ => trivial

theorem fetchMinimumScore_issues (storage : AtBlock) :
    Issues [.other] (fetchMinimumScore storage : Task T _) fun _ => True := by
  simp [Issues, fetchMinimumScore, Op.kind]

theorem existingSubmission_issues (details : BlockDetails) :
    Issues [.head, .submission] (existingSubmission details : Task T _) fun _ => True := by
  have read : Issues [.head, .submission] (do
      let storageHead ← rpc (← ask .storageAtHead)
      let submission ← getSubmission storageHead details.round details.nPages
      pure (storageHead, submission) : Task T _) fun _ => True := by
    simp [Issues, getSubmission, Op.kind]
  exact (read.timed _).mono (by simp) fun _ _ => trivial

theorem checkCompetitive_issues (config : ProcessConfig) (storage : AtBlock) (round : Nat)
    (score : ElectionScore) :
    Issues [.other] (checkCompetitive config storage round score : Task T Bool)
      fun _ => True := by
  unfold checkCompetitive
  split
  · simp [Issues]
  · have read : Issues [.other] (scoreBetter storage score round config.submissionStrategy :
        Task T Bool) fun _ => True := by
      simp [Issues, scoreBetter, Op.kind]
    exact (read.timed _).mono (by simp) fun _ _ => trivial

theorem executeShadyBehavior_issues (phase : Phase) :
    Issues [.nonce, .other, .register, .events] (executeShadyBehavior phase : Task T Unit)
      fun _ => True := by
  unfold executeShadyBehavior
  split
  · refine ((registerLoop_issues _ _ _ 9).mono (by simp) fun _ holds => holds).andThen
      fun tx => ?_
    simp [Issues, Op.kind]
    intro events
    split
    · trivial
    · trivial
  · simp [Issues]

theorem submitSolution_issues (config : ProcessConfig) (details : BlockDetails)
    (solution : PagedRawSolution T) (state : MinerState T) :
    wp (kindMonitor (.submitCall :: submissionKinds)) (submitSolution config details solution)
      (fun _ store _ => store.snapshot = state.snapshot ∧
        store.cachedSolution = state.cachedSolution) state () := by
  have step {β : Type} {kinds : List OpKind} {task : Task T β} {post : Outcome Error β → Prop}
      (issues : Issues kinds task post) (subset : kinds ⊆ .submitCall :: submissionKinds)
      {rest : β → Miner T (MinerState T) Unit}
      (second : ∀ value, wp (kindMonitor (.submitCall :: submissionKinds)) (rest value)
        (fun _ store _ => store.snapshot = state.snapshot ∧
          store.cachedSolution = state.cachedSolution) state ()) :
      wp (kindMonitor (.submitCall :: submissionKinds)) (task.lift >>= rest)
        (fun _ store _ => store.snapshot = state.snapshot ∧
          store.cachedSolution = state.cachedSolution) state () := by
    rw [wp_bind, wp_lift]
    refine wp_mono (issues.mono subset fun _ _ => trivial) ?_
    rintro (value | error | _) _ _ _
    · exact second value
    · simp
    · simp
  refine step (fetchMinimumScore_issues details.atBlock) (by simp [submissionKinds])
    fun floor => ?_
  split
  · simp
  · simp
  · refine step (existingSubmission_issues details) (by simp [submissionKinds]) fun existing => ?_
    refine step (handleExisting_issues config details.round solution existing.2) (by simp)
      fun flow => ?_
    cases flow with
    | finished => simp
    | proceed =>
        refine step (checkCompetitive_issues config existing.1 details.round solution.score)
          (by simp [submissionKinds]) fun competitive => ?_
        split
        · rw [wp_bind, wp_ask]
          refine ⟨by simp [Op.kind], fun _ _ => ?_⟩
          rw [followedBy_ok, wp_lift]
          refine wp_mono (((submit_issues solution config.chunkSize details.round
            config.minSignedPhaseBlocks).timed _).mono (by simp) fun _ _ => trivial) ?_
          simp
        · rw [skipNotCompetitive, wp_bind, wp_load, followedBy_ok]
          split
          · simp [Op.kind, submissionKinds]
          · simp

theorem run_resumeSubmission (env : MinerEnv T) (quiet : env.Quiet)
    (config : ProcessConfig) (round : Nat) (submission : IncompleteSubmission)
    (solution : PagedRawSolution T) {solutions : List (Nat × T.Solution)}
    (taken : missingSolutions solution.solutionPages submission.getMissingPages = pure solutions) :
    run env (resumeSubmission config round submission solution) () [] = run env (do
      let _ ← innerSubmitPages solutions config.chunkSize round config.minSignedPhaseBlocks
      ask (.metric .submissionSuccess)) () [] := by
  unfold resumeSubmission
  rw [taken, return_bind, run_bind, run_withTimeout env quiet, ← run_bind, Program.bind_assoc]
  rfl

/-- A cached solution has a block of the run behind it: where one call keeps the cache or
leaves evidence for what it caches, the evidence for the cached solution is found in the run. -/
theorem MinerRun.cachedBy {config : ProcessConfig} {env : MinerEnv T} {pages : Nat}
    {state : MinerState T} {history : MinerTrace T} {blocks : List (ProcessedBlock T)}
    (evidence : BlockDetails → MinerTrace T → PagedRawSolution T → Prop)
    (reached : MinerRun config env pages state history blocks)
    (step : ∀ state history blocks details, MinerRun config env pages state history blocks →
      let block := handleBlock config env details state history
      ∀ solution, block.result.store.cachedSolution = some solution →
        state.cachedSolution = some solution ∨ evidence details block.result.trace solution) :
    ∀ solution, state.cachedSolution = some solution →
      ∃ block ∈ blocks, evidence block.details block.result.trace solution := by
  induction reached with
  | start => exact fun _ => nofun
  | cleared _ _ => exact fun _ => nofun
  | processed details earlier _ ih =>
      intro solution cached
      rcases step _ _ _ details earlier solution cached with kept | now
      · obtain ⟨block, member, found⟩ := ih solution kept
        exact ⟨block, List.mem_append_left _ member, found⟩
      · exact ⟨_, List.mem_append_right _ (List.mem_singleton_self _), now⟩

end LeanStakingMiner
