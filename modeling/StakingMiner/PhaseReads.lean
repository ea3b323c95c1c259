import StakingMiner.MinerLogic

/-!
What the submission code makes of the phases it reads. The monitor collects every
phase read of a run together with the code that made it.
-/

namespace LeanStakingMiner

open LeanProgram

variable {T : MinerConfig} {α β : Type}

def phaseReadIn : (op : Op T) → Resp op → List (PhaseReader × Phase)
  | .currentPhase reader _, .ok phase => [(reader, phase.getD .off)]
  | _, _ => []

def phaseReads : MinerTrace T → List (PhaseReader × Phase)
  | [] => []
  | ⟨op, answer⟩ :: rest => phaseReadIn op answer ++ phaseReads rest

def phaseMonitor : Monitor (Op T) Resp (List (PhaseReader × Phase)) where
  expects _ _ _ := True
  allows _ _ := True
  next reads op answer := reads ++ phaseReadIn op answer

def AllSigned (reads : List (PhaseReader × Phase)) : Prop :=
  ∀ read ∈ reads, read.2.isSigned = true

/-- The reads of the page loop, which nothing validates, all show the signed phase. -/
def PageLoopSigned (reads : List (PhaseReader × Phase)) : Prop :=
  ∀ read ∈ reads, read.1 = .mortality → read.2.isSigned = true

theorem AllSigned.pageLoop {reads : List (PhaseReader × Phase)} (signed : AllSigned reads) :
    PageLoopSigned reads := fun read member _ => signed read member

def PhaseChecked (reads : List (PhaseReader × Phase)) : Outcome Error α → Prop
  | .ok _ => AllSigned reads
  | .err _ => PageLoopSigned reads
  | .panic => ¬PageLoopSigned reads

variable {reads : List (PhaseReader × Phase)}

@[simp] theorem phaseMonitor_allows (op : Op T) : phaseMonitor.allows reads op ↔ True := Iff.rfl

@[simp] theorem phaseMonitor_expects (op : Op T) (answer : Resp op) :
    phaseMonitor.expects reads op answer ↔ True := Iff.rfl

@[simp] theorem phaseMonitor_next (op : Op T) (answer : Resp op) :
    phaseMonitor.next reads op answer = reads ++ phaseReadIn op answer := rfl

theorem phaseMonitor_expected (reads : List (PhaseReader × Phase)) (trace : MinerTrace T) :
    phaseMonitor.Expected reads trace := by
  induction trace generalizing reads with
  | nil => trivial
  | cons event rest ih => exact ⟨trivial, ih _⟩

theorem phaseMonitor_after (reads : List (PhaseReader × Phase)) (trace : MinerTrace T) :
    phaseMonitor.after reads trace = reads ++ phaseReads trace := by
  induction trace generalizing reads with
  | nil => simp [phaseReads]
  | cons event rest ih =>
      rw [Monitor.after_cons, ih]
      exact List.append_assoc _ _ _

theorem phaseMonitor_quiet {kinds : List OpKind} (quiet : .phase ∉ kinds) (op : Op T)
    (member : op.kind ∈ kinds) : phaseMonitor.Ignores reads op := by
  refine ⟨trivial, fun answer => ?_⟩
  cases op <;> first | exact absurd member quiet | exact List.append_nil reads

theorem Issues.checked {kinds : List OpKind} {task : Task T α} {rest : α → Task T β}
    {middle : Outcome Error α → Prop} (issues : Issues kinds task middle)
    (quiet : .phase ∉ kinds) (calm : ¬middle .panic) (signed : AllSigned reads)
    (second : ∀ value, middle (.ok value) →
      wp phaseMonitor (rest value) (fun outcome _ after => PhaseChecked after outcome) () reads) :
    wp phaseMonitor (task >>= rest) (fun outcome _ after => PhaseChecked after outcome)
      () reads := by
  refine issues.seq (phaseMonitor_quiet quiet) second ?_ ?_
  · intro error _
    exact signed.pageLoop
  · intro panicked
    exact absurd panicked calm

theorem checked_bind {task : Task T α} {rest : α → Task T β}
    (first : wp phaseMonitor task (fun outcome _ after => PhaseChecked after outcome) () reads)
    (second : ∀ value after, AllSigned after →
      wp phaseMonitor (rest value) (fun outcome _ after => PhaseChecked after outcome) () after) :
    wp phaseMonitor (task >>= rest) (fun outcome _ after => PhaseChecked after outcome)
      () reads :=
  wp_seq first (fun value _ after signed => second value after signed)
    (fun _ _ _ holds => holds) (fun _ _ holds => holds)

theorem readPhase_reads (reader : PhaseReader) (signed : AllSigned reads)
    {rest : Phase → Task T β}
    (second : ∀ phase, wp phaseMonitor (rest phase)
      (fun outcome _ after => PhaseChecked after outcome) () (reads ++ [(reader, phase)])) :
    wp phaseMonitor (readPhase reader >>= rest)
      (fun outcome _ after => PhaseChecked after outcome) () reads := by
  simp [readPhase, phaseReadIn, PhaseChecked, signed.pageLoop]
  intro phase
  exact second (phase.getD .off)

theorem AllSigned.append {reads : List (PhaseReader × Phase)} (signed : AllSigned reads)
    (reader : PhaseReader) (blocks : Nat) : AllSigned (reads ++ [(reader, Phase.signed blocks)]) := by
  intro read member
  rcases List.mem_append.mp member with earlier | last
  · exact signed read earlier
  · rw [List.mem_singleton.mp last]
    rfl

theorem AllSigned.validation {reads : List (PhaseReader × Phase)} (signed : AllSigned reads)
    (phase : Phase) : PageLoopSigned (reads ++ [(PhaseReader.validation, phase)]) := by
  intro read member loop
  rcases List.mem_append.mp member with earlier | last
  · exact signed read earlier
  · rw [List.mem_singleton.mp last] at loop
    contradiction

theorem validated_reads (round minBlocks : Nat) (signed : AllSigned reads)
    {rest : Phase → Task T β}
    (second : ∀ blocks after, AllSigned after → wp phaseMonitor (rest (.signed blocks))
      (fun outcome _ after => PhaseChecked after outcome) () after) :
    wp phaseMonitor (do
        let phase ← readPhase .validation
        validateSignedPhaseOrBail phase round minBlocks
        rest phase)
      (fun outcome _ after => PhaseChecked after outcome) () reads := by
  refine readPhase_reads .validation signed fun phase => ?_
  refine (validateSignedPhaseOrBail_issues phase round minBlocks).seq
    (phaseMonitor_quiet (by simp)) ?_ ?_ ?_
  · rintro _ ⟨_, validated⟩
    obtain ⟨blocks, rfl, _⟩ := validated rfl
    exact second blocks _ (signed.append _ blocks)
  · intro _ _
    exact signed.validation phase
  · rintro ⟨calm, _⟩
    exact absurd rfl calm

theorem revalidate_reads (round minBlocks : Nat) (signed : AllSigned reads) :
    wp phaseMonitor (revalidate round minBlocks : Task T Unit)
      (fun outcome _ after => PhaseChecked after outcome) () reads := by
  refine readPhase_reads .validation signed fun phase => ?_
  refine (validateSignedPhaseOrBail_issues phase round minBlocks).keeps
    (phaseMonitor_quiet (by simp)) ?_
  rintro (_ | error | _) ⟨calm, validated⟩
  · obtain ⟨blocks, rfl, _⟩ := validated rfl
    exact signed.append _ blocks
  · exact signed.validation phase
  · exact absurd rfl calm

theorem pageLoop_left (reads : List (PhaseReader × Phase)) (phase : Phase)
    (other : phase.isSigned = false) : ¬PageLoopSigned (reads ++ [(.mortality, phase)]) := by
  intro loop
  have shown := loop (.mortality, phase) (by simp) rfl
  simp [other] at shown

theorem submitPageTxs_reads (pages : List (Nat × T.Solution)) (nonce : Nat)
    (signed : AllSigned reads) :
    wp phaseMonitor (submitPageTxs pages nonce)
      (fun outcome _ after => PhaseChecked after outcome) () reads := by
  induction pages generalizing nonce reads with
  | nil => exact signed
  | cons entry rest ih =>
      obtain ⟨page, solution⟩ := entry
      refine readPhase_reads .mortality signed fun phase => ?_
      cases phase with
      | signed blocks =>
          have more := signed.append .mortality blocks
          refine (submitInner_issues _ nonce blocks).checked (by simp [Transaction.kind]) (by simp)
            more ?_
          intro tx _
          exact checked_bind (ih (nonce + 1) more) fun txs after kept => kept
      | _ => exact pageLoop_left reads _ rfl

theorem submitPagesBatch_reads (pages : List (Nat × T.Solution)) (round minBlocks : Nat)
    (signed : AllSigned reads) :
    wp phaseMonitor (submitPagesBatch pages round minBlocks)
      (fun outcome _ after => PhaseChecked after outcome) () reads := by
  refine validated_reads round minBlocks signed fun blocks after kept => ?_
  simp only [wp_bind, wp_ask, forall_read, phaseMonitor_next, phaseReadIn, List.append_nil,
    wp_rpc_error, wp_rpc_ok, followedBy_ok, followedBy_err, phaseMonitor_allows, true_and]
  refine ⟨fun _ _ => kept.pageLoop, fun nonce _ => ?_⟩
  refine wp_mono (submitPageTxs_reads pages nonce kept) ?_
  rintro (txs | error | _) _ after checked
  · simp only [followedBy_ok]
    refine (awaitPageTxs_issues txs.length txs ∅ ∅).checked (by simp) (by simp) checked ?_
    rintro ⟨failed, submitted⟩ _
    simp only [wp_bind, wp_ask, followedBy_ok, wp_return, phaseMonitor_next, phaseReadIn,
      List.append_nil]
    exact ⟨trivial, fun _ _ => checked⟩
  · exact checked
  · exact checked

theorem submitChunks_reads (totalPages round minBlocks : Nat)
    (remaining : List (List (Nat × T.Solution))) (submitted : Finset Nat)
    (signed : AllSigned reads) :
    wp phaseMonitor (submitChunks totalPages round minBlocks remaining submitted)
      (fun outcome _ after => PhaseChecked after outcome) () reads := by
  induction remaining generalizing submitted reads with
  | nil => exact signed
  | cons chunk rest ih =>
      refine validated_reads round minBlocks signed fun blocks after kept => ?_
      refine checked_bind (submitPagesBatch_reads chunk round minBlocks kept) ?_
      intro result final stillSigned
      split
      · change wp phaseMonitor (if _ then _ else _) _ () final
        split
        · exact stillSigned
        · exact ih _ stillSigned
      · exact stillSigned

theorem innerSubmitPages_reads (pages : List (Nat × T.Solution)) (chunkSize round minBlocks : Nat)
    (signed : AllSigned reads) :
    wp phaseMonitor (innerSubmitPages pages chunkSize round minBlocks)
      (fun outcome _ after => PhaseChecked after outcome) () reads := by
  unfold innerSubmitPages
  split
  · refine checked_bind (submitPagesBatch_reads pages round minBlocks signed) ?_
    intro result after kept
    split
    · exact kept
    · exact kept
  · rename_i positive
    simp only [innerSubmitPagesChunked, positive, ↓reduceIte]
    exact submitChunks_reads _ round minBlocks _ ∅ signed

theorem retryFailedPages_reads (solutionPages : List T.Solution) (failed : List Nat)
    (chunkSize round minBlocks : Nat) (inside : ∀ page ∈ failed, page < solutionPages.length)
    (signed : AllSigned reads) :
    wp phaseMonitor (retryFailedPages solutionPages failed chunkSize round minBlocks)
      (fun outcome _ after => PhaseChecked after outcome) () reads := by
  refine checked_bind (revalidate_reads round minBlocks signed) fun _ after kept => ?_
  refine (takePages_issues failed solutionPages inside).checked (by simp) (by simp) kept ?_
  intro solutions _
  refine checked_bind (innerSubmitPages_reads solutions chunkSize round minBlocks kept) ?_
  intro remaining final stillSigned
  split
  · simpa [phaseReadIn, PhaseChecked] using stillSigned
  · refine checked_bind (revalidate_reads round minBlocks stillSigned) fun _ last lastSigned => ?_
    exact lastSigned.pageLoop

theorem submitAllPages_reads (solutionPages : List T.Solution) (chunkSize round minBlocks : Nat)
    (signed : AllSigned reads) :
    wp phaseMonitor (submitAllPages solutionPages chunkSize round minBlocks)
      (fun outcome _ after => PhaseChecked after outcome) () reads := by
  refine wp_seq ((firstAttempt_reported solutionPages chunkSize round minBlocks).and
    (innerSubmitPages_reads (enumeratePages solutionPages) chunkSize round minBlocks signed)) ?_
    (fun _ _ _ holds => holds.2) (fun _ _ holds => holds.2)
  rintro failed _ after ⟨reported, kept⟩
  obtain ⟨_, inside⟩ := reported failed rfl
  split
  · simpa [phaseReadIn, PhaseChecked] using kept
  · exact retryFailedPages_reads solutionPages failed chunkSize round minBlocks inside kept

theorem submit_reads (solution : PagedRawSolution T) (chunkSize round minBlocks : Nat)
    (signed : AllSigned reads) :
    wp phaseMonitor (submit solution chunkSize round minBlocks)
      (fun outcome _ after => PhaseChecked after outcome) () reads := by
  refine validated_reads round minBlocks signed fun blocks after kept => ?_
  refine (registerAndConfirm_issues solution.score blocks).checked (by simp) (by simp) kept ?_
  intro _ _
  refine checked_bind (revalidate_reads round minBlocks kept) fun _ final stillSigned => ?_
  exact submitAllPages_reads solution.solutionPages chunkSize round minBlocks stillSigned

def PhaseEnds (reads : List (PhaseReader × Phase)) (outcome : Outcome Error Unit) : Prop :=
  (outcome = .panic → ¬PageLoopSigned reads) ∧ (outcome = .ok () → AllSigned reads)

theorem PhaseChecked.ends {outcome : Outcome Error Unit} (checked : PhaseChecked reads outcome) :
    PhaseEnds reads outcome := by
  refine ⟨?_, ?_⟩
  · rintro rfl
    exact checked
  · rintro rfl
    exact checked

theorem resumeSubmission_reads (config : ProcessConfig) (round : Nat)
    (submission : IncompleteSubmission) (solution : PagedRawSolution T)
    (inside : ∀ page ∈ submission.getMissingPages, page < solution.solutionPages.length)
    (signed : AllSigned reads) :
    wp phaseMonitor (resumeSubmission config round submission solution)
      (fun outcome _ after => PhaseEnds after outcome) () reads := by
  obtain ⟨solutions, taken, _⟩ := missingSolutions_inside solution.solutionPages _ inside
  have strategy : wp phaseMonitor (do
      let _ ← innerSubmitPages solutions config.chunkSize round config.minSignedPhaseBlocks
      pure ()) (fun outcome _ after => PhaseChecked after outcome) () reads :=
    checked_bind (innerSubmitPages_reads solutions _ round _ signed) fun _ _ kept => kept
  have timed : wp phaseMonitor (withTimeout (.missingPages 1800) (do
      let _ ← innerSubmitPages solutions config.chunkSize round config.minSignedPhaseBlocks
      pure ())) (fun outcome _ after => PhaseEnds after outcome) () reads :=
    wp_withTimeout (wp_mono strategy fun _ _ _ checked => checked.ends) (by simp [PhaseEnds])
  unfold resumeSubmission
  rw [taken, return_bind]
  refine wp_seq timed ?_ (fun _ _ _ _ => ⟨by simp, by simp⟩) (fun _ _ left => ⟨left.1, by simp⟩)
  rintro _ _ after ⟨_, kept⟩
  simpa [phaseReadIn, PhaseEnds] using kept rfl

/-- No panic, and a read of another phase is answered with an error. -/
def PhaseSafe (result : Result Unit Error (Op T) Resp Unit) : Prop :=
  result.outcome ≠ .panic ∧
    ((∃ read ∈ phaseReads result.trace, read.2.isSigned = false) →
      ∃ error, result.outcome = .err error)

theorem phaseSafe_of_ends {result : Result Unit Error (Op T) Resp Unit}
    (ends : PhaseEnds (phaseReads result.trace) result.outcome)
    (loop : PageLoopSigned (phaseReads result.trace)) : PhaseSafe result := by
  refine ⟨fun panicked => ends.1 panicked loop, ?_⟩
  rintro ⟨read, member, other⟩
  rcases ended : result.outcome with _ | error | _
  · have shown := ends.2 ended read member
    rw [other] at shown
    contradiction
  · exact ⟨error, rfl⟩
  · exact absurd loop (ends.1 ended)

theorem phaseSafe_iff_of_checked {result : Result Unit Error (Op T) Resp Unit}
    (checked : PhaseChecked (phaseReads result.trace) result.outcome) :
    PhaseSafe result ↔ PageLoopSigned (phaseReads result.trace) := by
  constructor
  · rintro ⟨calm, _⟩
    rcases ended : result.outcome with _ | error | _
    · rw [ended] at checked
      exact AllSigned.pageLoop checked
    · rw [ended] at checked
      exact checked
    · exact absurd ended calm
  · exact phaseSafe_of_ends checked.ends

theorem run_reads (post : List (PhaseReader × Phase) → Outcome Error Unit → Prop)
    (env : MinerEnv T) {task : Task T Unit}
    (holds : wp phaseMonitor task (fun outcome _ after => post after outcome) () []) :
    post (phaseReads (run env task () []).trace) (run env task () []).outcome := by
  have finished := (wp_run env [] holds (phaseMonitor_expected [] _)).2
  rwa [phaseMonitor_after, List.nil_append] at finished

theorem resume_checked (env : MinerEnv T) (quiet : env.Quiet)
    (config : ProcessConfig) (round : Nat) (submission : IncompleteSubmission)
    (solution : PagedRawSolution T)
    (inside : ∀ page ∈ submission.getMissingPages, page < solution.solutionPages.length) :
    PhaseChecked
      (phaseReads (run env (resumeSubmission config round submission solution) () []).trace)
      (run env (resumeSubmission config round submission solution) () []).outcome := by
  obtain ⟨solutions, taken, _⟩ := missingSolutions_inside solution.solutionPages _ inside
  rw [run_resumeSubmission env quiet config round submission solution taken]
  refine run_reads PhaseChecked env ?_
  refine checked_bind (innerSubmitPages_reads solutions config.chunkSize round
    config.minSignedPhaseBlocks (by simp [AllSigned])) fun _ after kept => ?_
  simpa [phaseReadIn, PhaseChecked] using kept

/-- Submitting is safe against phase changes exactly when the unvalidated reads of the
page loop all show the signed phase. Resuming moreover needs every missing page to lie
inside the solution; there a timer may cut the call short before the page loop's panic. -/
theorem submission_phase_safe_iff (config : ProcessConfig) (round : Nat)
    (submission : IncompleteSubmission) (solution : PagedRawSolution T) (env : MinerEnv T) :
    let submitted := run env (submit solution config.chunkSize round config.minSignedPhaseBlocks)
      () []
    let resumed := run env (resumeSubmission config round submission solution) () []
    let inside := ∀ page ∈ submission.getMissingPages, page < solution.solutionPages.length
    (PhaseSafe submitted ↔ PageLoopSigned (phaseReads submitted.trace)) ∧
      (PageLoopSigned (phaseReads resumed.trace) ∧ inside → PhaseSafe resumed) ∧
      (env.Quiet →
        (PhaseSafe resumed ↔ PageLoopSigned (phaseReads resumed.trace) ∧ inside)) := by
  intro submitted resumed inside
  have enough : PageLoopSigned (phaseReads resumed.trace) ∧ inside → PhaseSafe resumed := by
    rintro ⟨loop, bounds⟩
    have ends := run_reads PhaseEnds env
      (resumeSubmission_reads config round submission solution bounds (by simp [AllSigned]))
    exact phaseSafe_of_ends ends loop
  refine ⟨?_, enough, fun quiet => ⟨fun safe => ?_, enough⟩⟩
  · exact phaseSafe_iff_of_checked (run_reads PhaseChecked env
      (submit_reads solution _ round _ (by simp [AllSigned])))
  · have bounds : inside := by
      by_contra outside
      simp only [inside, not_forall, Nat.not_lt] at outside
      obtain ⟨page, member, beyond⟩ := outside
      have aborted : resumed.outcome = .panic := by
        simp only [resumed, resumeSubmission,
          missingSolutions_outside _ _ ⟨page, member, beyond⟩]
        rfl
      exact safe.1 aborted
    exact ⟨(phaseSafe_iff_of_checked (resume_checked env quiet config round submission solution
      bounds)).mp safe, bounds⟩

def endingPhase : (op : Op T) → Resp op
  | .storageAtHead | .atCurrentBlock => .ok 0
  | .currentPhase .validation _ => .ok (some (.signed 11))
  | .currentPhase .mortality _ => .ok (some (.signedValidation 5))
  | .accountNonce => .ok 0
  | .createSigned _ _ => .ok ()
  | .submitAndWatch _ _ _ | .waitForFinalized _ => .ok 0
  | .waitForSuccess _ => .ok [.ok (.registered 7 0 ⟨1, 1, 1⟩)]
  | op => unavailable op

/-- The phase ends between the check of the batch and the read for its first page. -/
theorem submit_panics_when_phase_ends :
    (run ⟨fun _ => endingPhase, fun _ _ => false⟩
      (submit (⟨[3], ⟨1, 1, 1⟩, 7⟩ : PagedRawSolution sampleConfig) 0 7 10) () []).outcome =
      .panic := rfl

end LeanStakingMiner
