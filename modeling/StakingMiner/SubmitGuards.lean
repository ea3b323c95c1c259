import StakingMiner.MinerLogic
import StakingMiner.SnapshotLogic

/-!
The checks in front of a submission. The monitor lets `submit` be called only on a trace
that shows every guard; a processed block is then guarded because the whole call of
`process_block` is accepted by it.
-/

namespace LeanStakingMiner

open LeanProgram

variable {T : MinerConfig} {α : Type}

/-- The solver returned the solution, which then passed the page and winner checks. -/
def MinedAndChecked (details : BlockDetails) (trace : MinerTrace T)
    (solution : PagedRawSolution T) : Prop :=
  ∃ before input maxPages after,
    trace = before ++ ⟨.mineSolution input, .mined solution⟩ :: ⟨.pages, maxPages⟩ :: after ∧
    solution.solutionPages.length ≤ maxPages ∧
    T.winnerCount solution.solutionPages = details.desiredTargets ∧
    solution.round = details.round

/-- The first look at our submission in this call did not find it complete. -/
def ReadUnsubmitted (details : BlockDetails) (trace : MinerTrace T) : Prop :=
  ∃ before storage metadata after,
    trace = before ++ ⟨.submissionMetadata storage details.round, .ok metadata⟩ :: after ∧
    (∀ event ∈ before, event.1.kind ≠ .submission) ∧
    (currentSubmission details.nPages metadata).isDone = false

def NoSubmitCall (trace : MinerTrace T) : Prop := ∀ event ∈ trace, event.1.kind ≠ .submitCall

structure SubmitGuards (config : ProcessConfig) (details : BlockDetails)
    (cached : Option (PagedRawSolution T)) (trace : MinerTrace T)
    (solution : PagedRawSolution T) : Prop where
  signed : ∃ blocks, details.phase = .signed blocks ∧ config.minSignedPhaseBlocks < blocks
  unsubmitted : ReadUnsubmitted details trace
  round : solution.round = details.round
  checked : cached = some solution ∨ MinedAndChecked details trace solution
  minimum : ∃ minimum, ⟨.minimumScore details.atBlock, .ok minimum⟩ ∈ trace ∧
    meetsMinimumScore T solution.score minimum = true
  competitive : ∃ storage scores, ⟨.sortedScores storage details.round, .ok scores⟩ ∈ trace ∧
    ∀ entry ∈ scores,
      scorePassesStrategy T solution.score entry.2 config.submissionStrategy = true
  first : NoSubmitCall trace

def guardMonitor (config : ProcessConfig) (details : BlockDetails)
    (cached : Option (PagedRawSolution T)) : Monitor (Op T) Resp (MinerTrace T) :=
  Monitor.tracing (fun _ _ => True) fun trace op =>
    ∀ solution, op = .submitCalled solution → SubmitGuards config details cached trace solution

variable {config : ProcessConfig} {details : BlockDetails}
variable {cached : Option (PagedRawSolution T)} {trace longer : MinerTrace T}
variable {solution : PagedRawSolution T}

theorem MinedAndChecked.mono (mined : MinedAndChecked details trace solution)
    (extended : trace <+: longer) : MinedAndChecked details longer solution := by
  obtain ⟨before, input, maxPages, after, rfl, checks⟩ := mined
  obtain ⟨more, rfl⟩ := extended
  exact ⟨before, input, maxPages, after ++ more, by simp, checks⟩

theorem ReadUnsubmitted.mono (read : ReadUnsubmitted details trace)
    (extended : trace <+: longer) : ReadUnsubmitted details longer := by
  obtain ⟨before, storage, metadata, after, rfl, earlier, found⟩ := read
  obtain ⟨more, rfl⟩ := extended
  exact ⟨before, storage, metadata, after ++ more, by simp, earlier, found⟩

theorem NoSubmitCall.append {passed : MinerTrace T} (quiet : NoSubmitCall trace)
    (later : NoSubmitCall passed) : NoSubmitCall (trace ++ passed) := by
  intro event member
  rcases List.mem_append.mp member with earlier | last
  · exact quiet event earlier
  · exact later event last

theorem guardMonitor_free (trace : MinerTrace T) (op : Op T) (other : op.kind ≠ .submitCall) :
    (guardMonitor config details cached).allows trace op := by
  rintro solution rfl
  exact absurd rfl other

@[simp] theorem guardMonitor_expects (op : Op T) (answer : Resp op) :
    (guardMonitor config details cached).expects trace op answer ↔ True := Iff.rfl

@[simp] theorem guardMonitor_next (op : Op T) (answer : Resp op) :
    (guardMonitor config details cached).next trace op answer = trace ++ [⟨op, answer⟩] := rfl

def Passes (kinds : List OpKind) (trace after : MinerTrace T) : Prop :=
  ∃ passed, after = trace ++ passed ∧ ∀ event ∈ passed, event.1.kind ∈ kinds

theorem Passes.quiet {kinds : List OpKind} {after : MinerTrace T}
    (passes : Passes kinds trace after) (other : .submitCall ∉ kinds)
    (quiet : NoSubmitCall trace) : NoSubmitCall after := by
  obtain ⟨passed, rfl, listed⟩ := passes
  refine quiet.append fun event member same => ?_
  have found := listed event member
  rw [same] at found
  exact other found

theorem Passes.extended {kinds : List OpKind} {after : MinerTrace T}
    (passes : Passes kinds trace after) : trace <+: after := by
  obtain ⟨passed, rfl, _⟩ := passes
  exact List.prefix_append trace passed

section Issued

variable {σ : Type} {kinds : List OpKind} {store : σ}

theorem guarded_of_issues {program : Miner T σ α} {post : Outcome Error α → σ → Prop}
    (issues : wp (kindMonitor kinds) program (fun outcome store _ => post outcome store) store ())
    (quiet : .submitCall ∉ kinds) :
    wp (guardMonitor config details cached) program
      (fun outcome store after => post outcome store ∧ Passes kinds trace after) store trace := by
  have free (trace : MinerTrace T) (op : Op T) (member : op.kind ∈ kinds) :
      ∀ solution, op = .submitCalled solution →
        SubmitGuards config details cached trace solution := by
    rintro solution rfl
    exact absurd member quiet
  refine wp_mono (wp_tracing_of_issuing issues free) ?_
  rintro outcome store after ⟨ends, passed, extended, issued⟩
  exact ⟨ends, passed, extended, issued⟩

end Issued

theorem guarded_alreadySubmitted (trace : MinerTrace T) (quiet : NoSubmitCall trace)
    (fresh : ∀ event ∈ trace, event.1.kind ≠ .submission) :
    wp (guardMonitor config details cached) (alreadySubmitted details)
      (fun outcome _ after => outcome = .ok false →
        NoSubmitCall after ∧ ReadUnsubmitted details after) () trace := by
  refine wp_withTimeout ?_ (by simp)
  simp only [hasSubmitted, getSubmission, wp_bind, wp_ask, forall_read, wp_rpc_error, wp_rpc_ok,
    followedBy_ok, followedBy_err, wp_return]
  refine ⟨guardMonitor_free _ _ (by simp [Op.kind]), by simp, fun storage _ => ?_⟩
  refine ⟨guardMonitor_free _ _ (by simp [Op.kind]), by simp, fun metadata _ undone => ?_⟩
  simp only [Outcome.ok.injEq] at undone
  simp only [guardMonitor_next]
  refine ⟨?_, trace ++ [⟨.storageAtHead, .ok storage⟩], storage, metadata, [], by simp, ?_, undone⟩
  · refine (quiet.append ?_).append ?_
    · simp [NoSubmitCall, Op.kind]
    · simp [NoSubmitCall, Op.kind]
  · intro event member
    rcases List.mem_append.mp member with earlier | last
    · exact fresh event earlier
    · rw [List.mem_singleton.mp last]
      simp [Op.kind]

theorem guarded_mineSolution (target : T.TargetPage) (voters : List T.VoterPage)
    (doReduce : Bool) (trace : MinerTrace T) :
    wp (guardMonitor config details cached) (mineSolution target voters details.nPages
        details.round details.desiredTargets doReduce)
      (fun outcome _ after => ∀ solution, outcome = .ok solution → ∃ bound input,
        after = trace ++ [⟨.pages, bound⟩, ⟨.mineSolution input, .mined solution⟩]) () trace := by
  simp only [mineSolution, wp_bind, wp_ask, followedBy_ok]
  refine ⟨guardMonitor_free _ _ (by simp [Op.kind]), fun bound _ => ?_⟩
  refine ⟨guardMonitor_free _ _ (by simp [Op.kind]), fun mined _ => ?_⟩
  cases mined with
  | mined solution =>
      intro result same
      simp only [Outcome.ok.injEq] at same
      subst result
      exact ⟨bound, ⟨details.desiredTargets, target, voters.take bound, details.nPages, doReduce,
        details.round⟩, by simp⟩
  | _ => simp

theorem guarded_validateSolution (solution : PagedRawSolution T) (trace : MinerTrace T) :
    wp (guardMonitor config details cached)
      (validateSolution solution details.round details.desiredTargets)
      (fun outcome _ after => ∀ result, outcome = .ok result → result = solution ∧
        ∃ maxPages, after = trace ++ [⟨.pages, maxPages⟩] ∧
          solution.solutionPages.length ≤ maxPages ∧
          T.winnerCount solution.solutionPages = details.desiredTargets ∧
          solution.round = details.round) () trace := by
  unfold validateSolution
  split
  · simp
  · rename_i sameRound
    simp only [wp_bind, wp_ask, followedBy_ok]
    refine ⟨guardMonitor_free _ _ (by simp [Op.kind]), fun maxPages _ => ?_⟩
    split
    · simp
    · rename_i fewPages
      split
      · simp
      · rename_i sameWinners
        intro result same
        simp only [Outcome.ok.injEq] at same
        subst result
        simp only [ne_eq, not_not] at sameRound sameWinners
        exact ⟨rfl, maxPages, rfl, Nat.le_of_not_lt fewPages, sameWinners.symm, sameRound.symm⟩

theorem guarded_mineAndValidate (doReduce : Bool) (snapshot : Snapshot T) (trace : MinerTrace T)
    (quiet : NoSubmitCall trace) :
    wp (guardMonitor config details cached) (mineAndValidate details doReduce)
      (fun outcome _ after => ∀ solution, outcome = .ok solution →
        NoSubmitCall after ∧ trace <+: after ∧ MinedAndChecked details after solution)
      snapshot trace := by
  unfold mineAndValidate
  refine wp_seq (guarded_of_issues (fetchMissingSnapshots_issues details.atBlock details.round
    snapshot) (by simp)) ?_ (by simp) (by simp)
  rintro _ store fetched ⟨_, passes⟩
  have fetchedQuiet := passes.quiet (by simp) quiet
  simp only [wp_bind, wp_load, followedBy_ok]
  split
  · simp
  · rename_i target voters _
    simp only [wp_bind, wp_lift]
    refine wp_withTimeout (wp_mono (guarded_mineSolution target voters doReduce fetched) ?_)
      (by simp)
    rintro (solution | error | _) _ mined evidence
    · obtain ⟨bound, input, rfl⟩ := evidence solution rfl
      simp only [followedBy_ok, wp_lift]
      refine wp_mono (guarded_validateSolution solution _) ?_
      rintro outcome _ after checked result finished
      obtain ⟨rfl, maxPages, rfl, checks⟩ := checked result finished
      refine ⟨?_, ?_, ?_⟩
      · refine (fetchedQuiet.append ?_).append ?_
        · simp [NoSubmitCall, Op.kind]
        · simp [NoSubmitCall, Op.kind]
      · refine passes.extended.trans ?_
        rw [List.append_assoc]
        exact List.prefix_append _ _
      · exact ⟨fetched ++ [⟨.pages, bound⟩], input, maxPages, [], by simp, checks⟩
    · simp
    · simp

theorem guarded_refreshCache (doReduce : Bool) (state : MinerState T) (trace : MinerTrace T)
    (quiet : NoSubmitCall trace) :
    wp (guardMonitor config details state.cachedSolution) (refreshCache details doReduce)
      (fun outcome store after =>
        (outcome ≠ .ok () → store.cachedSolution = state.cachedSolution) ∧
        (outcome = .ok () → NoSubmitCall after ∧ trace <+: after ∧
          ∃ solution, store.cachedSolution = some solution ∧ solution.round = details.round ∧
            (state.cachedSolution = some solution ∨ MinedAndChecked details after solution)))
      state trace := by
  simp only [refreshCache, wp_bind, wp_load, followedBy_ok]
  split
  · simp only [wp_bind, wp_zoom]
    refine wp_mono (guarded_mineAndValidate doReduce state.snapshot trace quiet) ?_
    rintro (solution | error | _) snapshot after evidence
    · obtain ⟨minedQuiet, extended, mined⟩ := evidence solution rfl
      obtain ⟨_, _, _, _, _, _, _, round⟩ := id mined
      refine ⟨by simp, fun _ => ⟨minedQuiet, extended, solution, rfl, round, Or.inr mined⟩⟩
    · exact ⟨fun _ => rfl, by simp⟩
    · exact ⟨fun _ => rfl, by simp⟩
  · rename_i same
    simp only [ne_eq, not_not, Option.map_eq_some_iff] at same
    obtain ⟨solution, found, round⟩ := same
    refine ⟨by simp, fun _ => ⟨quiet, List.prefix_rfl, solution, found, round, Or.inl found⟩⟩

structure Prepared (config : ProcessConfig) (details : BlockDetails)
    (cached : Option (PagedRawSolution T)) (trace : MinerTrace T)
    (solution : PagedRawSolution T) : Prop where
  signed : ∃ blocks, details.phase = .signed blocks ∧ config.minSignedPhaseBlocks < blocks
  unsubmitted : ReadUnsubmitted details trace
  round : solution.round = details.round
  checked : cached = some solution ∨ MinedAndChecked details trace solution
  quiet : NoSubmitCall trace

theorem Prepared.mono {kinds : List OpKind} {after : MinerTrace T}
    (prepared : Prepared config details cached trace solution) (passes : Passes kinds trace after)
    (other : .submitCall ∉ kinds) : Prepared config details cached after solution := by
  refine ⟨prepared.signed, prepared.unsubmitted.mono passes.extended, prepared.round, ?_,
    passes.quiet other prepared.quiet⟩
  rcases prepared.checked with earlier | mined
  · exact Or.inl earlier
  · exact Or.inr (mined.mono passes.extended)

theorem guarded_checkCompetitive (honest : config.shady = false) (storage : AtBlock)
    (score : ElectionScore) (trace : MinerTrace T) :
    wp (guardMonitor config details cached)
      (checkCompetitive config storage details.round score)
      (fun outcome _ after => outcome = .ok true → Passes [.other] trace after ∧
        ∃ scores, ⟨.sortedScores storage details.round, .ok scores⟩ ∈ after ∧
          ∀ entry ∈ scores,
            scorePassesStrategy T score entry.2 config.submissionStrategy = true) () trace := by
  unfold checkCompetitive
  rw [honest]
  refine wp_withTimeout ?_ (by simp)
  simp only [scoreBetter, wp_bind, wp_ask, forall_read, wp_rpc_error, wp_rpc_ok, followedBy_ok,
    followedBy_err, wp_return]
  refine ⟨guardMonitor_free _ _ (by simp [Op.kind]), by simp, fun scores _ passed => ?_⟩
  simp only [Outcome.ok.injEq, List.all_eq_true] at passed
  refine ⟨⟨_, rfl, by simp [Op.kind]⟩, scores, by simp, ?_⟩
  rintro ⟨account, other⟩ member
  exact passed _ member

theorem guarded_competeAndSubmit (honest : config.shady = false) (state : MinerState T)
    (storage : AtBlock) (trace : MinerTrace T)
    (prepared : Prepared config details cached trace solution)
    (minimum : ∃ minimum, ⟨.minimumScore details.atBlock, .ok minimum⟩ ∈ trace ∧
      meetsMinimumScore T solution.score minimum = true) :
    wp (guardMonitor config details cached)
      (competeAndSubmit config details.round solution storage)
      (fun _ store _ => store.cachedSolution = state.cachedSolution) state trace := by
  unfold competeAndSubmit
  rw [wp_bind, wp_lift]
  refine wp_mono (guarded_checkCompetitive honest storage solution.score trace) ?_
  rintro (competitive | error | _) _ after passed
  · simp only [followedBy_ok]
    split
    · rename_i better
      subst better
      obtain ⟨passes, scores, read, better⟩ := passed rfl
      have ready := prepared.mono passes (by simp)
      obtain ⟨floor, seen, above⟩ := minimum
      simp only [wp_bind, wp_ask, followedBy_ok, wp_lift]
      refine ⟨?_, fun _ _ => ?_⟩
      · rintro called same
        simp only [Op.submitCalled.injEq] at same
        subst called
        exact ⟨ready.signed, ready.unsubmitted, ready.round, ready.checked,
          ⟨floor, passes.extended.subset seen, above⟩, ⟨storage, scores, read, better⟩,
          ready.quiet⟩
      · refine wp_mono (guarded_of_issues ((submit_issues solution config.chunkSize details.round
          config.minSignedPhaseBlocks).timed _) (by simp [submissionKinds])) ?_
        simp
    · simp only [skipNotCompetitive, wp_bind, wp_load, followedBy_ok]
      split
      · simp only [wp_bind, wp_modify, followedBy_ok, wp_ask]
        exact ⟨guardMonitor_free _ _ (by simp [Op.kind]), fun _ _ => trivial⟩
      · rfl
  · rfl
  · rfl

theorem guarded_submitSolution (honest : config.shady = false) (state : MinerState T)
    (trace : MinerTrace T) (prepared : Prepared config details cached trace solution) :
    wp (guardMonitor config details cached) (submitSolution config details solution)
      (fun _ store _ => store.cachedSolution = state.cachedSolution) state trace := by
  simp only [submitSolution, fetchMinimumScore, wp_bind, wp_lift, wp_ask, forall_read, followedBy_ok,
    wp_rpc_ok, wp_rpc_error, followedBy_err]
  refine ⟨guardMonitor_free _ _ (by simp [Op.kind]), by simp, fun minimum _ => ?_⟩
  have read : Passes [.other] trace (trace ++ [⟨.minimumScore details.atBlock, .ok minimum⟩]) :=
    ⟨_, rfl, by simp [Op.kind]⟩
  have withMinimum := prepared.mono read (by simp)
  split
  · rfl
  · rfl
  · rename_i above
    simp only [wp_bind, wp_lift, guardMonitor_next]
    refine wp_mono (guarded_of_issues (existingSubmission_issues details) (by simp)) ?_
    rintro (⟨storage, existing⟩ | error | _) _ looked ⟨_, looks⟩
    · simp only [followedBy_ok, wp_bind, wp_lift]
      refine wp_mono (guarded_of_issues (handleExisting_issues config details.round solution
        existing) (by simp [submissionKinds])) ?_
      rintro (flow | error | _) _ handled ⟨_, handles⟩
      · simp only [followedBy_ok]
        cases flow with
        | finished => rfl
        | proceed =>
            have ready := (withMinimum.mono looks (by simp)).mono handles
              (by simp [submissionKinds])
            refine guarded_competeAndSubmit honest state storage handled ready ⟨_, ?_, above⟩
            exact handles.extended.subset (looks.extended.subset (by simp))
      · rfl
      · rfl
    · rfl
    · rfl

def CacheChecked (details : BlockDetails) (before after : MinerState T) (trace : MinerTrace T) :
    Prop :=
  ∀ solution, after.cachedSolution = some solution →
    before.cachedSolution = some solution ∨ MinedAndChecked details trace solution

theorem guarded_mineAndSubmit (honest : config.shady = false) (state : MinerState T)
    (trace : MinerTrace T)
    (signed : ∃ blocks, details.phase = .signed blocks ∧ config.minSignedPhaseBlocks < blocks)
    (quiet : NoSubmitCall trace) (unsubmitted : ReadUnsubmitted details trace) :
    wp (guardMonitor config details state.cachedSolution) (mineAndSubmit config details)
      (fun _ store after => CacheChecked details state store after) state trace := by
  unfold mineAndSubmit
  refine wp_seq (guarded_refreshCache config.doReduce state trace quiet) ?_ ?_ ?_
  · rintro _ store after ⟨_, refreshed⟩
    obtain ⟨minedQuiet, extended, solution, found, round, checked⟩ := refreshed rfl
    simp only [wp_bind, wp_load, followedBy_ok, found, honest, Bool.false_eq_true, ↓reduceIte]
    have prepared : Prepared config details state.cachedSolution after solution :=
      ⟨signed, unsubmitted.mono extended, round, checked, minedQuiet⟩
    refine wp_mono (wp_tracing_extends (guarded_submitSolution honest store after prepared)) ?_
    rintro outcome final longer ⟨same, passed⟩ result cached
    rw [same, found] at cached
    obtain rfl := Option.some.inj cached
    rcases checked with earlier | mined
    · exact Or.inl earlier
    · exact Or.inr (mined.mono passed)
  · rintro error store after ⟨kept, _⟩ solution cached
    rw [kept (by simp)] at cached
    exact Or.inl cached
  · rintro store after ⟨kept, _⟩ solution cached
    rw [kept (by simp)] at cached
    exact Or.inl cached

theorem guarded_checkPhase (details : BlockDetails) (state : MinerState T)
    (trace : MinerTrace T) :
    wp (guardMonitor config details cached) (checkPhase config.minSignedPhaseBlocks details)
      (fun outcome store after => store.cachedSolution = state.cachedSolution ∧
        (outcome = .ok .proceed → store = state ∧ after = trace ∧
          ∃ blocks, details.phase = .signed blocks ∧ config.minSignedPhaseBlocks < blocks))
      state trace := by
  unfold checkPhase
  split
  · simp only [wp_bind, wp_zoom]
    refine wp_mono (guarded_of_issues (fetchMissingSnapshotsLossy_issues details.atBlock
      details.round state.snapshot) (by simp)) ?_
    rintro (_ | error | _) snapshot after _
    · exact ⟨rfl, by simp⟩
    · exact ⟨rfl, by simp⟩
    · exact ⟨rfl, by simp⟩
  · rename_i blocks phase
    split
    · exact ⟨rfl, by simp⟩
    · exact ⟨rfl, fun _ => ⟨rfl, rfl, blocks, phase, by omega⟩⟩
  · exact ⟨rfl, by simp⟩

theorem CacheChecked.unchanged {state store : MinerState T}
    (same : store.cachedSolution = state.cachedSolution) (after : MinerTrace T) :
    CacheChecked details state store after := by
  intro solution cached
  exact Or.inl (same ▸ cached)

theorem guarded_processSignedBlock (honest : config.shady = false) (state : MinerState T)
    (trace : MinerTrace T) (balanceOnly : ∀ event ∈ trace, event.1.kind = .other)
    (signed : ∃ blocks, details.phase = .signed blocks ∧ config.minSignedPhaseBlocks < blocks) :
    wp (guardMonitor config details state.cachedSolution) (processSignedBlock config details)
      (fun _ store after => CacheChecked details state store after) state trace := by
  have quiet : NoSubmitCall trace := by
    intro event member
    simp [balanceOnly event member]
  have fresh (event : Event (Op T) Resp) (member : event ∈ trace) :
      event.1.kind ≠ .submission := by
    simp [balanceOnly event member]
  simp only [processSignedBlock, wp_bind, wp_lift]
  refine wp_mono (guarded_alreadySubmitted trace quiet fresh) ?_
  rintro (submitted | error | _) _ read undone
  · simp only [followedBy_ok]
    cases submitted with
    | true => exact CacheChecked.unchanged rfl read
    | false =>
        obtain ⟨readQuiet, unsubmitted⟩ := undone rfl
        exact guarded_mineAndSubmit honest state read signed readQuiet unsubmitted
  · exact CacheChecked.unchanged rfl read
  · exact CacheChecked.unchanged rfl read

theorem guarded_processBlock (honest : config.shady = false) (details : BlockDetails)
    (state : MinerState T) :
    wp (guardMonitor config details state.cachedSolution) (processBlock config details)
      (fun _ store after => CacheChecked details state store after) state [] := by
  unfold processBlock
  rw [wp_bind, wp_lift]
  refine wp_mono (guarded_of_issues (fetchBalance_issues details.atBlock) (by simp)) ?_
  rintro (balance | error | _) _ trace ⟨_, passed, extended, listed⟩
  · rw [List.nil_append] at extended
    subst extended
    have balanceOnly (event : Event (Op T) Resp) (member : event ∈ trace) :
        event.1.kind = .other := List.mem_singleton.mp (listed event member)
    simp only [followedBy_ok]
    cases balance with
    | finished => exact CacheChecked.unchanged rfl trace
    | proceed =>
        refine wp_seq (guarded_checkPhase details state trace) ?_
          (fun _ _ after kept => CacheChecked.unchanged kept.1 after)
          (fun _ after kept => CacheChecked.unchanged kept.1 after)
        rintro flow store after ⟨same, proceeds⟩
        cases flow with
        | finished => exact CacheChecked.unchanged same after
        | proceed =>
            obtain ⟨rfl, rfl, signed⟩ := proceeds rfl
            exact guarded_processSignedBlock honest store after balanceOnly signed
  · exact CacheChecked.unchanged rfl _
  · exact CacheChecked.unchanged rfl _

theorem kind_submitCall {op : Op T} (called : op.kind = .submitCall) :
    ∃ solution, op = .submitCalled solution := by
  cases op with
  | submitCalled solution => exact ⟨solution, rfl⟩
  | submitAndWatch transaction nonce mortality => cases transaction <;> contradiction
  | _ => contradiction

theorem countP_submitCall (trace : MinerTrace T)
    (first : ∀ before event after, trace = before ++ event :: after →
      event.1.kind = OpKind.submitCall → NoSubmitCall before) :
    (trace.countP fun event => event.1.kind = .submitCall) ≤ 1 := by
  induction trace with
  | nil => simp
  | cons event rest ih =>
      by_cases called : event.1.kind = .submitCall
      · have none : (rest.countP fun event => event.1.kind = .submitCall) = 0 := by
          rw [List.countP_eq_zero]
          intro other member again
          obtain ⟨before, after, split⟩ := List.append_of_mem member
          have quiet := first (event :: before) other after (by simp [split]) (by simpa using again)
          exact quiet event (by simp) called
        simp [called, none]
      · have later := ih fun before other after split again => by
          have quiet := first (event :: before) other after (by simp [split]) again
          exact fun earlier member => quiet earlier (by simp [member])
        simpa [called] using later

theorem handleBlock_guarded (honest : config.shady = false) (env : MinerEnv T)
    (details : BlockDetails) (state : MinerState T) (history : MinerTrace T) :
    let block := handleBlock config env details state history
    (∀ before event after, block.result.trace = before ++ event :: after →
      ∀ solution, event.1 = Op.submitCalled solution →
        SubmitGuards config details state.cachedSolution before solution) ∧
      CacheChecked details state block.result.store block.result.trace := by
  intro block
  obtain ⟨accepted, kept⟩ := wp_run env history (guarded_processBlock honest details state)
    (tracing_expected env (fun _ _ => trivial) _ state [] history)
  simp only [guardMonitor, tracing_after, List.nil_append] at kept
  refine ⟨fun before event after split => ?_, kept⟩
  have same : (run env (processBlock config details) state history).trace =
      before ++ event :: after := split
  rw [same] at accepted
  have allowed := tracing_accepts accepted
  rwa [List.nil_append] at allowed

def CheckedIn (blocks : List (ProcessedBlock T)) (solution : PagedRawSolution T) : Prop :=
  ∃ source ∈ blocks, MinedAndChecked source.details source.result.trace solution

section Runs

variable {env : MinerEnv T} {pages : Nat} {state : MinerState T} {history : MinerTrace T}
  {blocks : List (ProcessedBlock T)}

theorem MinerRun.checked (honest : config.shady = false)
    (reached : MinerRun config env pages state history blocks) :
    ∀ solution, state.cachedSolution = some solution → CheckedIn blocks solution :=
  reached.cachedBy MinedAndChecked fun state history _ details _ =>
    (handleBlock_guarded honest env details state history).2

theorem MinerRun.guarded (honest : config.shady = false)
    (reached : MinerRun config env pages state history blocks) :
    ∀ earlier block later, blocks = earlier ++ block :: later →
      ∀ before event after, block.result.trace = before ++ event :: after →
      ∀ solution, event.1 = Op.submitCalled solution → ∃ cached,
        SubmitGuards config block.details cached before solution ∧
        ∀ solution, cached = some solution → CheckedIn earlier solution := by
  induction reached with
  | start => simp
  | cleared _ ih => exact ih
  | processed details reached _ ih =>
      rename_i state history blocks _
      intro earlier block later split
      rcases List.eq_nil_or_concat later with rfl | ⟨rest, last, rfl⟩
      · obtain ⟨rfl, same⟩ := List.append_inj' split rfl
        obtain rfl := List.singleton_inj.mp same
        intro before event after found solution called
        have guards := (handleBlock_guarded honest env details state history).1
        exact ⟨state.cachedSolution, guards before event after found solution called,
          reached.checked honest⟩
      · have shorter : blocks = earlier ++ block :: rest := by
          rw [List.concat_eq_append, ← List.cons_append, ← List.append_assoc] at split
          exact (List.append_inj' split rfl).1
        exact ih earlier block rest shorter

end Runs

/-- Whenever a processed block calls `submit`, all guards have passed before: the phase,
the look at our own submission, the round, the checks on the mined solution, the minimum
score and the comparison with every other score. No block calls it twice. -/
theorem submit_calls_guarded (config : ProcessConfig) (honest : config.shady = false)
    (env : MinerEnv T) (pages : Nat) (state : MinerState T) (history : MinerTrace T)
    (earlier later : List (ProcessedBlock T)) (block : ProcessedBlock T)
    (reached : MinerRun config env pages state history (earlier ++ block :: later)) :
    (∀ before solution answer after,
      block.result.trace = before ++ ⟨.submitCalled solution, answer⟩ :: after →
        (∃ blocksRemaining, block.details.phase = .signed blocksRemaining ∧
          config.minSignedPhaseBlocks < blocksRemaining) ∧
        ReadUnsubmitted block.details before ∧
        solution.round = block.details.round ∧
        ((∃ source ∈ earlier, MinedAndChecked source.details source.result.trace solution) ∨
          MinedAndChecked block.details before solution) ∧
        (∃ minimum, ⟨.minimumScore block.details.atBlock, .ok minimum⟩ ∈ before ∧
          meetsMinimumScore T solution.score minimum = true) ∧
        ∃ storage scores, ⟨.sortedScores storage block.details.round, .ok scores⟩ ∈ before ∧
          ∀ entry ∈ scores,
            scorePassesStrategy T solution.score entry.2 config.submissionStrategy = true) ∧
      (block.result.trace.countP fun event => event.1.kind = .submitCall) ≤ 1 := by
  have guarded := reached.guarded honest earlier block later rfl
  refine ⟨?_, ?_⟩
  · intro before solution answer after split
    obtain ⟨cached, guards, sources⟩ := guarded before _ after split solution rfl
    refine ⟨guards.signed, guards.unsubmitted, guards.round, ?_, guards.minimum,
      guards.competitive⟩
    rcases guards.checked with found | mined
    · exact Or.inl (sources solution found)
    · exact Or.inr mined
  · refine countP_submitCall _ fun before event after split called => ?_
    obtain ⟨solution, same⟩ := kind_submitCall called
    obtain ⟨_, guards, _⟩ := guarded before event after split solution same
    exact guards.first

def leadingAnswer : (op : Op sampleConfig) → Resp op
  | .account _ => .ok (some 1)
  | .storageAtHead => .ok 51
  | .submissionMetadata _ _ => .ok none
  | .voterSnapshotHash _ _ page | .targetSnapshotHash _ _ page => .ok (some (some page))
  | .voterSnapshot _ _ page | .targetSnapshot _ _ page => .ok (some (some page))
  | .pages => 2
  | .mineSolution _ => .mined ⟨[3, 4], ⟨5, 5, 5⟩, 7⟩
  | .minimumScore _ => .ok (some ⟨1, 1, 1⟩)
  | .sortedScores _ _ => .ok [(1, ⟨2, 2, 2⟩)]
  | op => unavailable op

theorem submit_calls_guarded_leading :
    let config : ProcessConfig := ⟨.ifLeading, false, 0, 10, false⟩
    let block := handleBlock config ⟨fun _ => leadingAnswer, fun _ _ => false⟩
      ⟨50, .signed 20, 2, 7, 2, 50⟩ (MinerState.initial 2) []
    ∃ before answer after,
      block.result.trace = before ++ ⟨.submitCalled ⟨[3, 4], ⟨5, 5, 5⟩, 7⟩, answer⟩ :: after ∧
      ReadUnsubmitted block.details before ∧
      (block.result.trace.countP fun event => event.1.kind = .submitCall) ≤ 1 := by
  intro config block
  have reached : MinerRun config ⟨fun _ => leadingAnswer, fun _ _ => false⟩ 2 block.result.store
      block.result.trace ([] ++ block :: []) := MinerRun.processed _ MinerRun.start (by simp)
  obtain ⟨guards, once⟩ := submit_calls_guarded config rfl _ 2 _ _ [] [] block reached
  have called : block.result.trace[16]? = some ⟨.submitCalled ⟨[3, 4], ⟨5, 5, 5⟩, 7⟩, ()⟩ := by rfl
  obtain ⟨before, after, split⟩ := List.append_of_mem (List.mem_of_getElem? called)
  obtain ⟨_, unsubmitted, _⟩ := guards _ _ _ _ split
  exact ⟨before, (), after, split, unsubmitted, once⟩

theorem processBlock_low_blocks (config : ProcessConfig) (details : BlockDetails)
    (state : MinerState T) (blocks : Nat) (signed : details.phase = .signed blocks)
    (low : blocks ≤ config.minSignedPhaseBlocks) :
    wp (kindMonitor [.other]) (processBlock config details) (fun _ _ _ => True) state () := by
  simp only [processBlock, wp_bind, wp_lift]
  refine wp_mono (fetchBalance_issues details.atBlock) ?_
  rintro (flow | error | _) _ _ _
  · simp only [followedBy_ok]
    cases flow with
    | finished => trivial
    | proceed => simp [checkPhase, signed, low]
  · trivial
  · trivial

/-- With too few blocks left the block is dropped before anything is looked at: no bail
transaction is sent, whatever submission the chain holds. -/
theorem low_blocks_never_bail (config : ProcessConfig) (details : BlockDetails)
    (state : MinerState T) (env : MinerEnv T) (history : MinerTrace T) (blocks : Nat)
    (signed : details.phase = .signed blocks) (low : blocks ≤ config.minSignedPhaseBlocks) :
    ∀ event ∈ (handleBlock config env details state history).result.trace,
      event.1.kind ≠ .bail := by
  intro event member
  have listed : event.1.kind ∈ [OpKind.other] := run_issued env history
    (processBlock_low_blocks config details state blocks signed low) event member
  rw [List.mem_singleton.mp listed]
  simp

def incompleteAnswer : (op : Op sampleConfig) → Resp op
  | .account _ => .ok (some 1)
  | .storageAtHead | .atCurrentBlock => .ok 51
  | .currentPhase _ _ => .ok (some (.signed 5))
  | .submissionMetadata _ _ => .ok (some ⟨⟨5, 5, 5⟩, [true, false]⟩)
  | .accountNonce => .ok 0
  | .createSigned _ _ => .ok ()
  | .submitAndWatch _ _ _ | .waitForFinalized _ => .ok 0
  | op => unavailable op

theorem low_blocks_never_bail_at_five :
    (∀ event ∈ (handleBlock ⟨.ifLeading, false, 0, 10, false⟩
      ⟨fun _ => incompleteAnswer, fun _ _ => false⟩ ⟨50, .signed 5, 2, 7, 2, 50⟩
      (MinerState.initial 2) []).result.trace, event.1.kind ≠ .bail) ∧ 5 ≤ 10 :=
  ⟨low_blocks_never_bail _ _ _ _ _ 5 rfl (by decide), by decide⟩

/-- Our submission for round 7 has one of two pages, five blocks are left and ten are
needed: the block is processed without error, and the submission stays as it is. -/
theorem low_blocks_keep_incomplete_submission :
    let block := handleBlock ⟨.ifLeading, false, 0, 10, false⟩
      ⟨fun _ => incompleteAnswer, fun _ _ => false⟩ ⟨50, .signed 5, 2, 7, 2, 50⟩
      (MinerState.initial 2) []
    block.result.outcome = .ok () ∧
      ¬∃ event ∈ block.result.trace, event.1.kind = .bail := by
  intro block
  have trace : block.result.trace = [⟨.account 50, .ok (some 1)⟩] := rfl
  refine ⟨rfl, ?_⟩
  rw [trace]
  simp [Op.kind]

end LeanStakingMiner
