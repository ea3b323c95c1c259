import StakingMiner.MinerLogic
import StakingMiner.SnapshotLogic

/-!
The snapshot cache along whole runs of the miner task: it stays faithful to the hashes
it was filled under, so a strict fetch is right from every reachable state and every
cached solution was mined from the snapshot of its own round.
-/

namespace LeanStakingMiner

open LeanProgram

variable {T : MinerConfig} {chain : SnapshotChain T} {nPages : Nat}

def MinedFrom (chain : SnapshotChain T) (nPages : Nat) (details : BlockDetails)
    (trace : MinerTrace T) (solution : PagedRawSolution T) : Prop :=
  ∃ input, ⟨.mineSolution input, .mined solution⟩ ∈ trace ∧ input.round = details.round ∧
    solution.round = details.round ∧
    HoldsSnapshot chain nPages details.atBlock details.round input.allTargets input.voterPages

theorem MinedFrom.mono {details : BlockDetails} {trace longer : MinerTrace T}
    {solution : PagedRawSolution T} (mined : MinedFrom chain nPages details trace solution)
    (extended : trace <+: longer) : MinedFrom chain nPages details longer solution := by
  obtain ⟨input, member, rest⟩ := mined
  exact ⟨input, extended.subset member, rest⟩

theorem chainMonitor_permissive (trace : MinerTrace T) (op : Op T) :
    (chainMonitor chain nPages).allows trace op := trivial

theorem HoldsSnapshot.length {storage : AtBlock} {round : Nat} {target : T.TargetPage}
    {voters : List T.VoterPage} (holds : HoldsSnapshot chain nPages storage round target voters) :
    voters.length = nPages := by
  simpa using congrArg List.length holds.2

theorem mineSolution_spec (details : BlockDetails) (doReduce : Bool) (target : T.TargetPage)
    (voters : List T.VoterPage) (trace : MinerTrace T)
    (holds : HoldsSnapshot chain nPages details.atBlock details.round target voters) :
    wp (chainMonitor chain nPages) (mineSolution target voters details.nPages details.round
        details.desiredTargets doReduce)
      (fun outcome _ after => outcome ≠ .panic ∧ ∀ solution, outcome = .ok solution →
        ∃ input, ⟨.mineSolution input, .mined solution⟩ ∈ after ∧ input.round = details.round ∧
          HoldsSnapshot chain nPages details.atBlock details.round input.allTargets
            input.voterPages) () trace := by
  simp only [mineSolution, wp_bind, wp_ask, followedBy_ok, chainMonitor_expects,
    SnapshotChain.Agrees]
  refine ⟨trivial, ?_⟩
  rintro bound rfl
  refine ⟨trivial, fun mined _ => ?_⟩
  have all : voters.take bound = voters := List.take_of_length_le (Nat.le_of_eq holds.length)
  rw [all]
  cases mined with
  | mined solution =>
      refine ⟨by simp, fun result same => ?_⟩
      simp only [Outcome.ok.injEq] at same
      subst result
      exact ⟨_, List.mem_append_right _ (List.mem_singleton_self _), rfl, holds⟩
  | _ => simp

theorem validateSolution_spec (solution : PagedRawSolution T) (round desiredTargets : Nat)
    (trace : MinerTrace T) :
    wp (chainMonitor chain nPages) (validateSolution solution round desiredTargets)
      (fun outcome _ after => outcome ≠ .panic ∧ trace <+: after ∧
        ∀ result, outcome = .ok result → result = solution ∧ solution.round = round) () trace := by
  refine wp_mono (wp_tracing_of_issuing (validateSolution_issues solution round desiredTargets)
    fun _ _ _ => trivial) ?_
  rintro outcome _ _ ⟨⟨calm, checked⟩, passed, rfl, _⟩
  exact ⟨calm, List.prefix_append trace passed, checked⟩

theorem mineAndValidate_spec (details : BlockDetails) (doReduce : Bool) (snapshot : Snapshot T)
    (trace : MinerTrace T) (faithful : snapshot.Faithful chain nPages) :
    wp (chainMonitor chain nPages) (mineAndValidate details doReduce)
      (fun outcome store after => outcome ≠ .panic ∧ store.Faithful chain nPages ∧
        ∀ solution, outcome = .ok solution → MinedFrom chain nPages details after solution)
      snapshot trace := by
  unfold mineAndValidate
  refine wp_seq (fetchMissingSnapshots_spec details.round details.atBlock trace faithful) ?_ ?_ ?_
  · rintro _ store after ⟨_, kept, fetched⟩
    obtain ⟨target, voters, found, holds⟩ := fetched rfl
    simp only [wp_bind, wp_load, followedBy_ok, found, wp_lift]
    refine wp_withTimeout (wp_mono (mineSolution_spec details doReduce target voters after holds) ?_)
      (fun _ => ⟨by simp, kept, by simp⟩)
    rintro (solution | error | _) _ mined ⟨calm, evidence⟩
    · obtain ⟨input, member, sameRound, source⟩ := evidence solution rfl
      simp only [followedBy_ok, wp_lift]
      refine wp_mono (validateSolution_spec solution details.round details.desiredTargets mined) ?_
      rintro outcome _ final ⟨stillCalm, extended, checked⟩
      refine ⟨stillCalm, kept, fun result finished => ?_⟩
      obtain ⟨rfl, round⟩ := checked result finished
      exact ⟨input, extended.subset member, sameRound, round, source⟩
    · exact ⟨by simp, kept, by simp⟩
    · exact absurd rfl calm
  · rintro error store after ⟨_, kept, _⟩
    exact ⟨by simp, kept, by simp⟩
  · rintro store after ⟨calm, _⟩
    exact absurd rfl calm

def CallKeeps (chain : SnapshotChain T) (nPages : Nat) (details : BlockDetails)
    (before after : MinerState T) (trace : MinerTrace T) : Prop :=
  after.snapshot.Faithful chain nPages ∧ ∀ solution, after.cachedSolution = some solution →
    before.cachedSolution = some solution ∨ MinedFrom chain nPages details trace solution

theorem refreshCache_spec (details : BlockDetails) (doReduce : Bool) (state : MinerState T)
    (trace : MinerTrace T) (faithful : state.snapshot.Faithful chain nPages) :
    wp (chainMonitor chain nPages) (refreshCache details doReduce)
      (fun _ store after => CallKeeps chain nPages details state store after) state trace := by
  simp only [refreshCache, wp_bind, wp_load, followedBy_ok]
  split
  · simp only [wp_bind, wp_zoom]
    refine wp_mono (mineAndValidate_spec details doReduce state.snapshot trace faithful) ?_
    rintro (solution | error | _) snapshot after ⟨calm, kept, evidence⟩
    · refine ⟨kept, fun cached same => Or.inr ?_⟩
      simp only [Option.some.injEq] at same
      subst cached
      exact evidence solution rfl
    · exact ⟨kept, fun cached same => Or.inl same⟩
    · exact absurd rfl calm
  · exact ⟨faithful, fun cached same => Or.inl same⟩

theorem submitSolution_store {γ : Type} {M : Monitor (Op T) Resp γ}
    (permissive : ∀ ghost op, M.allows ghost op) (config : ProcessConfig) (details : BlockDetails)
    (solution : PagedRawSolution T) (state : MinerState T) (ghost : γ) :
    wp M (submitSolution config details solution)
      (fun _ store _ => store.snapshot = state.snapshot ∧
        store.cachedSolution = state.cachedSolution) state ghost :=
  wp_free_of_issuing (submitSolution_issues config details solution state)
    fun ghost op _ => permissive ghost op

theorem checkPhase_spec (minBlocks : Nat) (details : BlockDetails) (state : MinerState T)
    (trace : MinerTrace T) (faithful : state.snapshot.Faithful chain nPages) :
    wp (chainMonitor chain nPages) (checkPhase minBlocks details)
      (fun _ store _ => store.snapshot.Faithful chain nPages ∧
        store.cachedSolution = state.cachedSolution) state trace := by
  unfold checkPhase
  split
  · simp only [wp_bind, wp_zoom]
    refine wp_mono (fetchMissingSnapshotsLossy_spec details.round details.atBlock trace faithful) ?_
    rintro (_ | error | _) snapshot after ⟨_, kept⟩
    · exact ⟨kept, rfl⟩
    · exact ⟨kept, rfl⟩
    · exact ⟨kept, rfl⟩
  · split
    · exact ⟨faithful, rfl⟩
    · exact ⟨faithful, rfl⟩
  · exact ⟨faithful, rfl⟩

theorem mineAndSubmit_spec (config : ProcessConfig) (details : BlockDetails)
    (state : MinerState T) (trace : MinerTrace T)
    (faithful : state.snapshot.Faithful chain nPages) :
    wp (chainMonitor chain nPages) (mineAndSubmit config details)
      (fun _ store after => CallKeeps chain nPages details state store after) state trace := by
  unfold mineAndSubmit
  refine wp_seq (refreshCache_spec details config.doReduce state trace faithful) ?_
    (fun _ _ _ kept => kept) (fun _ _ kept => kept)
  rintro _ store after kept
  have later (final : MinerState T) (longer : MinerTrace T) (extended : after <+: longer)
      (sameSnapshot : final.snapshot = store.snapshot)
      (sameSolution : final.cachedSolution = store.cachedSolution) :
      CallKeeps chain nPages details state final longer := by
    refine ⟨sameSnapshot ▸ kept.1, fun solution cached => ?_⟩
    rw [sameSolution] at cached
    rcases kept.2 solution cached with earlier | mined
    · exact Or.inl earlier
    · exact Or.inr (mined.mono extended)
  simp only [wp_bind, wp_load, followedBy_ok]
  split
  · exact kept
  · split
    · rw [wp_lift]
      refine wp_mono (wp_tracing_extends (wp_trivial chainMonitor_permissive _ () after)) ?_
      rintro outcome _ longer ⟨_, extended⟩
      exact later store longer extended rfl rfl
    · refine wp_mono (wp_tracing_extends (submitSolution_store chainMonitor_permissive config
        details _ store after)) ?_
      rintro outcome final longer ⟨⟨sameSnapshot, sameSolution⟩, extended⟩
      exact later final longer extended sameSnapshot sameSolution

theorem processBlock_spec (config : ProcessConfig) (details : BlockDetails)
    (state : MinerState T) (trace : MinerTrace T)
    (faithful : state.snapshot.Faithful chain nPages) :
    wp (chainMonitor chain nPages) (processBlock config details)
      (fun _ store after => CallKeeps chain nPages details state store after) state trace := by
  have unchanged (store : MinerState T) (after : MinerTrace T)
      (kept : store.snapshot.Faithful chain nPages)
      (same : store.cachedSolution = state.cachedSolution) :
      CallKeeps chain nPages details state store after :=
    ⟨kept, fun solution cached => Or.inl (same ▸ cached)⟩
  refine wp_lift_seq chainMonitor_permissive (fun balance trace => ?_)
    (fun _ after => unchanged state after faithful rfl)
    (fun after => unchanged state after faithful rfl)
  cases balance with
  | finished => exact unchanged state trace faithful rfl
  | proceed =>
      refine wp_seq (checkPhase_spec config.minSignedPhaseBlocks details state trace faithful) ?_
        (fun _ store after kept => unchanged store after kept.1 kept.2)
        (fun store after kept => unchanged store after kept.1 kept.2)
      rintro flow store after ⟨kept, same⟩
      cases flow with
      | finished => exact unchanged store after kept same
      | proceed =>
          refine wp_lift_seq chainMonitor_permissive (fun submitted trace => ?_)
            (fun _ after => unchanged store after kept same)
            (fun after => unchanged store after kept same)
          split
          · exact unchanged store trace kept same
          · refine wp_mono (mineAndSubmit_spec config details store trace kept) ?_
            rintro outcome final longer ⟨finalKept, sources⟩
            refine ⟨finalKept, fun solution cached => ?_⟩
            rw [← same]
            exact sources solution cached

def Consistent (chain : SnapshotChain T) (nPages : Nat) (env : MinerEnv T) : Prop :=
  ∀ history op, chain.Agrees nPages op (env.answer history op)

theorem handleBlock_keeps (config : ProcessConfig) (env : MinerEnv T)
    (consistent : Consistent chain nPages env) (details : BlockDetails) (state : MinerState T)
    (history : MinerTrace T) (faithful : state.snapshot.Faithful chain nPages) :
    let block := handleBlock config env details state history
    CallKeeps chain nPages details state block.result.store block.result.trace := by
  have kept := (wp_run env history (processBlock_spec config details state [] faithful)
    (tracing_expected env consistent _ state [] history)).2
  simp only [chainMonitor, tracing_after, List.nil_append] at kept
  exact kept

section Runs

variable {config : ProcessConfig} {env : MinerEnv T} {state : MinerState T}
  {history : MinerTrace T} {blocks : List (ProcessedBlock T)}

theorem MinerRun.faithful (consistent : Consistent chain nPages env)
    (reached : MinerRun config env nPages state history blocks) :
    state.snapshot.Faithful chain nPages := by
  induction reached with
  | start => exact Snapshot.faithful_new chain nPages
  | cleared _ ih => exact ih.clear
  | processed details _ _ ih => exact (handleBlock_keeps config env consistent details _ _ ih).1

theorem MinerRun.minedFrom (consistent : Consistent chain nPages env)
    (reached : MinerRun config env nPages state history blocks) :
    ∀ solution, state.cachedSolution = some solution →
      ∃ block ∈ blocks, MinedFrom chain nPages block.details block.result.trace solution :=
  reached.cachedBy (MinedFrom chain nPages) fun state history _ details before =>
    (handleBlock_keeps config env consistent details state history (before.faithful consistent)).2

end Runs

theorem lastPage_eq {nPages : Nat} (positive : 1 ≤ nPages) (fits : nPages < 2 ^ 32) :
    lastPage nPages = nPages - 1 := by
  unfold lastPage
  omega

/-- From every state the miner task can be in, fetching never trips the page assertion,
a successful strict fetch leaves exactly the block's snapshot of the round in the cache,
and the cached solution comes from the snapshot of its own round. -/
theorem snapshot_cache_exact (config : ProcessConfig) (chain : SnapshotChain T) (nPages : Nat)
    (positive : 1 ≤ nPages) (fits : nPages < 2 ^ 32) (env : MinerEnv T)
    (consistent : Consistent chain nPages env) (state : MinerState T) (history : MinerTrace T)
    (blocks : List (ProcessedBlock T)) (reached : MinerRun config env nPages state history blocks)
    (storage : AtBlock) (round : Nat) :
    let strict := run env (fetchMissingSnapshots storage round) state.snapshot history
    let lossy := run env (fetchMissingSnapshotsLossy storage round) state.snapshot history
    strict.outcome ≠ .panic ∧ lossy.outcome ≠ .panic ∧
      (strict.outcome = .ok () → ∃ target voters, strict.store.get = some (target, voters) ∧
        chain.targetPage storage round (nPages - 1) = some target ∧
        voters.map some = (List.range nPages).map (chain.voterPage storage round)) ∧
      ∀ solution, state.cachedSolution = some solution → ∃ block ∈ blocks, ∃ input,
        ⟨.mineSolution input, .mined solution⟩ ∈ block.result.trace ∧
        input.round = solution.round ∧ block.details.round = solution.round ∧
        chain.targetPage block.details.atBlock solution.round (nPages - 1) =
          some input.allTargets ∧
        input.voterPages.map some =
          (List.range nPages).map (chain.voterPage block.details.atBlock solution.round) := by
  intro strict lossy
  have faithful := reached.faithful consistent
  have sources := reached.minedFrom consistent
  have fetched := (wp_run env history (fetchMissingSnapshots_spec round storage [] faithful)
    (tracing_expected env consistent _ _ [] history)).2
  have tried := (wp_run env history (fetchMissingSnapshotsLossy_spec round storage [] faithful)
    (tracing_expected env consistent _ _ [] history)).2
  refine ⟨fetched.1, tried.1, ?_, ?_⟩
  · intro finished
    rw [← lastPage_eq positive fits]
    exact fetched.2.2 finished
  · intro solution cached
    obtain ⟨block, member, input, mined, inputRound, solutionRound, source⟩ :=
      sources solution cached
    refine ⟨block, member, input, mined, ?_, solutionRound.symm, ?_⟩
    · rw [inputRound, solutionRound]
    · rw [← lastPage_eq positive fits, solutionRound]
      exact source

def sampleChain : SnapshotChain sampleConfig where
  voterPage _ round page := some (10 * round + page)
  targetPage _ round page := some (100 * round + page)
  voterHash := id
  targetHash := id
  voterHash_injective := Function.injective_id
  targetHash_injective := Function.injective_id

def sampleAnswer : (op : Op sampleConfig) → Resp op
  | .account _ => .ok (some 1)
  | .voterSnapshotHash _ round page => .ok (some (some (10 * round + page)))
  | .voterSnapshot _ round page => .ok (some (some (10 * round + page)))
  | .targetSnapshotHash _ round page => .ok (some (some (100 * round + page)))
  | .targetSnapshot _ round page => .ok (some (some (100 * round + page)))
  | .pages => 2
  | op => unavailable op

theorem sampleAnswer_consistent :
    Consistent sampleChain 2 ⟨fun _ => sampleAnswer, fun _ _ => false⟩ := by
  intro history op
  cases op <;> first | trivial | exact ⟨_, rfl, rfl⟩

theorem snapshot_cache_exact_next_round :
    let env : MinerEnv sampleConfig := ⟨fun _ => sampleAnswer, fun _ _ => false⟩
    let block := handleBlock ⟨.always, false, 0, 10, false⟩ env ⟨40, .snapshot 0, 2, 6, 3, 40⟩
      (MinerState.initial 2) []
    let strict := run env (fetchMissingSnapshots 50 7) block.result.store.snapshot
      block.result.trace
    strict.outcome = .ok () ∧ ∃ target voters, strict.store.get = some (target, voters) ∧
      sampleChain.targetPage 50 7 1 = some target ∧
      voters.map some = [sampleChain.voterPage 50 7 0, sampleChain.voterPage 50 7 1] := by
  intro env block strict
  have finished : strict.outcome = .ok () := by decide +kernel
  have reached : MinerRun ⟨.always, false, 0, 10, false⟩ env 2 block.result.store
      block.result.trace [block] := MinerRun.processed _ MinerRun.start (by simp)
  exact ⟨finished, (snapshot_cache_exact _ sampleChain 2 (by decide) (by decide) env
    sampleAnswer_consistent _ _ _ reached 50 7).2.2.1 finished⟩

end LeanStakingMiner
