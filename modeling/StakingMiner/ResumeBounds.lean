import StakingMiner.BlockLogic
import StakingMiner.ProgramTrace

/-!
The indices of a resumed submission. The pages that are missing are counted up to the
current number of pages, the cached solution has as many as were asked for when it was
mined, and only its round is compared before it is used again.
-/

namespace LeanStakingMiner

open LeanProgram

variable {T : MinerConfig}

def minedMonitor : Monitor (Op T) Resp (MinerTrace T) :=
  Monitor.recording (fun _ _ => True) fun op => op.kind = .solver

variable {mined : MinerTrace T}

theorem minedMonitor_ignores {kinds : List OpKind} (unsolved : .solver ∉ kinds) (op : Op T)
    (member : op.kind ∈ kinds) : minedMonitor.Ignores mined op := by
  refine recording_ignores (decide_eq_false ?_)
  rintro same
  exact unsolved (same ▸ member)

def MinedFor (details : BlockDetails) (mined : MinerTrace T) (solution : PagedRawSolution T) :
    Prop :=
  solution.round = details.round ∧ ∃ input, input.pages = details.nPages ∧
    ⟨.mineSolution input, .mined solution⟩ ∈ mined

theorem mineSolution_mined (target : T.TargetPage) (voters : List T.VoterPage)
    (nPages round desiredTargets : Nat) (doReduce : Bool) :
    wp minedMonitor (mineSolution target voters nPages round desiredTargets doReduce)
      (fun outcome _ after => ∀ solution, outcome = .ok solution →
        ∃ input, input.pages = nPages ∧ ⟨.mineSolution input, .mined solution⟩ ∈ after)
      () mined := by
  rw [mineSolution, wp_bind, wp_ask]
  refine ⟨trivial, fun bound _ => ?_⟩
  rw [followedBy_ok, wp_bind, wp_ask]
  refine ⟨trivial, fun answer _ => ?_⟩
  rw [followedBy_ok]
  cases answer with
  | mined solution =>
      rintro _ ⟨⟩
      exact ⟨_, rfl, List.mem_append_right _ (List.mem_singleton_self _)⟩
  | _ => exact fun _ => nofun

theorem mineAndValidate_mined (details : BlockDetails) (doReduce : Bool)
    (snapshot : Snapshot T) :
    wp minedMonitor (mineAndValidate details doReduce)
      (fun outcome _ after => ∀ solution, outcome = .ok solution →
        MinedFor details after solution) snapshot mined := by
  rw [mineAndValidate, wp_bind]
  refine wp_mono (wp_of_issuing (fetchMissingSnapshots_issues details.atBlock details.round
    snapshot) (minedMonitor_ignores (by simp))) ?_
  rintro (_ | error | _) fetched _ ⟨rfl, _⟩
  · rw [followedBy_ok, wp_bind, wp_load, followedBy_ok]
    split
    · exact fun _ => by simp
    · rw [wp_bind, wp_lift]
      refine wp_withTimeout (wp_mono (mineSolution_mined _ _ _ _ _ doReduce) ?_)
        fun _ _ => by simp
      rintro (solution | error | _) _ after returned
      · obtain ⟨input, asked, found⟩ := returned solution rfl
        rw [followedBy_ok, wp_lift]
        refine (validateSolution_issues solution details.round details.desiredTargets).keeps
          (minedMonitor_ignores (by simp)) ?_
        rintro outcome ⟨_, checked⟩ accepted finished
        obtain ⟨rfl, sameRound⟩ := checked accepted finished
        exact ⟨sameRound, input, asked, found⟩
      · exact fun _ => by simp
      · exact fun _ => by simp
  · exact fun _ => by simp
  · exact fun _ => by simp

def CachedFrom (details : BlockDetails) (before : MinerState T)
    (after : Option (PagedRawSolution T)) (mined : MinerTrace T) : Prop :=
  ∀ solution, after = some solution →
    before.cachedSolution = some solution ∨ MinedFor details mined solution

theorem refreshCache_mined (details : BlockDetails) (doReduce : Bool) (state : MinerState T) :
    wp minedMonitor (refreshCache details doReduce)
      (fun _ store after => CachedFrom details state store.cachedSolution after) state mined := by
  rw [refreshCache, wp_bind, wp_load, followedBy_ok]
  split
  · rw [wp_bind, wp_zoom]
    refine wp_mono (mineAndValidate_mined details doReduce state.snapshot) ?_
    rintro (solution | error | _) snapshot after returned
    · rintro _ ⟨⟩
      exact Or.inr (returned solution rfl)
    · exact fun _ same => Or.inl same
    · exact fun _ same => Or.inl same
  · exact fun _ same => Or.inl same

theorem mineAndSubmit_mined (config : ProcessConfig) (details : BlockDetails)
    (state : MinerState T) :
    wp minedMonitor (mineAndSubmit config details)
      (fun _ store after => CachedFrom details state store.cachedSolution after) state mined := by
  refine wp_seq (refreshCache_mined details config.doReduce state) ?_ (fun _ _ _ cached => cached)
    (fun _ _ cached => cached)
  intro _ store after cached
  rw [wp_bind, wp_load, followedBy_ok]
  split
  · exact cached
  · split
    · rw [wp_lift]
      exact (executeShadyBehavior_issues details.phase).keeps (minedMonitor_ignores (by simp))
        fun _ _ => cached
    · refine wp_mono (wp_of_issuing (submitSolution_issues config details _ store)
        (minedMonitor_ignores (by simp [submissionKinds]))) ?_
      rintro _ final _ ⟨rfl, _, same⟩
      rw [same]
      exact cached

theorem processBlock_mined (config : ProcessConfig) (details : BlockDetails)
    (state : MinerState T) :
    wp minedMonitor (processBlock config details)
      (fun _ store after => CachedFrom details state store.cachedSolution after) state [] :=
  wp_processBlock config details state (minedMonitor_ignores (by simp [readKinds]))
    (fun _ _ _ same => Or.inl same) fun _ _ _ => mineAndSubmit_mined config details state

theorem handleBlock_cached (config : ProcessConfig) (env : MinerEnv T) (details : BlockDetails)
    (state : MinerState T) (history : MinerTrace T) (solution : PagedRawSolution T)
    (cached : (handleBlock config env details state history).result.store.cachedSolution =
      some solution) :
    state.cachedSolution = some solution ∨ MinedFor details
      (handleBlock config env details state history).result.trace solution := by
  have sources := (wp_run env history (processBlock_mined config details state)
    (recording_expected fun _ _ => trivial)).2
  rcases sources solution cached with kept | ⟨sameRound, input, asked, found⟩
  · exact Or.inl kept
  · rw [minedMonitor, recording_after] at found
    exact Or.inr ⟨sameRound, input, asked, (List.mem_filter.mp found).1⟩

theorem MinerRun.minedFor {config : ProcessConfig} {env : MinerEnv T} {pages : Nat}
    {state : MinerState T} {history : MinerTrace T} {blocks : List (ProcessedBlock T)}
    (reached : MinerRun config env pages state history blocks) :
    ∀ solution, state.cachedSolution = some solution →
      ∃ block ∈ blocks, MinedFor block.details block.result.trace solution :=
  reached.cachedBy MinedFor fun state history _ details _ =>
    handleBlock_cached config env details state history

theorem MinerRun.handled {config : ProcessConfig} {env : MinerEnv T} {pages : Nat}
    {state : MinerState T} {history : MinerTrace T} {blocks : List (ProcessedBlock T)}
    (reached : MinerRun config env pages state history blocks) :
    ∀ block ∈ blocks, block = handleBlock config env block.details block.before block.history := by
  induction reached with
  | start => exact fun _ => nofun
  | cleared _ ih => exact ih
  | processed details _ _ ih =>
      intro block member
      rcases List.mem_append.mp member with earlier | now
      · exact ih block earlier
      · rw [List.mem_singleton.mp now]
        rfl

/-- What is assumed of the SDK miner: as many pages as it was asked for. -/
def ExactPages (env : MinerEnv T) : Prop :=
  ∀ history input solution, env.answer history (.mineSolution input) = .mined solution →
    solution.solutionPages.length = input.pages

theorem ExactPages.length_mined {env : MinerEnv T} (exact : ExactPages env)
    {config : ProcessConfig} {pages : Nat} {state : MinerState T} {history : MinerTrace T}
    {blocks : List (ProcessedBlock T)} (reached : MinerRun config env pages state history blocks)
    {block : ProcessedBlock T} (member : block ∈ blocks) {solution : PagedRawSolution T}
    (mined : MinedFor block.details block.result.trace solution) :
    solution.solutionPages.length = block.details.nPages := by
  obtain ⟨_, input, asked, recorded⟩ := mined
  let Sized : (op : Op T) → Resp op → Prop := fun op answer => ∀ input solution,
    (⟨op, answer⟩ : Event (Op T) Resp) = ⟨.mineSolution input, .mined solution⟩ →
      solution.solutionPages.length = input.pages
  have meets (history : MinerTrace T) (op : Op T) : Sized op (env.answer history op) := by
    intro input solution same
    obtain ⟨rfl, answered⟩ := Sigma.mk.inj same
    exact exact history input solution (eq_of_heq answered)
  rw [reached.handled block member] at recorded
  rw [← asked]
  exact run_answers env meets _ _ _ _ recorded input solution rfl

theorem mem_getMissingPages {submission : IncompleteSubmission} {page : Nat} :
    page ∈ submission.getMissingPages ↔ page < submission.nPages ∧ page ∉ submission.pages := by
  simp [IncompleteSubmission.getMissingPages]

theorem currentSubmission_incomplete {nPages : Nat} {metadata : SubmissionMetadata}
    {submission : IncompleteSubmission}
    (incomplete : currentSubmission nPages (some metadata) = .incomplete submission) :
    submission = ⟨metadata.claimedScore, submittedPages metadata.pages, nPages⟩ := by
  rw [currentSubmission] at incomplete
  split at incomplete
  · exact nomatch incomplete
  · exact (CurrentSubmission.incomplete.inj incomplete).symm

/-- In every state of the miner task, the indices the resume branch uses for a submission
of the cached solution's round and score lie inside the solution exactly when no page beyond
those of the block that mined it is still missing. -/
theorem resume_indices_in_bounds_iff (config : ProcessConfig) (env : MinerEnv T)
    (exact : ExactPages env) (pages : Nat) (state : MinerState T) (history : MinerTrace T)
    (blocks : List (ProcessedBlock T)) (reached : MinerRun config env pages state history blocks)
    (solution : PagedRawSolution T) (cached : state.cachedSolution = some solution) :
    ∃ block ∈ blocks, MinedFor block.details block.result.trace solution ∧
      ∀ (details : BlockDetails) (metadata : SubmissionMetadata)
        (submission : IncompleteSubmission), details.round = solution.round →
        metadata.claimedScore = solution.score →
        currentSubmission details.nPages (some metadata) = .incomplete submission →
        ((∀ page ∈ submission.getMissingPages, page < solution.solutionPages.length) ↔
          ∀ page < details.nPages, block.details.nPages ≤ page →
            page ∈ submittedPages metadata.pages) := by
  obtain ⟨block, member, mined⟩ := reached.minedFor solution cached
  refine ⟨block, member, mined, ?_⟩
  intro details metadata submission _ _ incomplete
  rw [currentSubmission_incomplete incomplete, exact.length_mined reached member mined]
  constructor
  · intro inside page bound beyond
    by_contra missing
    exact absurd (inside page (mem_getMissingPages.mpr ⟨bound, missing⟩)) (Nat.not_lt.mpr beyond)
  · intro stored page member
    obtain ⟨bound, missing⟩ := mem_getMissingPages.mp member
    by_contra outside
    exact missing (stored page bound (Nat.not_lt.mp outside))

def resumeAnswer : (op : Op sampleConfig) → Resp op
  | .account _ => .ok (some 1)
  | .storageAtHead => .ok 51
  | .submissionMetadata _ _ => .ok (some ⟨⟨5, 5, 5⟩, [false]⟩)
  | .voterSnapshotHash _ _ page | .targetSnapshotHash _ _ page => .ok (some (some page))
  | .voterSnapshot _ _ page | .targetSnapshot _ _ page => .ok (some (some page))
  | .pages => 1
  | .mineSolution input => .mined ⟨List.replicate input.pages 3, ⟨5, 5, 5⟩, 7⟩
  | .minimumScore block => if block = 50 then .error .backendError else .ok none
  | op => unavailable op

def resumeEnv : MinerEnv sampleConfig := ⟨fun _ => resumeAnswer, fun _ _ => false⟩

theorem resumeEnv_exact : ExactPages resumeEnv := by
  intro history input solution answered
  cases answered
  exact List.length_replicate

def resumeConfig : ProcessConfig := ⟨.ifLeading, false, 0, 10, false⟩

def minedBlock : ProcessedBlock sampleConfig :=
  handleBlock resumeConfig resumeEnv ⟨50, .signed 20, 1, 7, 1, 50⟩ (MinerState.initial 1) []

theorem minedBlock_reached : MinerRun resumeConfig resumeEnv 1 minedBlock.result.store
    minedBlock.result.trace [minedBlock] :=
  MinerRun.processed _ MinerRun.start (by simp)

theorem minedBlock_cached :
    minedBlock.result.store.cachedSolution = some ⟨[3], ⟨5, 5, 5⟩, 7⟩ := by
  rfl

theorem resume_indices_in_bounds_iff_upgraded :
    currentSubmission 2 (some ⟨⟨5, 5, 5⟩, [false, true]⟩) = .incomplete ⟨⟨5, 5, 5⟩, {1}, 2⟩ ∧
      ∀ page ∈ IncompleteSubmission.getMissingPages ⟨⟨5, 5, 5⟩, {1}, 2⟩, page < 1 := by
  obtain ⟨block, member, _, bounds⟩ := resume_indices_in_bounds_iff resumeConfig resumeEnv
    resumeEnv_exact 1 _ _ _ minedBlock_reached _ minedBlock_cached
  obtain rfl := List.mem_singleton.mp member
  refine ⟨by decide, (bounds ⟨51, .signed 19, 2, 7, 1, 51⟩ ⟨⟨5, 5, 5⟩, [false, true]⟩
    ⟨⟨5, 5, 5⟩, {1}, 2⟩ rfl rfl (by decide)).mpr ?_⟩
  intro page bound beyond
  have last : page = 1 := by
    change 1 ≤ page at beyond
    change page < 2 at bound
    omega
  rw [last]
  decide

/-- The runtime is upgraded to two pages after block 50. In block 51 of the same round both
pages are missing, the second one has no solution, and the task panics. -/
theorem resume_after_upgrade_panics :
    let upgraded := handleBlock resumeConfig resumeEnv ⟨51, .signed 19, 2, 7, 1, 51⟩
      minedBlock.result.store minedBlock.result.trace
    MinerRun resumeConfig resumeEnv 1 upgraded.result.store
        (minedBlock.result.trace ++ upgraded.result.trace) [minedBlock, upgraded] ∧
      ExactPages resumeEnv ∧
      minedBlock.result.store.cachedSolution = some ⟨[3], ⟨5, 5, 5⟩, 7⟩ ∧
      currentSubmission 2 (some ⟨⟨5, 5, 5⟩, [false]⟩) = .incomplete ⟨⟨5, 5, 5⟩, ∅, 2⟩ ∧
      1 ∈ IncompleteSubmission.getMissingPages ⟨⟨5, 5, 5⟩, ∅, 2⟩ ∧
      upgraded.result.outcome = .panic := by
  intro upgraded
  refine ⟨MinerRun.processed _ minedBlock_reached ?_, resumeEnv_exact, minedBlock_cached,
    by decide, by decide, by decide +kernel⟩
  intro block member
  rw [List.mem_singleton.mp member]
  decide +kernel

end LeanStakingMiner
