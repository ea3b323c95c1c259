import StakingMiner.MinerLogic
import StakingMiner.SnapshotLogic

/-!
The frame of `process_block`. Before it mines it only reads the balance, the snapshot and
its own submission, so a monitor that ignores these reads only has to look at what comes
after them.
-/

namespace LeanStakingMiner

open LeanProgram

variable {T : MinerConfig} {γ : Type} {M : Monitor (Op T) Resp γ} {ghost : γ}

def readKinds : List OpKind := [.head, .submission, .snapshot, .other]

theorem Issues.liftSeq {α β σ : Type} {kinds : List OpKind} {task : Task T α}
    {rest : α → Miner T σ β} {middle : Outcome Error α → Prop}
    {post : Outcome Error β → σ → γ → Prop} {store : σ} (issues : Issues kinds task middle)
    (ignored : ∀ op : Op T, op.kind ∈ kinds → M.Ignores ghost op)
    (second : ∀ value, middle (.ok value) → wp M (rest value) post store ghost)
    (failed : ∀ error, middle (.err error) → post (.err error) store ghost)
    (panicked : middle .panic → post .panic store ghost) :
    wp M (task.lift >>= rest) post store ghost := by
  rw [wp_bind, wp_lift]
  refine issues.keeps ignored ?_
  rintro (value | error | _) holds
  · exact second value holds
  · exact failed error holds
  · exact panicked holds

def miningKinds : List OpKind := [.snapshot, .solver, .other]

theorem mineSolution_issues (target : T.TargetPage) (voters : List T.VoterPage)
    (nPages round desiredTargets : Nat) (doReduce : Bool) :
    Issues [.solver, .other] (mineSolution target voters nPages round desiredTargets doReduce)
      fun _ => True := by
  refine ((ask_issues .pages).mono (by simp [Op.kind]) fun _ _ => trivial).andThen fun bound => ?_
  refine ((ask_issues (.mineSolution _)).mono (by simp [Op.kind]) fun _ _ => trivial).andThen
    fun answer => ?_
  cases answer <;> trivial

theorem mineAndValidate_issues (details : BlockDetails) (doReduce : Bool)
    (snapshot : Snapshot T) :
    wp (kindMonitor miningKinds) (mineAndValidate details doReduce) (fun _ _ _ => True)
      snapshot () := by
  have kept {kinds : List OpKind} (subset : kinds ⊆ miningKinds) (op : Op T)
      (member : op.kind ∈ kinds) : (kindMonitor miningKinds).Ignores () op :=
    ⟨subset member, fun _ => rfl⟩
  rw [mineAndValidate, wp_bind]
  refine wp_mono (wp_of_issuing (fetchMissingSnapshots_issues details.atBlock details.round
    snapshot) (kept (by simp [miningKinds]))) ?_
  rintro (_ | error | _) fetched _ _
  · rw [followedBy_ok, wp_bind, wp_load, followedBy_ok]
    split
    · trivial
    · refine ((mineSolution_issues _ _ _ _ _ doReduce).timed _).liftSeq
        (kept (by simp [miningKinds])) (fun solution _ => ?_) (fun _ _ => trivial) fun _ => trivial
      rw [wp_lift]
      exact (validateSolution_issues solution details.round details.desiredTargets).keeps
        (kept (by simp [miningKinds])) fun _ _ => trivial
  · trivial
  · trivial

theorem refreshCache_issues (details : BlockDetails) (doReduce : Bool) (state : MinerState T) :
    wp (kindMonitor miningKinds) (refreshCache details doReduce)
      (fun _ store _ => store.lastOutcompetedRound = state.lastOutcompetedRound) state () := by
  rw [refreshCache, wp_bind, wp_load, followedBy_ok]
  split
  · rw [wp_bind, wp_zoom]
    refine wp_mono (mineAndValidate_issues details doReduce state.snapshot) ?_
    rintro (solution | error | _) snapshot _ _
    · rfl
    · rfl
    · rfl
  · rfl

theorem wp_checkPhase (minBlocks : Nat) (details : BlockDetails) (state : MinerState T)
    (ignored : ∀ op : Op T, op.kind ∈ [OpKind.snapshot] → M.Ignores ghost op) :
    wp M (checkPhase minBlocks details)
      (fun outcome store after => after = ghost ∧ (∃ snapshot, store = { state with snapshot }) ∧
        (outcome = .ok .proceed → store = state ∧
          ∃ blocks, details.phase = .signed blocks ∧ minBlocks < blocks)) state ghost := by
  unfold checkPhase
  split
  · rw [wp_bind, wp_zoom]
    refine wp_mono (wp_of_issuing (fetchMissingSnapshotsLossy_issues details.atBlock
      details.round state.snapshot) ignored) ?_
    rintro (_ | error | _) snapshot after ⟨rfl, _⟩
    · exact ⟨rfl, ⟨snapshot, rfl⟩, by simp⟩
    · exact ⟨rfl, ⟨snapshot, rfl⟩, by simp⟩
    · exact ⟨rfl, ⟨snapshot, rfl⟩, by simp⟩
  · rename_i blocks phase
    split
    · exact ⟨rfl, ⟨state.snapshot, rfl⟩, by simp⟩
    · exact ⟨rfl, ⟨state.snapshot, rfl⟩, fun _ => ⟨rfl, blocks, phase, by omega⟩⟩
  · exact ⟨rfl, ⟨state.snapshot, rfl⟩, by simp⟩

theorem wp_processBlock_signed (config : ProcessConfig) (details : BlockDetails)
    (state : MinerState T) {post : Outcome Error Unit → MinerState T → γ → Prop}
    (ignored : ∀ op : Op T, op.kind ∈ [.snapshot, .other] → M.Ignores ghost op)
    (early : ∀ outcome snapshot, post outcome { state with snapshot } ghost)
    (signed : ∀ blocks, details.phase = .signed blocks → config.minSignedPhaseBlocks < blocks →
      wp M (processSignedBlock config details) post state ghost) :
    wp M (processBlock config details) post state ghost := by
  have unchanged (outcome : Outcome Error Unit) : post outcome state ghost :=
    early outcome state.snapshot
  refine (fetchBalance_issues details.atBlock).liftSeq (fun op other => ignored op (by simp_all))
    (fun balance _ => ?_) (fun _ _ => unchanged _) fun _ => unchanged _
  cases balance with
  | finished => exact unchanged _
  | proceed =>
      rw [wp_bind]
      refine wp_mono (wp_checkPhase config.minSignedPhaseBlocks details state
        fun op read => ignored op (by simp_all)) ?_
      rintro (flow | error | _) store after ⟨rfl, ⟨snapshot, rfl⟩, passed⟩
      · cases flow with
        | finished => exact early _ snapshot
        | proceed =>
            obtain ⟨same, blocks, phase, enough⟩ := passed rfl
            rw [followedBy_ok, same]
            exact signed blocks phase enough
      · exact early _ snapshot
      · exact early _ snapshot

theorem wp_processBlock (config : ProcessConfig) (details : BlockDetails)
    (state : MinerState T) {post : Outcome Error Unit → MinerState T → γ → Prop}
    (ignored : ∀ op : Op T, op.kind ∈ readKinds → M.Ignores ghost op)
    (early : ∀ outcome snapshot, post outcome { state with snapshot } ghost)
    (mining : ∀ blocks, details.phase = .signed blocks → config.minSignedPhaseBlocks < blocks →
      wp M (mineAndSubmit config details) post state ghost) :
    wp M (processBlock config details) post state ghost := by
  have reads {kinds : List OpKind} (subset : kinds ⊆ readKinds) (op : Op T)
      (member : op.kind ∈ kinds) : M.Ignores ghost op := ignored op (subset member)
  refine wp_processBlock_signed config details state (reads (by simp [readKinds])) early ?_
  intro blocks phase enough
  refine (alreadySubmitted_issues details).liftSeq (reads (by simp [readKinds]))
    (fun submitted _ => ?_) (fun _ _ => early _ state.snapshot) fun _ => early _ state.snapshot
  cases submitted with
  | true => exact early _ state.snapshot
  | false => exact mining blocks phase enough

end LeanStakingMiner
