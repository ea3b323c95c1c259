import StakingMiner.BlockLogic
import StakingMiner.ProgramEnds

/-!
Failures of the solver on their way to the miner task. `mine_solution` wraps what the
blocking task returns, `process_block` passes the error on unchanged, and the task looks
it up in its list of recoverable errors.
-/

namespace LeanStakingMiner

open LeanProgram

variable {T : MinerConfig} {σ τ α β : Type}

def MineResult.error : MineResult T → Option Error
  | .mined _ => none
  | .minerError message | .joinError message => some (.other message)
  | .infeasible message => some (.feasibility message)

/-- A failure of the solver is what the program returns, unless the mining timer fired as
the failure was delivered. -/
def Delivered (env : MinerEnv T) (history : MinerTrace T) (outcome : Outcome Error α)
    (after : MinerTrace T) : Prop :=
  ∃ passed, after = history ++ passed ∧
    ∀ input answer error, ⟨.mineSolution input, answer⟩ ∈ passed → answer.error = some error →
      outcome = .err (if env.fired true after then .timeout (.mining 600) else error)

def Delivers (program : Miner T σ α) : Prop :=
  ∀ env store history, Ends env program (fun outcome _ => Delivered env history outcome)
    store history

theorem delivers_of_kinds {kinds : List OpKind} {program : Miner T σ α} (unsolved : .solver ∉ kinds)
    (issues : ∀ store, wp (kindMonitor kinds) program (fun _ _ _ => True) store ()) :
    Delivers program := by
  intro env store history
  refine (ends_of_issuing (issues store)).mono ?_
  rintro outcome _ after ⟨_, passed, extended, issued⟩
  exact ⟨passed, extended, fun _ _ _ member _ => absurd (issued _ member) unsolved⟩

theorem Issues.delivers {kinds : List OpKind} {task : Task T α} {post : Outcome Error α → Prop}
    (issues : Issues kinds task post) (unsolved : .solver ∉ kinds) : Delivers task :=
  delivers_of_kinds unsolved fun _ => wp_mono issues fun _ _ _ _ => trivial

theorem silent_delivers {program : Miner T σ α}
    (silent : ∀ store, wp (kindMonitor []) program (fun _ _ _ => True) store ()) :
    Delivers program :=
  delivers_of_kinds (by simp) silent

theorem return_delivers (value : α) : Delivers (pure value : Miner T σ α) :=
  silent_delivers fun _ => trivial

theorem Delivers.bind {program : Miner T σ α} {rest : α → Miner T σ β}
    (first : Delivers program) (second : ∀ value, Delivers (rest value)) :
    Delivers (program >>= rest) := by
  intro env store history
  refine (first env store history).seq ?_ ?_ ?_
  · rintro value after _ ⟨passed, rfl, unfailed⟩
    refine (second value env after _).mono ?_
    rintro outcome _ last ⟨later, rfl, delivered⟩
    refine ⟨passed ++ later, by simp, fun input answer error member failed => ?_⟩
    rcases List.mem_append.mp member with early | late
    · exact nomatch unfailed input answer error early failed
    · exact delivered input answer error late failed
  · rintro error after _ ⟨passed, rfl, delivered⟩
    refine ⟨passed, rfl, fun input answer failure member failed => ?_⟩
    exact congrArg Outcome.err (Outcome.err.inj (delivered input answer failure member failed))
  · rintro after _ ⟨passed, rfl, unfailed⟩
    exact ⟨passed, rfl, fun input answer error member failed =>
      nomatch unfailed input answer error member failed⟩

theorem Delivers.zoom {program : Miner T τ α} (delivers : Delivers program) (lens : Lens σ τ) :
    Delivers (program.zoom lens) := by
  intro env store history
  rw [ends_zoom]
  exact delivers env (lens.view store) history

theorem Delivers.lift {task : Task T α} (delivers : Delivers task) :
    Delivers (task.lift : Miner T σ α) :=
  delivers.zoom Lens.unit

theorem load_delivers {rest : σ → Miner T σ α} (delivers : ∀ store, Delivers (rest store)) :
    Delivers (Program.load >>= rest) := by
  have loads : Delivers (Program.load : Miner T σ σ) := silent_delivers fun _ => trivial
  exact loads.bind delivers

theorem delivered_solved {env : MinerEnv T} {history : MinerTrace T} {outcome : Outcome Error α}
    {bound : Nat} {input : MineInput T} {mined : MineResult T} {after : MinerTrace T}
    (extended : after = history ++ [⟨.pages, bound⟩] ++ [⟨.mineSolution input, mined⟩])
    (returned : ∀ error, mined.error = some error →
      outcome = .err (if env.fired true after then .timeout (.mining 600) else error)) :
    Delivered env history outcome after := by
  refine ⟨[⟨.pages, bound⟩, ⟨.mineSolution input, mined⟩], by simp [extended], ?_⟩
  intro given answer error member failed
  have same : answer = mined := by simp_all
  exact returned error (same ▸ failed)

theorem mineSolution_delivers (target : T.TargetPage) (voters : List T.VoterPage)
    (nPages round desiredTargets : Nat) (doReduce : Bool) :
    Delivers (withTimeout (.mining 600)
      (mineSolution target voters nPages round desiredTargets doReduce)) := by
  intro env store history
  rw [withTimeout, ends_bind, tokioTimeout]
  change Ends env (.call _ fun bound => .unlessFired false (.call _ fun mined =>
    .unlessFired true (Program.timeout Op.suspends _))) _ store history
  rw [ends_call, ends_unlessFired]
  generalize env.answer history .pages = bound
  split
  · rw [continued_ok]
    exact (ends_fail _).mpr ⟨[⟨.pages, bound⟩], rfl, by simp⟩
  rw [ends_call, ends_unlessFired]
  generalize env.answer _ (Op.mineSolution _) = mined
  split
  · rename_i fired
    rw [continued_ok]
    refine (ends_fail _).mpr (delivered_solved rfl fun error failed => ?_)
    rw [if_pos fired]
  · rename_i waiting
    cases mined with
    | mined solution =>
        refine (ends_return _).mpr ?_
        rw [continued_ok]
        refine (ends_return _).mpr (delivered_solved rfl ?_)
        rintro _ ⟨⟩
    | minerError message =>
        refine (ends_return _).mpr ?_
        rw [continued_ok]
        refine (ends_fail _).mpr (delivered_solved rfl ?_)
        rintro _ ⟨⟩
        rw [if_neg waiting]
    | infeasible message =>
        refine (ends_return _).mpr ?_
        rw [continued_ok]
        refine (ends_fail _).mpr (delivered_solved rfl ?_)
        rintro _ ⟨⟩
        rw [if_neg waiting]
    | joinError message =>
        refine (ends_return _).mpr ?_
        rw [continued_ok]
        refine (ends_fail _).mpr (delivered_solved rfl ?_)
        rintro _ ⟨⟩
        rw [if_neg waiting]

theorem mineAndValidate_delivers (details : BlockDetails) (doReduce : Bool) :
    Delivers (mineAndValidate details doReduce : Fetch T _) := by
  have fetches : Delivers (fetchMissingSnapshots details.atBlock details.round : Fetch T _) :=
    delivers_of_kinds (by simp) fun snapshot => wp_mono
      (fetchMissingSnapshots_issues details.atBlock details.round snapshot) fun _ _ _ _ => trivial
  refine fetches.bind fun _ => load_delivers fun snapshot => ?_
  split
  · exact silent_delivers fun _ => trivial
  · refine (mineSolution_delivers _ _ _ _ _ doReduce).lift.bind fun solution => ?_
    exact ((validateSolution_issues solution details.round details.desiredTargets).delivers
      (by simp)).lift

theorem refreshCache_delivers (details : BlockDetails) (doReduce : Bool) :
    Delivers (refreshCache details doReduce : Miner T _ _) := by
  refine load_delivers fun state => ?_
  split
  · refine ((mineAndValidate_delivers details doReduce).zoom _).bind fun solution => ?_
    exact silent_delivers fun _ => trivial
  · exact return_delivers ()

theorem mineAndSubmit_delivers (config : ProcessConfig) (details : BlockDetails) :
    Delivers (mineAndSubmit config details : Miner T _ _) := by
  refine (refreshCache_delivers details config.doReduce).bind fun _ =>
    load_delivers fun state => ?_
  split
  · exact silent_delivers fun _ => trivial
  · split
    · exact ((executeShadyBehavior_issues details.phase).delivers (by simp)).lift
    · exact delivers_of_kinds (by simp [submissionKinds]) fun store =>
        wp_mono (submitSolution_issues config details _ store) fun _ _ _ _ => trivial

theorem processBlock_delivers (config : ProcessConfig) (details : BlockDetails) :
    Delivers (processBlock config details : Miner T _ _) := by
  have reads (state : MinerState T) : wp (kindMonitor [.snapshot])
      (checkPhase config.minSignedPhaseBlocks details) (fun _ _ _ => True) state () :=
    wp_mono (wp_checkPhase config.minSignedPhaseBlocks details state
      fun _ member => ⟨member, fun _ => rfl⟩) fun _ _ _ _ => trivial
  have checks := delivers_of_kinds (by simp) reads
  refine ((fetchBalance_issues details.atBlock).delivers (by simp)).lift.bind fun balance => ?_
  cases balance with
  | finished => exact return_delivers ()
  | proceed =>
      refine checks.bind fun flow => ?_
      cases flow with
      | finished => exact return_delivers ()
      | proceed =>
          refine ((alreadySubmitted_issues details).delivers (by simp)).lift.bind
            fun submitted => ?_
          cases submitted with
          | true => exact return_delivers ()
          | false => exact mineAndSubmit_delivers config details

theorem error_recoverable_iff {answer : MineResult T} {error : Error}
    (failed : answer.error = some error) :
    isCriticalMinerError error = false ↔ ∃ message, answer = .infeasible message := by
  cases answer with
  | mined solution => contradiction
  | minerError message =>
      obtain rfl := Option.some.inj failed
      simp [isCriticalMinerError]
  | infeasible message =>
      obtain rfl := Option.some.inj failed
      simp [isCriticalMinerError]
  | joinError message =>
      obtain rfl := Option.some.inj failed
      simp [isCriticalMinerError]

/-- The miner task goes on after a failure of the solver exactly when the failure is one of
feasibility, or the mining timer fires as the failure is delivered. -/
theorem solver_failure_recoverable_iff (config : ProcessConfig) (env : MinerEnv T)
    (details : BlockDetails) (state : MinerState T) (history : MinerTrace T)
    (input : MineInput T) (answer : MineResult T)
    (failed : ∀ solution, answer ≠ .mined solution)
    (solved : ⟨.mineSolution input, answer⟩ ∈
      (handleBlock config env details state history).result.trace) :
    ∃ error, (handleBlock config env details state history).result.outcome = .err error ∧
      (isCriticalMinerError error = false ↔
        (∃ message, answer = .infeasible message) ∨
          env.fired true
            (history ++ (handleBlock config env details state history).result.trace) = true) := by
  obtain ⟨passed, extended, delivered⟩ := processBlock_delivers config details env state history
  obtain rfl := List.append_cancel_left extended
  have failure : ∃ error, answer.error = some error := by
    cases answer with
    | mined solution => exact absurd rfl (failed solution)
    | minerError message => exact ⟨_, rfl⟩
    | infeasible message => exact ⟨_, rfl⟩
    | joinError message => exact ⟨_, rfl⟩
  obtain ⟨error, same⟩ := failure
  refine ⟨_, delivered input answer error solved same, ?_⟩
  cases fired : env.fired true
      (history ++ (run env (processBlock config details) state history).trace) with
  | true => simp [handleBlock, fired, isCriticalMinerError]
  | false => simpa [handleBlock, fired] using error_recoverable_iff same

def solverAnswer (result : MineResult sampleConfig) : (op : Op sampleConfig) → Resp op
  | .account _ => .ok (some 1)
  | .storageAtHead => .ok 51
  | .submissionMetadata _ _ => .ok none
  | .voterSnapshotHash _ _ page | .targetSnapshotHash _ _ page => .ok (some (some page))
  | .voterSnapshot _ _ page | .targetSnapshot _ _ page => .ok (some (some page))
  | .pages => 2
  | .mineSolution _ => result
  | op => unavailable op

def solverBlock (result : MineResult sampleConfig) : ProcessedBlock sampleConfig :=
  handleBlock ⟨.ifLeading, false, 0, 10, false⟩ ⟨fun _ => solverAnswer result, fun _ _ => false⟩
    ⟨50, .signed 20, 2, 7, 2, 50⟩ (MinerState.initial 2) []

theorem solver_failure_recoverable_iff_infeasible :
    ∃ error, (solverBlock (.infeasible "score")).result.outcome = .err error ∧
      (isCriticalMinerError error = false ↔
        (∃ message, (.infeasible "score" : MineResult sampleConfig) = .infeasible message) ∨
          false = true) :=
  solver_failure_recoverable_iff (T := sampleConfig) _ _ _ _ _ ⟨2, 1, [0, 1], 2, false, 7⟩
    (.infeasible "score")
    (fun _ => nofun) (List.mem_of_getElem? (i := 10) rfl)

/-- A panic of the blocking task reaches the miner task as an error of the kind it does not
recover from. -/
theorem solver_panic_stops_miner :
    let block := solverBlock (.joinError "task 7 panicked")
    (∃ input, ⟨.mineSolution input, .joinError "task 7 panicked"⟩ ∈ block.result.trace) ∧
      block.result.outcome = .err (.other "task 7 panicked") ∧
      isCriticalMinerError (.other "task 7 panicked") = true := by
  intro block
  exact ⟨⟨⟨2, 1, [0, 1], 2, false, 7⟩, List.mem_of_getElem? (i := 10) rfl⟩, rfl, rfl⟩

end LeanStakingMiner
