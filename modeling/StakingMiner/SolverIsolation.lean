import StakingMiner.ServerRuns

/-!
The process-wide parameters of the solver. A request that holds the permit owns them, so
whatever its computation reads while the request waits for it is what the request asked for.
-/

namespace LeanStakingMiner

open LeanProgram LeanPaging RequestGhost

variable {C : PredictChain}

section Isolation

variable {world : ServerWorld C} {ghost : RequestGhost C}

def Under (ghost : RequestGhost C) (computation : Computation C) : Prop :=
  (∀ algorithm ∈ computation.algorithms, ghost.algorithm = some algorithm) ∧
    ∀ iterations ∈ computation.iterations, ghost.iterations = some iterations

namespace ServerWorld

structure Fits (world : ServerWorld C) (ghost : RequestGhost C) : Prop where
  configured : ghost.spawned ≠ [] →
    ghost.algorithm.isSome = true ∧ ghost.iterations.isSome = true
  current : ghost.permit = true →
    (∀ algorithm, ghost.algorithm = some algorithm → world.algorithm = algorithm) ∧
      ∀ iterations, ghost.iterations = some iterations → world.balancingIterations = iterations
  isolated : ghost.permit = true → ∀ handle ∈ ghost.spawned,
    ∃ computation, world.computations[handle]? = some computation ∧ Under ghost computation
  mined : ∀ result ∈ ghost.mined, result.1 ∈ ghost.spawned ∧
    ∃ computation, world.computations[result.1]? = some computation ∧
      computation.progress = .finished (.mined result.2) ∧ Under ghost computation
  answered : ∀ answer ∈ ghost.answers, ghost.Earned answer.1 answer.2

theorem fits_initial : (initial : ServerWorld C).Fits RequestGhost.initial :=
  ⟨by simp [RequestGhost.initial], by simp [RequestGhost.initial],
    by simp [RequestGhost.initial], by simp [RequestGhost.initial],
    by simp [RequestGhost.initial]⟩

theorem Fits.fresh (fits : world.Fits ghost) (none : ghost.spawned = []) :
    ghost.mined = [] ∧ ghost.answers = [] := by
  have unmined : ghost.mined = [] := by
    refine List.eq_nil_iff_forall_not_mem.mpr fun result member => ?_
    have spawned := (fits.mined result member).1
    rw [none] at spawned
    exact List.not_mem_nil spawned
  refine ⟨unmined, List.eq_nil_iff_forall_not_mem.mpr fun answer member => ?_⟩
  obtain ⟨_, _, _, result, mined, _⟩ := fits.answered answer member
  rw [unmined] at mined
  exact List.not_mem_nil mined

theorem Fits.mono (fits : world.Fits ghost) {after : ServerWorld C}
    (params : ghost.permit = true → after.algorithm = world.algorithm ∧
      after.balancingIterations = world.balancingIterations)
    (computations : ∀ (handle : Nat) computation,
      world.computations[handle]? = some computation →
        after.computations[handle]? = some computation) :
    after.Fits ghost := by
  refine ⟨fits.configured, ?_, ?_, ?_, fits.answered⟩
  · intro held
    rw [(params held).1, (params held).2]
    exact fits.current held
  · intro held handle spawned
    obtain ⟨computation, found, under⟩ := fits.isolated held handle spawned
    exact ⟨computation, computations _ _ found, under⟩
  · intro result member
    obtain ⟨spawned, computation, found, finished⟩ := fits.mined result member
    exact ⟨spawned, computation, computations _ _ found, finished⟩

theorem next_computation (op : ServerOp C) (answer : ServerResp op) (handle : Nat)
    (computation : Computation C) (found : world.computations[handle]? = some computation) :
    (world.next op answer).computations[handle]? = some computation := by
  cases op with
  | spawnMining bounds input =>
      obtain ⟨inside, _⟩ := List.getElem?_eq_some_iff.mp found
      exact (List.getElem?_append_left inside).trans found
  | tryAcquirePermit => cases answer <;> exact found
  | _ => exact found

theorem next_params {op : ServerOp C} (answer : ServerResp op) {issuer : RequestGhost C}
    (allowed : requestMonitor.allows issuer op) (idle : issuer.permit = false) :
    (world.next op answer).algorithm = world.algorithm ∧
      (world.next op answer).balancingIterations = world.balancingIterations := by
  cases op with
  | setAlgorithm | setBalancingIterations =>
      exact absurd (allowed.1.symm.trans idle) (Bool.false_ne_true ∘ Eq.symm)
  | tryAcquirePermit => cases answer <;> exact ⟨rfl, rfl⟩
  | _ => exact ⟨rfl, rfl⟩

theorem Fits.set (fits : world.Fits ghost) (none : ghost.spawned = [])
    {after : ServerWorld C} {next : RequestGhost C} (spawned : next.spawned = ghost.spawned)
    (mined : next.mined = ghost.mined) (answers : next.answers = ghost.answers)
    (algorithm : ∀ algorithm, next.algorithm = some algorithm → after.algorithm = algorithm)
    (iterations : ∀ iterations, next.iterations = some iterations →
      after.balancingIterations = iterations) :
    after.Fits next := by
  obtain ⟨unmined, unanswered⟩ := fits.fresh none
  rw [none] at spawned
  rw [unmined] at mined
  rw [unanswered] at answers
  refine ⟨?_, fun _ => ⟨algorithm, iterations⟩, ?_, ?_, ?_⟩
  · exact fun some => absurd spawned some
  · intro _ handle member
    rw [spawned] at member
    exact absurd member List.not_mem_nil
  · intro result member
    rw [mined] at member
    exact absurd member List.not_mem_nil
  · intro answer member
    rw [answers] at member
    exact absurd member List.not_mem_nil

theorem Fits.spawn (fits : world.Fits ghost) (bounds : ElectionBounds)
    (input : MiningInput C bounds)
    (allowed : requestMonitor.allows ghost (.spawnMining bounds input)) :
    (world.next (.spawnMining bounds input) world.computations.length).Fits
      { ghost with spawned := ghost.spawned ++ [world.computations.length] } := by
  obtain ⟨held, none, configured⟩ := allowed
  obtain ⟨unmined, unanswered⟩ := fits.fresh none
  refine ⟨fun _ => configured, fits.current, ?_, ?_, ?_⟩
  · intro _ handle member
    have newest : handle = world.computations.length := by simpa [none] using member
    refine ⟨⟨.queued, [], []⟩, ?_, by simp [Under]⟩
    rw [newest]
    exact List.getElem?_concat_length
  · simp [unmined]
  · simp [unanswered]

theorem Fits.join (fits : world.Fits ghost) {handle : Nat} {solution : C.Solution}
    (allowed : requestMonitor.allows ghost (.joinMining handle))
    (offered : world.offers (.joinMining handle) (.mined solution)) :
    world.Fits { ghost with mined := ghost.mined ++ [(handle, solution)] } := by
  obtain ⟨held, spawned⟩ := allowed
  obtain ⟨computation, found, finished⟩ := offered
  have own : handle ∈ ghost.spawned := by simp [spawned]
  refine ⟨fits.configured, fits.current, fits.isolated, ?_, ?_⟩
  · intro result member
    rcases List.mem_append.mp member with earlier | last
    · exact fits.mined result earlier
    · rw [List.mem_singleton.mp last]
      obtain ⟨same, again, under⟩ := fits.isolated held handle own
      have identical : same = computation := Option.some.inj (again.symm.trans found)
      subst identical
      exact ⟨own, same, found, finished, under⟩
  · intro answer member
    obtain ⟨body, algorithm, iterations, result, mined, built⟩ := fits.answered answer member
    exact ⟨body, algorithm, iterations, result, List.mem_append_left _ mined, built⟩

theorem Fits.own (fits : world.Fits ghost) {op : ServerOp C} {answer : ServerResp op}
    (allowed : requestMonitor.allows ghost op) (offered : world.offers op answer) :
    (world.next op answer).Fits (requestMonitor.next ghost op answer) := by
  cases op with
  | setAlgorithm algorithm =>
      refine fits.set allowed.2 rfl rfl rfl ?_ (fits.current allowed.1).2
      intro other same
      exact Option.some.inj same
  | setBalancingIterations iterations =>
      refine fits.set allowed.2 rfl rfl rfl (fits.current allowed.1).1 ?_
      intro other same
      exact Option.some.inj same
  | spawnMining bounds input =>
      cases offered
      exact fits.spawn bounds input allowed
  | joinMining handle =>
      cases answer with
      | mined solution => exact fits.join allowed offered
      | _ => exact fits
  | collectBody =>
      cases answer with
      | error reason => exact fits
      | ok body =>
          refine ⟨fits.configured, fits.current, fits.isolated, fits.mined, ?_⟩
          intro answer member
          obtain ⟨⟨sent, received, parses⟩, rest⟩ := fits.answered answer member
          exact ⟨⟨sent, List.mem_append_left _ received, parses⟩, rest⟩
  | tryAcquirePermit =>
      cases answer with
      | false => exact fits
      | true =>
          have unset : ghost.algorithm = none := congrArg RequestGhost.algorithm allowed
          have unbalanced : ghost.iterations = none := congrArg RequestGhost.iterations allowed
          refine fits.set (congrArg RequestGhost.spawned allowed) rfl rfl rfl ?_ ?_
          · intro algorithm same
            cases unset.symm.trans same
          · intro iterations same
            cases unbalanced.symm.trans same
  | releasePermit =>
      refine ⟨fits.configured, ?_, ?_, fits.mined, fits.answered⟩
      · rintro ⟨⟩
      · rintro ⟨⟩
  | respond response =>
      cases response with
      | simulated params prediction =>
          refine ⟨fits.configured, fits.current, fits.isolated, fits.mined, ?_⟩
          intro answer member
          rcases List.mem_append.mp member with earlier | last
          · exact fits.answered answer earlier
          · rw [List.mem_singleton.mp last]
            exact allowed params prediction rfl
      | _ => exact fits
  | _ => exact fits

theorem Works.under {before after : Computation C} (works : world.Works before after)
    (under : Under ghost before) (algorithm : ghost.algorithm = some world.algorithm)
    (iterations : ghost.iterations = some world.balancingIterations) : Under ghost after := by
  cases works with
  | starts | finishes => exact under
  | readsAlgorithm =>
      refine ⟨fun read member => ?_, under.2⟩
      rcases List.mem_append.mp member with earlier | last
      · exact under.1 read earlier
      · rw [List.mem_singleton.mp last, algorithm]
  | readsIterations =>
      refine ⟨under.1, fun read member => ?_⟩
      rcases List.mem_append.mp member with earlier | last
      · exact under.2 read earlier
      · rw [List.mem_singleton.mp last, iterations]

theorem Fits.params (fits : world.Fits ghost) (held : ghost.permit = true)
    (busy : ghost.spawned ≠ []) : ghost.algorithm = some world.algorithm ∧
      ghost.iterations = some world.balancingIterations := by
  obtain ⟨algorithmSet, iterationsSet⟩ := fits.configured busy
  obtain ⟨algorithm, chosen⟩ := Option.isSome_iff_exists.mp algorithmSet
  obtain ⟨iterations, balanced⟩ := Option.isSome_iff_exists.mp iterationsSet
  obtain ⟨sameAlgorithm, sameIterations⟩ := fits.current held
  rw [sameAlgorithm algorithm chosen, sameIterations iterations balanced]
  exact ⟨chosen, balanced⟩

theorem Fits.evolves (fits : world.Fits ghost) {after : ServerWorld C}
    (evolves : world.Evolves after) : after.Fits ghost := by
  obtain ⟨handle, found, works⟩ := evolves
  refine ⟨fits.configured, fits.current, ?_, ?_, fits.answered⟩
  · intro held spawned member
    obtain ⟨computation, here, under⟩ := fits.isolated held spawned member
    by_cases same : spawned = handle
    · subst same
      have identical := Option.some.inj (here.symm.trans found)
      subst identical
      obtain ⟨algorithm, iterations⟩ := fits.params held (List.ne_nil_of_mem member)
      obtain ⟨inside, _⟩ := List.getElem?_eq_some_iff.mp found
      exact ⟨_, List.getElem?_set_self inside, works.under under algorithm iterations⟩
    · refine ⟨computation, ?_, under⟩
      exact (List.getElem?_set_ne (Ne.symm same)).trans here
  · intro result member
    obtain ⟨spawned, computation, here, finished, under⟩ := fits.mined result member
    refine ⟨spawned, computation, ?_, finished, under⟩
    by_cases same : result.1 = handle
    · rw [same, found] at here
      cases here
      exact absurd finished (works.unfinished _)
    · exact (List.getElem?_set_ne (Ne.symm same)).trans here

end ServerWorld

end Isolation

section Runs

variable {ι : Type} [DecidableEq ι] {world : ServerWorld C} {ghosts : ι → RequestGhost C}
variable {request : ι} {op : ServerOp C} {answer : ServerResp op}

structure Isolated (world : ServerWorld C) (ghosts : ι → RequestGhost C) : Prop where
  permits : OnePermit world ghosts
  fits : ∀ request, world.Fits (ghosts request)

theorem Isolated.step (isolated : Isolated world ghosts)
    (allowed : requestMonitor.allows (ghosts request) op) (offered : world.offers op answer) :
    Isolated (world.next op answer)
      (Function.update ghosts request (requestMonitor.next (ghosts request) op answer)) := by
  refine ⟨isolated.permits.step allowed offered, ?_⟩
  rw [Function.forall_update_iff ghosts fun _ ghost => (world.next op answer).Fits ghost]
  refine ⟨(isolated.fits request).own allowed offered, fun other apart => ?_⟩
  refine (isolated.fits other).mono (fun held => ?_) (ServerWorld.next_computation op answer)
  have idle := isolated.permits.exclusive.alone held (Ne.symm apart)
  exact ServerWorld.next_params answer allowed (Bool.not_eq_true _ ▸ idle)

variable {meets : (server C ι).State → ι × Event (ServerOp C) ServerResp → Prop}
variable {requests : ι → Request} {state : (server C ι).State}

theorem isolated_of_run (run : (server C ι).Runs meets (serverStart requests) state) :
    Isolated state.world (state.ghosts requestMonitor RequestGhost.initial) := by
  have related : state.Related requestMonitor RequestGhost.initial Isolated := by
    refine run.related rfl (serverStart_follows requests) server_turns
      ⟨onePermit_initial, fun _ => ServerWorld.fits_initial⟩ (fun _ _ _ _ _ _ _ => trivial) ?_ ?_
    · intro state request op answer isolated allowed offered _
      exact isolated.step allowed offered
    · rintro world ghosts after isolated ⟨handle, found, works⟩
      refine ⟨⟨isolated.permits.bounded, isolated.permits.exclusive⟩, fun request => ?_⟩
      exact (isolated.fits request).evolves (.works handle found works)
  exact related.2

/-- The answer was built from a solution that the request's own computation mined, and whatever
this computation read of the process-wide parameters is what the request asked for and what
the answer echoes. -/
def CarriesOwnSolution (state : (server C ι).State) (request : ι)
    (params : SimulateRunParameters) (prediction : Prediction) : Prop :=
  ∃ body config bounds input handle solution computation,
    ⟨.collectBody, .ok body⟩ ∈ state.trace request ∧ C.parseConfig body = some config ∧
    params.algorithm = config.algorithm ∧
    params.balancingIterations = config.balancingIterations ∧
    ⟨.spawnMining bounds input, handle⟩ ∈ state.trace request ∧
    state.world.computations[handle]? = some computation ∧
    computation.progress = .finished (.mined solution) ∧
    (∀ algorithm ∈ computation.algorithms, algorithm = config.algorithm) ∧
    (∀ iterations ∈ computation.iterations, iterations = config.balancingIterations) ∧
    BuiltFrom solution prediction

theorem simulated_under_own_parameters {ι : Type} [DecidableEq ι] (requests : ι → Request)
    {state : (server C ι).State}
    (run : (server C ι).Runs (fun _ _ => True) (serverStart requests) state) (request : ι)
    (params : SimulateRunParameters) (prediction : Prediction)
    (answered : ⟨.respond (.simulated params prediction), ()⟩ ∈ state.trace request) :
    CarriesOwnSolution state request params prediction := by
  have fits := (isolated_of_run run).fits request
  have earned := fits.answered (params, prediction) ((mem_answers_iff _ _ _).mpr answered)
  obtain ⟨⟨body, sent, config, parses, sameAlgorithm, sameIterations⟩, algorithm, iterations,
    ⟨handle, solution⟩, mined, built⟩ := earned
  obtain ⟨spawned, computation, found, finished, under⟩ := fits.mined _ mined
  obtain ⟨bounds, input, spawns⟩ := (mem_spawned_iff _ _).mp spawned
  refine ⟨body, config, bounds, input, handle, solution, computation,
    (mem_bodies_iff _ _).mp sent, parses, sameAlgorithm, sameIterations, spawns, found, finished,
    ?_, ?_, built⟩
  · intro read member
    have same := under.1 read member
    rw [algorithm] at same
    rw [← Option.some.inj same, sameAlgorithm]
  · intro read member
    have same := under.2 read member
    rw [iterations] at same
    rw [← Option.some.inj same, sameIterations]

section Sample

attribute [local semireducible] List.mergeSort

def solvedWorld (state : sampleServer.State) : sampleServer.State :=
  works (works (works (works state 0 ⟨.running, [], []⟩) 0 ⟨.running, [.phragmms], []⟩) 0
    ⟨.running, [.phragmms], [5]⟩) 0 ⟨.finished (.mined 8), [.phragmms], [5]⟩

def oneAnswered : sampleServer.State :=
  (solvedWorld ((serverStart twoRequests).advances false (servedAnswer 5 0) 35)).advances false
    (servedAnswer 5 0) 23

set_option maxRecDepth 2000 in
theorem oneAnswered_runs :
    sampleServer.Runs (fun _ _ => True) (serverStart twoRequests) oneAnswered := by
  apply Process.Runs.play
  · apply Process.Runs.evolve
    · apply Process.Runs.evolve
      · apply Process.Runs.evolve
        · apply Process.Runs.evolve
          · apply Process.Runs.refl.play
            repeat refine ⟨by trivial, ?_⟩
            trivial
          · exact .works 0 rfl (.starts rfl)
        · exact .works 0 rfl (.readsAlgorithm rfl)
      · exact .works 0 rfl (.readsIterations rfl)
    · exact .works 0 rfl (.finishes _ rfl)
  · repeat refine ⟨by first | trivial | exact ⟨⟨_, rfl, rfl⟩, trivial⟩, ?_⟩
    trivial

set_option maxRecDepth 2000 in
theorem simulated_under_own_parameters_five :
    CarriesOwnSolution oneAnswered false ⟨50, 1, 5, false, .phragmms, none⟩
      servedPrediction :=
  simulated_under_own_parameters twoRequests oneAnswered_runs false _ _
    (List.mem_of_getElem? (i := 20) rfl)

end Sample

end Runs

end LeanStakingMiner
