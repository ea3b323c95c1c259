import StakingMiner.ServerRuns

/-!
Mining computations outlive the requests that spawned them. Their number stays within the
permits exactly as long as a permit is given back only after the mining it was taken for.
-/

namespace LeanStakingMiner

open LeanProgram LeanPaging RequestGhost

variable {C : PredictChain}

section Computations

def Computation.Unfinished (computation : Computation C) : Prop :=
  ∀ outcome, computation.progress ≠ .finished outcome

def Computation.running (computation : Computation C) : Bool :=
  match computation.progress with
  | .running => true
  | _ => false

def ServerWorld.runningComputations (world : ServerWorld C) : Nat :=
  world.computations.countP Computation.running

theorem Computation.unfinished_of_running {computation : Computation C}
    (running : computation.running = true) : computation.Unfinished := by
  intro outcome finished
  rw [Computation.running, finished] at running
  cases running

variable {ι : Type} [DecidableEq ι] {world : ServerWorld C} {ghosts : ι → RequestGhost C}
variable {request : ι} {op : ServerOp C} {answer : ServerResp op}

def Owned (world : ServerWorld C) (ghosts : ι → RequestGhost C) : Prop :=
  ∀ (handle : Nat) computation, world.computations[handle]? = some computation →
    computation.Unfinished →
    ∃ request, (ghosts request).permit = true ∧ (ghosts request).spawned = [handle]

theorem Owned.update (owned : Owned world ghosts) {after : ServerWorld C}
    {ghost : RequestGhost C}
    (owns : ∀ (handle : Nat) computation, after.computations[handle]? = some computation →
      computation.Unfinished → (ghost.permit = true ∧ ghost.spawned = [handle]) ∨
        (world.computations[handle]? = some computation ∧
          ¬((ghosts request).permit = true ∧ (ghosts request).spawned = [handle]))) :
    Owned after (Function.update ghosts request ghost) := by
  intro handle computation found unfinished
  rcases owns handle computation found unfinished with own | ⟨earlier, foreign⟩
  · refine ⟨request, ?_⟩
    rwa [Function.update_self]
  · obtain ⟨owner, holds⟩ := owned handle computation earlier unfinished
    refine ⟨owner, ?_⟩
    by_cases same : owner = request
    · subst same
      exact absurd holds foreign
    · rwa [Function.update_of_ne same]

theorem Owned.keep (owned : Owned world ghosts) {after : ServerWorld C} {ghost : RequestGhost C}
    (computations : after.computations = world.computations)
    (permit : ghost.permit = (ghosts request).permit)
    (spawned : ghost.spawned = (ghosts request).spawned) :
    Owned after (Function.update ghosts request ghost) := by
  refine owned.update fun handle computation found _ => ?_
  rw [permit, spawned]
  rw [computations] at found
  by_cases own : (ghosts request).permit = true ∧ (ghosts request).spawned = [handle]
  · exact Or.inl own
  · exact Or.inr ⟨found, own⟩

theorem Owned.step (owned : Owned world ghosts)
    (allowed : requestMonitor.allows (ghosts request) op) (offered : world.offers op answer)
    (released : op = .releasePermit → ∀ handle ∈ (ghosts request).spawned, ∀ computation,
      world.computations[handle]? = some computation → ¬computation.Unfinished) :
    Owned (world.next op answer)
      (Function.update ghosts request (requestMonitor.next (ghosts request) op answer)) := by
  cases op with
  | spawnMining bounds input =>
      obtain ⟨held, none, _⟩ := allowed
      cases offered
      refine owned.update fun handle computation found unfinished => ?_
      by_cases newest : handle = world.computations.length
      · refine Or.inl ⟨held, ?_⟩
        change (ghosts request).spawned ++ [world.computations.length] = [handle]
        rw [none, newest, List.nil_append]
      · refine Or.inr ⟨?_, by simp [none]⟩
        obtain ⟨inside, _⟩ := List.getElem?_eq_some_iff.mp found
        have before : handle < world.computations.length := by
          simp only [ServerWorld.next, List.length_append, List.length_singleton] at inside
          omega
        exact (List.getElem?_append_left before).symm.trans found
  | releasePermit =>
      refine owned.update fun handle computation found unfinished => Or.inr ⟨found, ?_⟩
      rintro ⟨_, only⟩
      exact released rfl handle (by simp [only]) computation found unfinished
  | tryAcquirePermit =>
      cases answer with
      | false => exact owned.keep rfl rfl rfl
      | true =>
          have none : (ghosts request).spawned = [] := congrArg RequestGhost.spawned allowed
          refine owned.update fun handle computation found unfinished => Or.inr ⟨found, ?_⟩
          simp [none]
  | collectBody | joinMining => cases answer <;> exact owned.keep rfl rfl rfl
  | respond response => cases response <;> exact owned.keep rfl rfl rfl
  | _ => exact owned.keep rfl rfl rfl

omit [DecidableEq ι] in
theorem Owned.evolves (owned : Owned world ghosts) {after : ServerWorld C}
    (evolves : world.Evolves after) : Owned after ghosts := by
  obtain ⟨changed, found, works⟩ := evolves
  intro handle computation here unfinished
  by_cases same : handle = changed
  · subst same
    exact owned handle _ found works.unfinished
  · have before := (List.getElem?_set_ne (Ne.symm same)).symm.trans here
    exact owned handle computation before unfinished

/-- A request lets go of its permit only when the mining it spawned is finished. -/
def ReleasesAfterMining (state : (server C ι).State)
    (event : ι × Event (ServerOp C) ServerResp) : Prop :=
  event.2.1 = .releasePermit → ∀ bounds input (handle : Nat) computation,
    ⟨.spawnMining bounds input, handle⟩ ∈ state.trace event.1 →
    state.world.computations[handle]? = some computation →
    ∃ outcome, computation.progress = .finished outcome

theorem owned_of_run {requests : ι → Request} {state : (server C ι).State}
    (run : (server C ι).Runs ReleasesAfterMining (serverStart requests) state) :
    Owned state.world (state.ghosts requestMonitor RequestGhost.initial) := by
  have related : state.Related requestMonitor RequestGhost.initial Owned := by
    refine run.related rfl (serverStart_follows requests) server_turns ?_
      (fun _ _ _ _ _ _ _ => trivial) ?_ fun _ _ _ owned => owned.evolves
    · rintro handle computation ⟨⟩
    · intro state request op answer owned allowed offered releases
      refine owned.step allowed offered ?_
      intro release handle spawned computation found unfinished
      obtain ⟨bounds, input, spawns⟩ := (mem_spawned_iff _ _).mp spawned
      obtain ⟨outcome, finished⟩ := releases release bounds input handle computation spawns found
      exact unfinished outcome finished
  exact related.2

theorem countP_le_one {α : Type} (p : α → Bool) (items : List α)
    (unique : ∀ (first second : Nat) left right, items[first]? = some left → p left = true →
      items[second]? = some right → p right = true → first = second) :
    items.countP p ≤ 1 := by
  induction items with
  | nil => simp
  | cons head tail ih =>
      have later (first second : Nat) left right (one : tail[first]? = some left)
          (holds : p left = true) (other : tail[second]? = some right) (also : p right = true) :
          first = second :=
        Nat.succ.inj (unique (first + 1) (second + 1) left right one holds other also)
      rw [List.countP_cons]
      by_cases here : p head = true
      · have none : tail.countP p = 0 := by
          rw [List.countP_eq_zero]
          intro item member holds
          obtain ⟨index, found⟩ := List.getElem?_of_mem member
          cases unique 0 (index + 1) head item rfl here found holds
        rw [if_pos here, none]
      · rw [if_neg here]
        exact ih later

theorem running_computations_bounded {ι : Type} [DecidableEq ι] (requests : ι → Request)
    {state : (server C ι).State}
    (run : (server C ι).Runs ReleasesAfterMining (serverStart requests) state) :
    state.world.runningComputations ≤ maxConcurrentPredictions := by
  have owned := owned_of_run run
  have exclusive := (onePermit_of_run run).exclusive
  refine countP_le_one _ _ ?_
  intro first second left right one running other also
  obtain ⟨owner, held, spawned⟩ := owned first left one (Computation.unfinished_of_running running)
  obtain ⟨same, again, only⟩ := owned second right other (Computation.unfinished_of_running also)
  rw [exclusive.unique same owner again held, spawned] at only
  exact List.head_eq_of_cons_eq only

def ServerOp.releases : ServerOp C → Bool
  | .releasePermit => true
  | _ => false

theorem releases_nothing {state : (server C ι).State}
    {event : ι × Event (ServerOp C) ServerResp} (other : event.2.1.releases = false) :
    ReleasesAfterMining state event := by
  intro release
  rw [release] at other
  cases other

theorem release_after_finished {state : (server C ι).State}
    (finished : ∀ computation ∈ state.world.computations,
      ∃ outcome, computation.progress = .finished outcome) :
    ReleasesAfterMining state (request, ⟨.releasePermit, ()⟩) :=
  fun _ _ _ _ computation _ found => finished computation (List.mem_of_getElem? found)

end Computations

section Sample

attribute [local semireducible] List.mergeSort

def oneMining : sampleServer.State :=
  works ((serverStart twoRequests).advances false (servedAnswer 5 0) 35) 0 ⟨.running, [], []⟩

theorem oneMining_runs :
    sampleServer.Runs ReleasesAfterMining (serverStart twoRequests) oneMining := by
  apply Process.Runs.evolve
  · apply Process.Runs.refl.play
    repeat refine ⟨by first | trivial | exact ⟨trivial, releases_nothing rfl⟩ |
        exact ⟨rfl, releases_nothing rfl⟩, ?_⟩
    trivial
  · exact .works 0 rfl (.starts rfl)

def oneAfterTheOther : sampleServer.State :=
  works (((works oneMining 0 ⟨.finished (.mined 8), [], []⟩).advances false
    (servedAnswer 5 0) 23).advances true (servedAnswer 6 1) 35) 1 ⟨.running, [], []⟩

set_option maxRecDepth 2000 in
theorem oneAfterTheOther_runs :
    sampleServer.Runs ReleasesAfterMining (serverStart twoRequests) oneAfterTheOther := by
  apply Process.Runs.evolve
  · apply Process.Runs.play
    · apply Process.Runs.play
      · exact oneMining_runs.evolve (.works 0 rfl (.finishes _ rfl))
      · repeat refine ⟨by first | trivial | exact ⟨⟨_, rfl, rfl⟩, releases_nothing rfl⟩ |
          exact ⟨trivial, releases_nothing rfl⟩, ?_⟩
        refine ⟨⟨trivial, release_after_finished ?_⟩, ?_⟩
        · intro computation member
          cases List.mem_singleton.mp member
          exact ⟨_, rfl⟩
        · repeat refine ⟨by first | trivial | exact ⟨trivial, releases_nothing rfl⟩, ?_⟩
          trivial
    · repeat refine ⟨by first | trivial | exact ⟨trivial, releases_nothing rfl⟩ |
        exact ⟨rfl, releases_nothing rfl⟩, ?_⟩
      trivial
  · exact .works 1 rfl (.starts rfl)

set_option maxRecDepth 2000 in
theorem running_computations_bounded_sequential :
    oneAfterTheOther.world.runningComputations = 1 ∧
      oneAfterTheOther.world.runningComputations ≤ maxConcurrentPredictions :=
  ⟨rfl, running_computations_bounded twoRequests oneAfterTheOther_runs⟩

def disconnected : sampleServer.State :=
  works ((((oneMining.advances false (servedAnswer 5 0) 2).fire false).advances false
    (servedAnswer 5 0) 1).advances true (servedAnswer 6 1) 35) 1 ⟨.running, [], []⟩

set_option maxRecDepth 2000 in
theorem disconnected_computation_runs_on :
    sampleServer.Runs (fun _ _ => True) (serverStart twoRequests) disconnected ∧
      maxConcurrentPredictions < disconnected.world.runningComputations := by
  refine ⟨?_, by decide⟩
  apply Process.Runs.evolve
  · apply Process.Runs.play
    · apply Process.Runs.play
      · apply Process.Runs.fire
        apply Process.Runs.play
        · exact oneMining_runs.mono fun _ _ _ => trivial
        · repeat refine ⟨by trivial, ?_⟩
          trivial
      · repeat refine ⟨by trivial, ?_⟩
        trivial
    · repeat refine ⟨by trivial, ?_⟩
      trivial
  · exact .works 1 rfl (.starts rfl)

end Sample

end LeanStakingMiner
