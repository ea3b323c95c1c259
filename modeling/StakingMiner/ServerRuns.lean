import Mathlib.Logic.Function.Basic
import StakingMiner.ProcessLogic
import StakingMiner.ServerLogic

/-!
The server under any interleaving of requests, timeouts and disconnects: what a request has
done can be read off its trace, and at most one request holds the permit.
-/

namespace LeanStakingMiner

open LeanProgram LeanPaging RequestGhost

variable {C : PredictChain}

section Traces

variable (trace : Trace (ServerOp C) ServerResp)

theorem mem_bodies_iff (body : Bytes) :
    body ∈ (requestMonitor.after initial trace).bodies ↔ ⟨.collectBody, .ok body⟩ ∈ trace := by
  rw [requestMonitor.after_marked (fun ghost => body ∈ ghost.bodies)
    (fun event => ⟨.collectBody, .ok body⟩ = event)]
  · simp [initial]
  · rintro ghost ⟨op, answer⟩
    cases op with
    | collectBody =>
        cases answer with
        | error reason => exact (or_iff_left (by rintro ⟨⟩)).symm
        | ok collected => simp [requestMonitor]
    | tryAcquirePermit | joinMining => cases answer <;> exact (or_iff_left (by rintro ⟨⟩)).symm
    | respond response => cases response <;> exact (or_iff_left (by rintro ⟨⟩)).symm
    | _ => exact (or_iff_left (by rintro ⟨⟩)).symm

theorem mem_spawned_iff (handle : Nat) :
    handle ∈ (requestMonitor.after initial trace).spawned ↔
      ∃ bounds input, ⟨.spawnMining bounds input, handle⟩ ∈ trace := by
  rw [requestMonitor.after_marked (fun ghost => handle ∈ ghost.spawned)
    (fun event => ∃ bounds input, event = ⟨.spawnMining bounds input, handle⟩)]
  · simp only [initial, List.not_mem_nil, false_or]
    constructor
    · rintro ⟨event, member, bounds, input, rfl⟩
      exact ⟨bounds, input, member⟩
    · rintro ⟨bounds, input, member⟩
      exact ⟨_, member, bounds, input, rfl⟩
  · rintro ghost ⟨op, answer⟩
    cases op with
    | spawnMining bounds input =>
        simp only [requestMonitor, List.mem_append, List.mem_singleton]
        refine or_congr_right ⟨?_, ?_⟩
        · rintro rfl
          exact ⟨bounds, input, rfl⟩
        · rintro ⟨_, _, same⟩
          cases same
          rfl
    | collectBody | tryAcquirePermit | joinMining =>
        cases answer <;> exact (or_iff_left (by rintro ⟨_, _, ⟨⟩⟩)).symm
    | respond response => cases response <;> exact (or_iff_left (by rintro ⟨_, _, ⟨⟩⟩)).symm
    | _ => exact (or_iff_left (by rintro ⟨_, _, ⟨⟩⟩)).symm

theorem mem_answers_iff (params : SimulateRunParameters) (prediction : Prediction) :
    (params, prediction) ∈ (requestMonitor.after initial trace).answers ↔
      ⟨.respond (.simulated params prediction), ()⟩ ∈ trace := by
  rw [requestMonitor.after_marked (fun ghost => (params, prediction) ∈ ghost.answers)
    (fun event => ⟨.respond (.simulated params prediction), ()⟩ = event)]
  · simp [initial]
  · rintro ghost ⟨op, answer⟩
    cases op with
    | respond response =>
        cases response with
        | simulated => simp [requestMonitor]
        | _ => exact (or_iff_left (by rintro ⟨⟩)).symm
    | collectBody | tryAcquirePermit | joinMining =>
        cases answer <;> exact (or_iff_left (by rintro ⟨⟩)).symm
    | _ => exact (or_iff_left (by rintro ⟨⟩)).symm

end Traces

theorem ServerWorld.Works.unfinished {world : ServerWorld C} {before after : Computation C}
    (works : world.Works before after) (outcome : MiningOutcome C.Solution) :
    before.progress ≠ .finished outcome := by
  intro finished
  cases works with
  | starts progress | readsAlgorithm progress | readsIterations progress | finishes _ progress =>
      rw [finished] at progress
      cases progress

section Permit

variable {ι : Type} [DecidableEq ι] {world : ServerWorld C} {ghosts : ι → RequestGhost C}
variable {request : ι} {op : ServerOp C} {answer : ServerResp op}

structure OnePermit (world : ServerWorld C) (ghosts : ι → RequestGhost C) : Prop where
  bounded : world.permits ≤ maxConcurrentPredictions
  exclusive : Exclusive (fun request => (ghosts request).permit = true)
    (decide (world.permits = 0))

theorem OnePermit.keep (one : OnePermit world ghosts) {after : ServerWorld C}
    {ghost : RequestGhost C} (permits : after.permits = world.permits)
    (same : ghost.permit = (ghosts request).permit) :
    OnePermit after (Function.update ghosts request ghost) := by
  refine ⟨by rw [permits]; exact one.bounded, ?_⟩
  rw [permits]
  exact one.exclusive.update (fun ghost : RequestGhost C => ghost.permit = true)
    fun held => same.symm.trans held

theorem OnePermit.step (one : OnePermit world ghosts)
    (allowed : requestMonitor.allows (ghosts request) op) (offered : world.offers op answer) :
    OnePermit (world.next op answer)
      (Function.update ghosts request (requestMonitor.next (ghosts request) op answer)) := by
  cases op with
  | tryAcquirePermit =>
      cases answer with
      | false => exact one.keep rfl rfl
      | true =>
          have free : 0 < world.permits := of_decide_eq_true offered.symm
          have bounded : world.permits ≤ 1 := one.bounded
          have last : world.permits - 1 = 0 := by omega
          have unlocked := one.exclusive
          rw [decide_eq_false (Nat.ne_of_gt free)] at unlocked
          refine ⟨Nat.le_trans (Nat.sub_le _ _) bounded, ?_⟩
          change Exclusive _ (decide (world.permits - 1 = 0))
          rw [decide_eq_true last]
          exact unlocked.acquire fun ghost : RequestGhost C => ghost.permit = true
  | releasePermit =>
      have locked : world.permits = 0 :=
        of_decide_eq_true (one.exclusive.locked_of request allowed)
      refine ⟨Nat.le_of_eq (congrArg (· + 1) locked), ?_⟩
      change Exclusive _ (decide (world.permits + 1 = 0))
      rw [decide_eq_false (Nat.succ_ne_zero _)]
      exact one.exclusive.release (fun ghost : RequestGhost C => ghost.permit = true) allowed
        Bool.false_ne_true
  | collectBody | joinMining => cases answer <;> exact one.keep rfl rfl
  | respond response => cases response <;> exact one.keep rfl rfl
  | _ => exact one.keep rfl rfl

omit [DecidableEq ι] in
theorem onePermit_initial :
    OnePermit (ServerWorld.initial : ServerWorld C) fun _ : ι => RequestGhost.initial := by
  refine ⟨Nat.le_refl _, ?_, ?_⟩
  · rintro request ⟨⟩
  · rintro first second ⟨⟩

end Permit

section Runs

variable {ι : Type} [DecidableEq ι]

theorem serverStart_follows (requests : ι → Request) (request : ι) :
    (server C ι).Follows request requestMonitor RequestGhost.initial (fun _ _ => True)
      (serverStart requests) :=
  wp_mono (handleRequest_follows (requests request)) fun _ _ _ _ _ => trivial

omit [DecidableEq ι] in
theorem server_turns (request : ι) :
    (requestMonitor (C := C)).Permits ((server C ι).turn request) :=
  fun _ _ => trivial

variable {meets : (server C ι).State → ι × Event (ServerOp C) ServerResp → Prop}
variable {requests : ι → Request} {state : (server C ι).State}

theorem onePermit_of_run (run : (server C ι).Runs meets (serverStart requests) state) :
    OnePermit state.world (state.ghosts requestMonitor RequestGhost.initial) := by
  have related : state.Related requestMonitor RequestGhost.initial OnePermit := by
    refine run.related rfl (serverStart_follows requests) server_turns onePermit_initial
      (fun _ _ _ _ _ _ _ => trivial) ?_ ?_
    · intro state request op answer one allowed offered _
      exact one.step allowed offered
    · rintro world ghosts after one ⟨handle, found, works⟩
      exact ⟨one.bounded, one.exclusive⟩
  exact related.2

end Runs

section Samples

def servedAnswer (iterations : UInt8) (handle : Nat) :
    (op : ServerOp samplePredictChain) → ServerResp op
  | .atCurrentBlock => .ok 50
  | .updateMetadataConstants _ => .ok ()
  | .latestBlockNumber => .ok 50
  | .round _ => .ok 3
  | .targetSnapshot _ _ _ _ => .ok (some (some (.truncateFrom _ [])))
  | .spawnMining _ _ => handle
  | .joinMining _ => .mined 8
  | .rpcClient => .ok ()
  | .systemProperties => .ok ⟨some "DOT", some 10⟩
  | .ss58Prefix _ => .ok 0
  | .collectBody => .ok [iterations]
  | .tryAcquirePermit => true
  | op => offline op

def servedPrediction : Prediction :=
  (⟨⟨"0", 1, 3, 50, some ⟨8, 0, 0⟩, "snapshot"⟩, []⟩, ⟨[]⟩)

def twoRequests (_ : Bool) : Request := ⟨.post, "/simulate", []⟩

abbrev sampleServer : Process Bool (ServerOp samplePredictChain) ServerResp :=
  server samplePredictChain Bool

def works (state : sampleServer.State) (handle : Nat) (after : Computation samplePredictChain) :
    sampleServer.State :=
  { state with world := state.world.setComputation handle after }

end Samples

end LeanStakingMiner
