import StakingMiner.MiningBound
import StakingMiner.ProcessTraces

/-!
How the requests of the server share its permit. Each request is answered once, as the last
thing it does. It is told that a prediction is already in progress only if another request had
the permit when it asked for it, and no request keeps the permit beyond its end.
-/

namespace LeanStakingMiner

open LeanProgram LeanPaging

variable {C : PredictChain}

inductive Stage where
  | reading
  | refused
  | permitted
  | released
  | answered
deriving Repr, DecidableEq

def busy : Response := .error 503 "A prediction is already in progress"

def Stage.admits : Stage → ServerOp C → Prop
  | .reading, op => op.reads = true ∨ op = .collectBody ∨ op = .tryAcquirePermit ∨
      ∃ response, response ≠ busy ∧ op = .respond response
  | .refused, op => op = .respond busy
  | .permitted, op => op.predicts = true ∨ op = .releasePermit
  | .released, op => ∃ response, response ≠ busy ∧ op = .respond response
  | .answered, _ => False

def stageMonitor : Monitor (ServerOp C) ServerResp Stage where
  expects _ _ _ := True
  allows := Stage.admits
  next stage
    | .tryAcquirePermit, granted => if granted then .permitted else .refused
    | .releasePermit, _ => .released
    | .respond _, _ => .answered
    | _, _ => stage

section Admits

variable {stage : Stage} {response : Response}

theorem admits_tryAcquirePermit :
    stage.admits (.tryAcquirePermit : ServerOp C) ↔ stage = .reading := by
  cases stage <;> simp [Stage.admits, ServerOp.predicts]

theorem admits_releasePermit :
    stage.admits (.releasePermit : ServerOp C) ↔ stage = .permitted := by
  cases stage <;> simp [Stage.admits, ServerOp.reads]

theorem admits_respond : stage.admits (.respond response : ServerOp C) ↔
    stage = .refused ∧ response = busy ∨
      (stage = .reading ∨ stage = .released) ∧ response ≠ busy := by
  cases stage <;> simp [Stage.admits, ServerOp.reads, ServerOp.predicts]

end Admits

theorem stageMonitor_ignores_predicts {op : ServerOp C} (predicts : op.predicts = true) :
    stageMonitor.Ignores .permitted op := by
  refine ⟨Or.inl predicts, fun answer => ?_⟩
  cases op <;> first | rfl | cases predicts

theorem stageMonitor_ignores_reads {op : ServerOp C} (reads : op.reads = true) :
    stageMonitor.Ignores .reading op := by
  refine ⟨Or.inl reads, fun answer => ?_⟩
  cases op <;> first | rfl | cases reads

theorem stageMonitor_ignores_collectBody {op : ServerOp C} (collects : op = .collectBody) :
    stageMonitor.Ignores .reading op := by
  rw [collects]
  exact ⟨Or.inr (Or.inl rfl), fun _ => rfl⟩

section Request

variable {α : Type} {issued : ServerOp C → Prop} {returns : α → Prop} {task : ServerTask C α}

def Answers (issued : ServerOp C → Prop) (returns : α → Prop) (task : ServerTask C α) : Prop :=
  wp (Monitor.issuing ServerResp issued) task
    (fun outcome _ _ => ∀ value, outcome = .ok value → returns value) () ()

theorem Answers.timeout (answers : Answers issued returns task) {stage : Stage}
    (ignored : ∀ op, issued op → stageMonitor.Ignores stage op) :
    wp stageMonitor (serverTimeout task) (fun outcome _ after => after = stage ∧
      ∀ value, outcome = .ok (some (.ok value)) → returns value) () stage := by
  refine wp_of_issuing (wp_timeout (wp_mono answers ?_) ?_) ignored
  · rintro (value | error | _) _ _ fine
    · rintro _ ⟨⟩
      exact fine value rfl
    · rintro _ ⟨⟩
    · rintro _ ⟨⟩
  · rintro _ _ ⟨⟩

theorem issues_of_follows {ghost : RequestGhost C}
    {post : Outcome Error α → Unit → RequestGhost C → Prop}
    (follows : wp predictMonitor task post () ghost) :
    wp (Monitor.issuing ServerResp fun op : ServerOp C => op.predicts = true) task
      (fun _ _ _ => True) () () := by
  induction task generalizing ghost with
  | pure | fail | panic => trivial
  | call op next ih => exact ⟨follows.1.2, fun answer _ => ih answer (follows.2 answer trivial)⟩
  | tick issued next ih => exact fun fired => ih fired (follows fired)
  | get next ih => exact ih _ follows
  | set written next ih => exact ih follows

theorem error_ne_busy {status : Nat} {message : String} (other : status ≠ 503) :
    (.error status message : Response) ≠ busy := by
  intro same
  cases same
  exact other rfl

theorem answers_readConfig (queryBlockNumber : Option Nat) :
    Answers (C := C) (· = .collectBody) (fun result => ∀ response, result = .error response →
      response ≠ busy) (readConfig queryBlockNumber) := by
  refine ⟨rfl, ?_⟩
  rintro ((_ | _) | bytes) _
  · rintro value ⟨⟩ response ⟨⟩
    exact error_ne_busy (by decide)
  · rintro value ⟨⟩ response ⟨⟩
    exact error_ne_busy (by decide)
  · rcases parses : C.parseConfig bytes with _ | parsed
    · simp only [Program.bind, parses]
      rintro value ⟨⟩ response ⟨⟩
      exact error_ne_busy (by decide)
    · simp only [Program.bind, parses]
      cases queryBlockNumber <;> rintro value ⟨⟩ response ⟨⟩

theorem answers_predictResponse (config : PredictConfig) :
    Answers (C := C) (fun op => op.predicts = true) (· ≠ busy) (predictResponse config) := by
  have issues := issues_of_follows (runPrediction_follows (C := C) [] config)
  refine (wp_bind _ _).mpr (wp_timeout (wp_mono issues ?_) ?_)
  · rintro (⟨context, prediction⟩ | error | _) _ _ _
    · rintro response ⟨⟩ ⟨⟩
    · rintro response ⟨⟩
      exact error_ne_busy (by decide)
    · rintro response ⟨⟩
  · rintro _ response ⟨⟩
    exact error_ne_busy (by decide)

theorem answers_snapshotResponse (queryBlockNumber : Option Nat) :
    Answers (C := C) (fun op => op.reads = true) (· ≠ busy)
      (snapshotResponse queryBlockNumber) := by
  refine (wp_bind _ _).mpr (wp_timeout (wp_mono
    (reads_fetchSnapshotData queryBlockNumber () ()) ?_) ?_)
  · rintro (result | error | _) _ _ _
    · rintro response ⟨⟩ ⟨⟩
    · rintro response ⟨⟩
      exact error_ne_busy (by decide)
    · rintro response ⟨⟩
  · rintro _ response ⟨⟩
    exact error_ne_busy (by decide)

def unpermitted : Outcome Error Unit → Unit → Stage → Prop :=
  fun outcome _ stage => outcome = .ok () → stage ≠ .permitted

theorem respond_staged {stage : Stage} {response : Response}
    (admits : stage.admits (.respond response : ServerOp C)) :
    wp stageMonitor (serve (C := C) (.respond response)) unpermitted () stage :=
  ⟨admits, by rintro _ _ _ ⟨⟩⟩

theorem simulatePermitted_staged (config : PredictConfig) :
    wp stageMonitor (simulatePermitted (C := C) config) unpermitted () .permitted := by
  refine (wp_bind _ _).mpr ((wp_unwound _).mpr (wp_mono
    ((answers_predictResponse config).timeout fun _ => stageMonitor_ignores_predicts) ?_))
  rintro (result | error | _) _ _ ⟨rfl, other⟩
  · refine ⟨Or.inr rfl, fun _ _ => ?_⟩
    rcases result with _ | error | response
    · rintro _ ⟨⟩
    · rintro _ ⟨⟩
    · exact respond_staged ⟨response, other response rfl, rfl⟩
  · rintro ⟨⟩
  · exact ⟨Or.inr rfl, fun _ _ => by rintro ⟨⟩⟩

theorem simulate_staged (queryBlockNumber : Option Nat) :
    wp stageMonitor (simulate (C := C) queryBlockNumber) unpermitted () .reading := by
  refine (wp_bind _ _).mpr (wp_mono ((answers_readConfig queryBlockNumber).timeout
    fun _ => stageMonitor_ignores_collectBody) ?_)
  rintro (result | error | _) _ _ ⟨rfl, rejects⟩
  · rcases result with _ | error | response | config
    · rintro _ ⟨⟩
    · rintro _ ⟨⟩
    · have other := rejects _ rfl response rfl
      exact respond_staged (Or.inr (Or.inr (Or.inr ⟨response, other, rfl⟩)))
    · refine ⟨Or.inr (Or.inr (Or.inl rfl)), ?_⟩
      rintro (_ | _) _
      · exact respond_staged rfl
      · exact simulatePermitted_staged config
  · rintro ⟨⟩
  · rintro ⟨⟩

theorem handleRequest_staged (request : Request) :
    wp stageMonitor (handleRequest (C := C) request) unpermitted () .reading := by
  unfold handleRequest
  split
  · exact simulate_staged request.queryBlockNumber
  · split
    · refine (wp_bind _ _).mpr (wp_mono ((answers_snapshotResponse _).timeout
        fun _ => stageMonitor_ignores_reads) ?_)
      rintro (result | error | _) _ _ ⟨rfl, other⟩
      · rcases result with _ | error | response
        · rintro _ ⟨⟩
        · rintro _ ⟨⟩
        · exact respond_staged (Or.inr (Or.inr (Or.inr ⟨response, other response rfl, rfl⟩)))
      · rintro ⟨⟩
      · rintro ⟨⟩
    · exact respond_staged (Or.inr (Or.inr (Or.inr ⟨_, error_ne_busy (by decide), rfl⟩)))

end Request

section Traces

variable {stage : Stage} {trace : Trace (ServerOp C) ServerResp}

def Stage.Tells (stage : Stage) (trace : Trace (ServerOp C) ServerResp) : Prop :=
  stage ≠ .answered → (stage = .refused ↔ ⟨.tryAcquirePermit, false⟩ ∈ trace) ∧
    ∀ response, ⟨.respond response, ()⟩ ∉ trace

theorem Stage.Tells.step {op : ServerOp C} {answer : ServerResp op} (tells : stage.Tells trace)
    (admits : stage.admits op) :
    (stageMonitor.next stage op answer).Tells (trace ++ [⟨op, answer⟩]) := by
  cases op with
  | tryAcquirePermit =>
      obtain rfl := admits_tryAcquirePermit.mp admits
      obtain ⟨unasked, unanswered⟩ := tells (by rintro ⟨⟩)
      intro _
      cases answer with
      | false => simp [stageMonitor, unanswered]
      | true => simpa [stageMonitor, unanswered] using unasked
  | releasePermit =>
      obtain rfl := admits_releasePermit.mp admits
      obtain ⟨granted, unanswered⟩ := tells (by rintro ⟨⟩)
      intro _
      simpa [stageMonitor, unanswered] using granted
  | respond response => exact fun unanswered => absurd rfl unanswered
  | _ => simpa [Stage.Tells, stageMonitor] using tells

theorem tells_of_accepts (accepts : stageMonitor.Accepts .reading trace) :
    (stageMonitor.after .reading trace).Tells trace := by
  induction trace using List.reverseRecOn with
  | nil => simp [Stage.Tells]
  | append_singleton trace event ih =>
      obtain ⟨earlier, allowed⟩ := (Monitor.accepts_append_event _ _ _).mp accepts
      rw [Monitor.after_append_event]
      exact (ih earlier).step allowed

theorem respond_is_last {before after : Trace (ServerOp C) ServerResp} {response : Response}
    (accepts : stageMonitor.Accepts stage (before ++ ⟨.respond response, ()⟩ :: after)) :
    after = [] := by
  cases after with
  | nil => rfl
  | cons event rest =>
      have admitted := ((Monitor.accepts_append _ _ _).mp accepts).2.2.1
      exact absurd admitted id

theorem busy_iff_refused {before after : Trace (ServerOp C) ServerResp} {response : Response}
    (accepts : stageMonitor.Accepts .reading (before ++ ⟨.respond response, ()⟩ :: after)) :
    response = busy ↔ ⟨.tryAcquirePermit, false⟩ ∈ before := by
  have tells := tells_of_accepts ((Monitor.accepts_append _ _ _).mp accepts).1
  rcases admits_respond.mp accepts.allowed with ⟨stage, rfl⟩ | ⟨stage | stage, other⟩
  · rw [stage] at tells
    exact iff_of_true rfl ((tells (by decide)).1.mp rfl)
  · rw [stage] at tells
    exact iff_of_false other fun asked =>
      absurd ((tells (by decide)).1.mpr asked) (by decide)
  · rw [stage] at tells
    exact iff_of_false other fun asked =>
      absurd ((tells (by decide)).1.mpr asked) (by decide)

end Traces

section Permit

variable {ι : Type} {world : ServerWorld C} {stages : ι → Stage} {request : ι}
variable {op : ServerOp C} {answer : ServerResp op}

inductive PermitAt (world : ServerWorld C) (stages : ι → Stage) : Prop
  | free (available : world.permits = maxConcurrentPredictions)
      (unheld : ∀ request, stages request ≠ .permitted) : PermitAt world stages
  | taken (holder : ι) (unavailable : world.permits = 0) (holds : stages holder = .permitted)
      (alone : ∀ other, stages other = .permitted → other = holder) : PermitAt world stages

variable [DecidableEq ι]

theorem PermitAt.keep (permit : PermitAt world stages) {after : ServerWorld C} {stage : Stage}
    (permits : after.permits = world.permits)
    (same : stage = .permitted ↔ stages request = .permitted) :
    PermitAt after (Function.update stages request stage) := by
  have holds (other : ι) : Function.update stages request stage other = .permitted ↔
      stages other = .permitted := by
    by_cases here : other = request
    · subst here
      rw [Function.update_self]
      exact same
    · rw [Function.update_of_ne here]
  cases permit with
  | free available unheld =>
      exact .free (permits.trans available) fun other => mt (holds other).mp (unheld other)
  | taken holder unavailable held alone =>
      exact .taken holder (permits.trans unavailable) ((holds holder).mpr held)
        fun other also => alone other ((holds other).mp also)

theorem PermitAt.step (permit : PermitAt world stages)
    (allowed : stageMonitor.allows (stages request) op) (offered : world.offers op answer) :
    PermitAt (world.next op answer)
      (Function.update stages request (stageMonitor.next (stages request) op answer)) := by
  cases op with
  | tryAcquirePermit =>
      have reading := admits_tryAcquirePermit.mp allowed
      have granted : answer = decide (0 < world.permits) := offered
      cases permit with
      | free available unheld =>
          have given : answer = true := by simp [granted, available, maxConcurrentPredictions]
          subst given
          have left : world.permits - 1 = 0 := by rw [available]; rfl
          refine .taken request left (Function.update_self ..) ?_
          intro other held
          by_contra apart
          rw [Function.update_of_ne apart] at held
          exact unheld other held
      | taken holder unavailable held alone =>
          have given : answer = false := by simp [granted, unavailable]
          subst given
          refine (PermitAt.taken holder unavailable held alone).keep rfl ?_
          simp [stageMonitor, reading]
  | releasePermit =>
      have permitted := admits_releasePermit.mp allowed
      cases permit with
      | free available unheld => exact absurd permitted (unheld request)
      | taken holder unavailable held alone =>
          refine .free (congrArg (· + 1) unavailable) ?_
          intro other
          by_cases here : other = request
          · subst here
            rw [Function.update_self]
            rintro ⟨⟩
          · rw [Function.update_of_ne here]
            intro also
            exact here ((alone other also).trans (alone request permitted).symm)
  | respond response =>
      refine permit.keep rfl ?_
      rcases admits_respond.mp allowed with ⟨stage, _⟩ | ⟨stage | stage, _⟩ <;>
        simp [stageMonitor, stage]
  | _ => exact permit.keep rfl Iff.rfl

end Permit

section Held

variable {ι : Type} {log : List (ι × Event (ServerOp C) ServerResp)} {request : ι}
variable {entry : ι × Event (ServerOp C) ServerResp}

/-- The request took the permit and has not returned it since. -/
def HoldsPermit (log : List (ι × Event (ServerOp C) ServerResp)) (request : ι) : Prop :=
  ∃ before since, log = before ++ (request, ⟨.tryAcquirePermit, true⟩) :: since ∧
    (request, ⟨.releasePermit, ()⟩) ∉ since

theorem holdsPermit_append : HoldsPermit (log ++ [entry]) request ↔
    entry = (request, ⟨.tryAcquirePermit, true⟩) ∨
      HoldsPermit log request ∧ entry ≠ (request, ⟨.releasePermit, ()⟩) := by
  constructor
  · rintro ⟨before, since, split, kept⟩
    rcases List.eq_nil_or_concat' since with rfl | ⟨sooner, newest, rfl⟩
    · exact Or.inl (List.cons.inj (List.append_inj' split rfl).2).1
    · rw [← List.cons_append, ← List.append_assoc] at split
      obtain ⟨rfl, ends⟩ := List.append_inj' split rfl
      cases ends
      rw [List.mem_append, not_or, List.mem_singleton] at kept
      exact Or.inr ⟨⟨before, sooner, rfl, kept.1⟩, Ne.symm kept.2⟩
  · rintro (rfl | ⟨⟨before, since, rfl, kept⟩, other⟩)
    · exact ⟨log, [], rfl, List.not_mem_nil⟩
    · refine ⟨before, since ++ [entry], by simp, ?_⟩
      rw [List.mem_append, not_or, List.mem_singleton]
      exact ⟨kept, Ne.symm other⟩

end Held

section Runs

variable {ι : Type} [DecidableEq ι] {requests : ι → Request} {state : (server C ι).State}
variable {meets : (server C ι).State → ι × Event (ServerOp C) ServerResp → Prop}

theorem obeys_stages (run : (server C ι).Runs meets (serverStart requests) state) (request : ι) :
    (server C ι).Obeys request stageMonitor .reading (fun _ stage => stage ≠ .permitted) state :=
  run.obeys rfl (fun _ _ kept _ => kept) (fun _ _ _ => trivial)
    (handleRequest_staged (requests request))

theorem permitAt_of_run (run : (server C ι).Runs meets (serverStart requests) state) :
    PermitAt state.world (state.ghosts stageMonitor .reading) := by
  have related : state.Related stageMonitor .reading PermitAt := by
    refine run.related rfl ?_ (fun _ _ _ => trivial) (.free rfl fun _ => by rintro ⟨⟩)
      (fun _ _ _ _ _ _ _ => trivial) ?_ ?_
    · intro request
      exact wp_mono (handleRequest_staged (requests request)) fun _ _ _ _ _ => trivial
    · intro state request op answer permit allowed offered _
      exact permit.step allowed offered
    · rintro world stages after permit ⟨handle, found, works⟩
      cases permit with
      | free available unheld => exact .free available unheld
      | taken holder unavailable held alone => exact .taken holder unavailable held alone
  exact related.2

theorem stageMonitor_next_permitted {stage : Stage} {op : ServerOp C} {answer : ServerResp op}
    (admits : stage.admits op) : stageMonitor.next stage op answer = .permitted ↔
      (⟨op, answer⟩ : Event (ServerOp C) ServerResp) = ⟨.tryAcquirePermit, true⟩ ∨
        stage = .permitted ∧
          (⟨op, answer⟩ : Event (ServerOp C) ServerResp) ≠ ⟨.releasePermit, ()⟩ := by
  cases op with
  | tryAcquirePermit =>
      have reading := admits_tryAcquirePermit.mp admits
      cases answer <;> simp [stageMonitor, reading]
  | releasePermit => simp [stageMonitor]
  | respond response =>
      rcases admits_respond.mp admits with ⟨rfl, _⟩ | ⟨rfl | rfl, _⟩ <;> simp [stageMonitor]
  | _ => simp [stageMonitor]

theorem holdsPermit_iff (run : (server C ι).Runs meets (serverStart requests) state)
    (request : ι) :
    HoldsPermit state.log request ↔ state.ghosts stageMonitor .reading request = .permitted := by
  induction run with
  | refl =>
      constructor
      · rintro ⟨before, since, split, _⟩
        simp [serverStart] at split
      · rintro ⟨⟩
  | step earlier step condition ih =>
      cases step with
      | call issuer answer waits given =>
          change HoldsPermit (_ ++ [_]) request ↔ _
          rw [holdsPermit_append, ih]
          by_cases same : request = issuer
          · subst same
            have allowed := (obeys_stages earlier request).follows.allows ⟨_, waits⟩
            rw [ghosts_answered]
            refine Iff.trans ?_ (stageMonitor_next_permitted allowed).symm
            simp only [Prod.mk.injEq, true_and, ne_eq]
            exact Iff.rfl
          · rw [ghosts_answered_other _ _ _ _ _ _ same]
            simp [Ne.symm same]
      | move mover moves => exact ih
      | evolve evolves => exact ih

structure Served (state : (server C ι).State) : Prop where
  final : ∀ request before response after,
    state.trace request = before ++ ⟨.respond response, ()⟩ :: after → after = []
  decided : ∀ request granted before after,
    state.log = before ++ (request, ⟨.tryAcquirePermit, granted⟩) :: after →
      (granted = false ↔ ∃ other, other ≠ request ∧ HoldsPermit before other)
  refused : ∀ request before response after,
    state.trace request = before ++ ⟨.respond response, ()⟩ :: after →
      (response = busy ↔ ⟨.tryAcquirePermit, false⟩ ∈ before)
  conserved : state.world.permits = maxConcurrentPredictions ↔
    ∀ request, ¬HoldsPermit state.log request
  returned : ∀ request, HoldsPermit state.log request →
    (state.thread request).rest ≠ .pure () ∧
      ∀ response, ⟨.respond response, ()⟩ ∉ state.trace request

theorem tryAcquirePermit_decided (run : (server C ι).Runs meets (serverStart requests) state)
    {request : ι} {granted : Bool} {before after : List (ι × Event (ServerOp C) ServerResp)}
    (logged : state.log = before ++ (request, ⟨.tryAcquirePermit, granted⟩) :: after) :
    granted = false ↔ ∃ other, other ≠ request ∧ HoldsPermit before other := by
  obtain ⟨earlier, reached, rfl, waits, offered⟩ := run.at_event rfl logged
  have answer : granted = decide (0 < earlier.world.permits) := offered
  have reading := admits_tryAcquirePermit.mp ((obeys_stages reached request).follows.allows waits)
  have held := holdsPermit_iff reached
  cases permitAt_of_run reached with
  | free available unheld =>
      have given : granted = true := by simp [answer, available, maxConcurrentPredictions]
      subst given
      refine iff_of_false (by decide) ?_
      rintro ⟨other, _, holds⟩
      exact unheld other ((held other).mp holds)
  | taken holder unavailable holds alone =>
      have refused : granted = false := by simp [answer, unavailable]
      refine iff_of_true refused ⟨holder, ?_, (held holder).mpr holds⟩
      rintro rfl
      exact absurd (reading.symm.trans holds) (by decide)

theorem permit_conserved (run : (server C ι).Runs meets (serverStart requests) state) :
    state.world.permits = maxConcurrentPredictions ↔
      ∀ request, ¬HoldsPermit state.log request := by
  have held := holdsPermit_iff run
  cases permitAt_of_run run with
  | free available unheld =>
      exact iff_of_true available fun request => mt (held request).mp (unheld request)
  | taken holder unavailable holds alone =>
      refine iff_of_false ?_ fun none => none holder ((held holder).mpr holds)
      rw [unavailable]
      decide

theorem holder_at_work (run : (server C ι).Runs meets (serverStart requests) state) {request : ι}
    (holds : HoldsPermit state.log request) :
    (state.thread request).rest ≠ .pure () ∧
      ∀ response, ⟨.respond response, ()⟩ ∉ state.trace request := by
  obtain ⟨follows, accepts⟩ := obeys_stages run request
  have permitted := (holdsPermit_iff run request).mp holds
  have tells := tells_of_accepts accepts
  change stageMonitor.after .reading (state.trace request) = .permitted at permitted
  rw [permitted] at tells
  refine ⟨?_, (tells (by decide)).2⟩
  intro ended
  unfold Process.Follows at follows
  rw [ended] at follows
  exact follows rfl permitted

/-- Whatever the requests and however their steps interleave, time out or lose their client: a
response is the last operation of its request, the permit is refused exactly while another request
has it, exactly then the answer is a refusal, and a request that was answered or has ended does not
have it. -/
theorem requests_share_the_permit (requests : ι → Request)
    (run : (server C ι).Runs (fun _ _ => True) (serverStart requests) state) : Served state where
  final request before response after split := by
    have accepts := (obeys_stages run request).accepts
    rw [split] at accepts
    exact respond_is_last accepts
  decided request granted before after logged := tryAcquirePermit_decided run logged
  refused request before response after split := by
    have accepts := (obeys_stages run request).accepts
    rw [split] at accepts
    exact busy_iff_refused accepts
  conserved := permit_conserved run
  returned request holds := holder_at_work run holds

end Runs

def refusedAnswer : (op : ServerOp samplePredictChain) → ServerResp op
  | .tryAcquirePermit => false
  | op => servedAnswer 6 1 op

def turnedAway : sampleServer.State := oneMining.advances true refusedAnswer 5

theorem turnedAway_runs :
    sampleServer.Runs (fun _ _ => True) (serverStart twoRequests) turnedAway := by
  apply Process.Runs.play
  · exact oneMining_runs.mono fun _ _ _ => trivial
  · repeat refine ⟨by trivial, ?_⟩
    trivial

set_option maxRecDepth 2000 in
theorem requests_share_the_permit_overlapping :
    turnedAway.trace true =
        [⟨.collectBody, .ok [6]⟩, ⟨.tryAcquirePermit, false⟩, ⟨.respond busy, ()⟩] ∧
      turnedAway.world.permits = 0 ∧ Served turnedAway :=
  ⟨rfl, rfl, requests_share_the_permit twoRequests turnedAway_runs⟩

end LeanStakingMiner
