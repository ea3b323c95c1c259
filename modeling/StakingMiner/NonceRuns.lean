import StakingMiner.NonceDiscipline
import StakingMiner.ProcessLogic

/-!
Nonces across tasks. Each task keeps its own discipline, but the tasks read the same
finalized nonce: transactions in flight have distinct nonces as long as a task reads the
nonce when no transaction is pending and nobody else submits before it does.
-/

namespace LeanStakingMiner

open LeanProgram

variable {T : MinerConfig} {config : ProcessConfig}

def inFlight (state : MonitorState T config) : List Nat := MonitorWorld.inFlight state.world

def interruptedNext (task : MonitorTask) (before : Bool) : MonitorEvent T → Bool
  | (issuer, ⟨.accountNonce, .ok _⟩) => if issuer = task then false else before
  | (issuer, ⟨.submitAndWatch _ _ _, _⟩) => if issuer = task then before else true
  | _ => before

def interrupted (task : MonitorTask) (log : List (MonitorEvent T)) : Bool :=
  log.foldl (interruptedNext task) false

/-- The nonce is read while every transaction in flight has a smaller one, and a task
submits only when no other task has done so since it read the nonce. -/
def NonceExclusive (state : MonitorState T config) : MonitorEvent T → Prop
  | (_, ⟨.accountNonce, .ok nonce⟩) => ∀ other ∈ inFlight state, other < nonce
  | (task, ⟨.submitAndWatch _ _ _, _⟩) => interrupted task state.log = false
  | _ => True

theorem interrupted_append (task : MonitorTask) (log : List (MonitorEvent T))
    (event : MonitorEvent T) :
    interrupted task (log ++ [event]) = interruptedNext task (interrupted task log) event := by
  simp [interrupted]

def usableNonce (state : MonitorState T config) (task : MonitorTask) : Option Nat :=
  nonceMonitor.after none (state.trace task)

def Disciplined (state : MonitorState T config) (task : MonitorTask) : Prop :=
  (monitor config).Follows task nonceMonitor none (fun _ _ => True) state

theorem monitorStart_disciplined (pages nonce : Nat) (task : MonitorTask) :
    Disciplined (monitorStart config pages nonce : MonitorState T config) task := by
  cases task with
  | listener =>
      have subscribed :
          nonceMonitor.Permits (do rpc (← ask .streamBlocks) : Miner T ListenerState Unit) :=
        Monitor.Permits.bind (ask_nonce (by simp [Op.kind, nonceFreeKinds])) rpc_permitted
      exact wp_mono (subscribed _ _) fun _ _ _ _ _ => trivial
  | miner => exact wp_mono (minerTurn_nonce config _ _) fun _ _ _ _ _ => trivial
  | clearOldRounds => exact wp_mono (clearOldRoundsTurn_nonce _ _) fun _ _ _ _ _ => trivial
  | eraPruning => exact wp_mono (lazyEraPruningTurn_nonce _ _) fun _ _ _ _ _ => trivial

theorem turn_nonce (task : MonitorTask) :
    nonceMonitor.Permits ((monitor config : Process MonitorTask (Op T) Resp).turn task) := by
  cases task with
  | listener => exact listenerTurn_nonce
  | miner => exact minerTurn_nonce config
  | clearOldRounds => exact clearOldRoundsTurn_nonce
  | eraPruning => exact lazyEraPruningTurn_nonce

theorem Disciplined.step {state after : MonitorState T config} {label : Option (MonitorEvent T)}
    {task : MonitorTask} (disciplined : Disciplined state task)
    (step : (monitor config).Step state label after) : Disciplined after task := by
  refine Process.Follows.step ?_ disciplined step fun _ _ => trivial
  intro store ghost _
  exact wp_mono (turn_nonce task store ghost) fun _ _ _ _ _ => trivial

theorem usableNonce_answered (state : MonitorState T config) (task : MonitorTask) (op : Op T)
    (answer : Resp op) (rest) :
    usableNonce (state.answered task op answer rest) task =
      nonceNext (usableNonce state task) op answer :=
  ghosts_answered state nonceMonitor none task op answer rest

theorem usableNonce_answered_other (state : MonitorState T config) {task issuer : MonitorTask}
    (op : Op T) (answer : Resp op) (rest) (other : task ≠ issuer) :
    usableNonce (state.answered issuer op answer rest) task = usableNonce state task :=
  ghosts_answered_other state nonceMonitor none op answer rest other

theorem nonce_inert {op : Op T} (answer : Resp op) (reads : op.kind ≠ .nonce)
    (sends : ∀ transaction nonce mortality, op ≠ .submitAndWatch transaction nonce mortality) :
    (∀ usable, nonceNext usable op answer = usable) ∧
      (∀ task before issuer, interruptedNext task before (issuer, ⟨op, answer⟩) = before) ∧
      ∀ world : MonitorWorld, (world.next op answer).inFlight = world.inFlight := by
  refine ⟨?_, ?_, ?_⟩
  · intro usable
    cases op <;> first | exact absurd rfl reads | exact absurd rfl (sends _ _ _) | rfl
  · intro task before issuer
    cases op <;> first | exact absurd rfl reads | exact absurd rfl (sends _ _ _) | rfl
  · intro world
    unfold MonitorWorld.next
    split <;> first | exact absurd rfl (sends _ _ _) | rfl

def NoncesApart (state : MonitorState T config) : Prop :=
  (inFlight state).Nodup ∧ ∀ task nonce, usableNonce state task = some nonce →
    interrupted task state.log = false → ∀ other ∈ inFlight state, other < nonce

theorem NoncesApart.inert {state : MonitorState T config} (apart : NoncesApart state)
    (issuer : MonitorTask) {op : Op T} (answer : Resp op) (rest)
    (usable : ∀ usable, nonceNext usable op answer = usable)
    (same : ∀ task before, interruptedNext task before (issuer, ⟨op, answer⟩) = before)
    (pending : ∀ world : MonitorWorld, (world.next op answer).inFlight = world.inFlight) :
    NoncesApart (state.answered issuer op answer rest) := by
  have flight : inFlight (state.answered issuer op answer rest) = inFlight state := pending _
  refine ⟨by rw [flight]; exact apart.1, ?_⟩
  intro task nonce signable free other member
  have uninterrupted : interrupted task state.log = false := by
    have appended := interrupted_append task state.log (issuer, ⟨op, answer⟩)
    rw [same] at appended
    rw [← appended]
    exact free
  have unchanged : usableNonce (state.answered issuer op answer rest) task =
      usableNonce state task := by
    by_cases own : task = issuer
    · subst own
      rw [usableNonce_answered, usable]
    · exact usableNonce_answered_other state op answer rest own
  rw [unchanged] at signable
  rw [flight] at member
  exact apart.2 task nonce signable uninterrupted other member

theorem NoncesApart.nonceRead {state : MonitorState T config} (apart : NoncesApart state)
    (issuer : MonitorTask) (nonce : Nat) (rest)
    (met : ∀ other ∈ inFlight state, other < nonce) :
    NoncesApart (state.answered issuer .accountNonce (.ok nonce) rest) := by
  refine ⟨apart.1, ?_⟩
  intro task usable signable free other member
  have appended := interrupted_append task state.log (issuer, ⟨.accountNonce, .ok nonce⟩)
  by_cases own : task = issuer
  · subst own
    rw [usableNonce_answered] at signable
    have read : nonce = usable := Option.some.inj signable
    rw [← read]
    exact met other member
  · have skipped : ¬issuer = task := fun same => own same.symm
    rw [usableNonce_answered_other state _ _ rest own] at signable
    rw [interruptedNext, if_neg skipped] at appended
    exact apart.2 task usable signable (appended.symm.trans free) other member

theorem NoncesApart.submitted {state : MonitorState T config} (apart : NoncesApart state)
    (issuer : MonitorTask) (transaction : Transaction T) (nonce : Nat) (mortality : Option Nat)
    (answer : Read TxHandle) (rest) (usable : usableNonce state issuer = some nonce)
    (met : interrupted issuer state.log = false) :
    NoncesApart
      (state.answered issuer (.submitAndWatch transaction nonce mortality) answer rest) := by
  have above := apart.2 issuer nonce usable met
  constructor
  · refine List.Nodup.append apart.1 (List.nodup_singleton nonce) ?_
    intro other member same
    have smaller := above other member
    rw [List.mem_singleton.mp same] at smaller
    omega
  · intro task next signable free other member
    have appended := interrupted_append task state.log
      (issuer, ⟨.submitAndWatch transaction nonce mortality, answer⟩)
    by_cases own : task = issuer
    · subst own
      rw [usableNonce_answered] at signable
      cases answer with
      | error error => simp [nonceNext] at signable
      | ok tx =>
          have following : nonce + 1 = next := Option.some.inj signable
          rcases List.mem_append.mp member with earlier | last
          · have smaller := above other earlier
            omega
          · have same := List.mem_singleton.mp last
            omega
    · have skipped : ¬issuer = task := fun same => own same.symm
      rw [interruptedNext, if_neg skipped] at appended
      exact absurd (appended.symm.trans free) (by simp)

theorem NoncesApart.evolve {state : MonitorState T config} {world : MonitorWorld}
    (apart : NoncesApart state) (evolves : MonitorWorld.Evolves state.world world) :
    NoncesApart { state with world } := by
  have shrinks : world.inFlight.Nodup ∧ ∀ other ∈ world.inFlight, other ∈ inFlight state := by
    cases evolves with
    | finalized pending => exact ⟨apart.1.erase _, fun _ => List.mem_of_mem_erase⟩
    | dropped nonce pending => exact ⟨apart.1.erase _, fun _ => List.mem_of_mem_erase⟩
  refine ⟨shrinks.1, ?_⟩
  intro task nonce signable free other member
  exact apart.2 task nonce signable free other (shrinks.2 other member)

theorem NoncesApart.step {state after : MonitorState T config} {label : Option (MonitorEvent T)}
    (apart : NoncesApart state) (disciplined : ∀ task, Disciplined state task)
    (step : (monitor config).Step state label after)
    (met : ∀ event, label = some event → NonceExclusive state event) : NoncesApart after := by
  cases step with
  | move task moves => exact apart
  | evolve evolves => exact apart.evolve evolves
  | @call issuer op next answer waits given =>
      have allowed := (disciplined issuer).allows ⟨next, waits⟩
      have condition := met (issuer, ⟨op, answer⟩) rfl
      cases op with
      | accountNonce =>
          cases answer with
          | ok nonce => exact apart.nonceRead issuer nonce _ condition
          | error error =>
              exact apart.inert issuer _ _ (fun _ => rfl) (fun _ _ => rfl) (fun _ => rfl)
      | submitAndWatch transaction nonce mortality =>
          exact apart.submitted issuer transaction nonce mortality answer _ allowed condition
      | _ =>
          obtain ⟨usable, same, pending⟩ := nonce_inert answer (by simp [Op.kind]) (by simp)
          exact apart.inert issuer answer _ usable (fun task before => same task before issuer)
            pending

/-- In every run in which nonces are read and used exclusively, no two transactions in
flight carry the same nonce. -/
theorem in_flight_nonces_distinct (config : ProcessConfig) (pages nonce : Nat)
    (state : MonitorState T config)
    (run : (monitor config).Runs NonceExclusive (monitorStart config pages nonce) state) :
    (inFlight state).Nodup := by
  have invariant : NoncesApart state ∧ ∀ task, Disciplined state task := by
    apply run.keeps
    · refine ⟨⟨List.nodup_nil, ?_⟩, monitorStart_disciplined pages nonce⟩
      intro task usable signable
      simp [usableNonce, Process.State.trace, monitorStart] at signable
    · intro before label after holds step met
      exact ⟨holds.1.step holds.2 step met, fun task => (holds.2 task).step step⟩
  exact invariant.1.1

def janitorConfig : ProcessConfig := ⟨.ifLeading, false, 0, 10, false⟩

def signedBlock : (op : Op sampleConfig) → Resp op
  | .pages => 2
  | op => servesBlock ⟨101, 101⟩ (.signed 20) 7 5 .exitOffPhase op

def resumesPages : (op : Op sampleConfig) → Resp op
  | .minerRecv => some (.processBlock ⟨101, .signed 20, 2, 7, 2, 101⟩)
  | .account _ => .ok (some 1)
  | .submissionMetadata _ _ => .ok (some ⟨⟨5, 5, 5⟩, [false, false]⟩)
  | .minimumScore _ => .ok none
  | .voterSnapshotHash _ _ page | .targetSnapshotHash _ _ page => .ok (some (some page))
  | .voterSnapshot _ _ page | .targetSnapshot _ _ page => .ok (some (some page))
  | .mineSolution _ => .mined ⟨[3, 4], ⟨5, 5, 5⟩, 7⟩
  | op => signedBlock op

def pagesSent : MonitorState sampleConfig janitorConfig :=
  ((monitorStart janitorConfig 2 5).advances .listener signedBlock 29).advances .miner
    resumesPages 84

set_option maxRecDepth 4000 in
theorem pagesSent_runs :
    (monitor janitorConfig).Runs NonceExclusive (monitorStart janitorConfig 2 5) pagesSent := by
  apply Process.Runs.play
  · apply Process.Runs.refl.play
    repeat refine ⟨by trivial, ?_⟩
    trivial
  · repeat refine ⟨by first | trivial | exact ⟨⟨rfl, rfl⟩, fun _ member => nomatch member⟩, ?_⟩
    trivial

set_option maxRecDepth 4000 in
theorem pagesSent_inFlight : inFlight pagesSent = [5, 6] := rfl

theorem in_flight_nonces_distinct_pages :
    ∃ state, (monitor janitorConfig).Runs NonceExclusive (monitorStart janitorConfig 2 5) state ∧
      inFlight (T := sampleConfig) state = [5, 6] ∧ (inFlight state).Nodup :=
  ⟨pagesSent, pagesSent_runs, pagesSent_inFlight,
    in_flight_nonces_distinct _ 2 5 _ pagesSent_runs⟩

def offBlock (message : EraPruningMessage) : (op : Op sampleConfig) → Resp op :=
  servesBlock ⟨101, 101⟩ .off 7 5 message

def roundEnded : MonitorState sampleConfig janitorConfig :=
  (monitorStart janitorConfig 2 5).advances .listener
    (servesBlock ⟨100, 100⟩ .done 6 5 .enterOffPhase) 22

def pruningStarted : MonitorState sampleConfig janitorConfig :=
  (roundEnded.advances .listener (offBlock .enterOffPhase) 24).advances
    .eraPruning (offBlock .enterOffPhase) 4

def roundCleared : MonitorState sampleConfig janitorConfig :=
  (pruningStarted.advances .listener (offBlock .enterOffPhase) 2).advances
    .clearOldRounds (offBlock .enterOffPhase) 8

theorem roundEnded_runs :
    (monitor janitorConfig).Runs NonceExclusive (monitorStart janitorConfig 2 5) roundEnded := by
  apply Process.Runs.refl.play
  repeat refine ⟨by trivial, ?_⟩
  trivial

theorem pruningStarted_runs :
    (monitor janitorConfig).Runs NonceExclusive (monitorStart janitorConfig 2 5)
      pruningStarted := by
  apply Process.Runs.play
  · apply roundEnded_runs.play
    repeat refine ⟨by trivial, ?_⟩
    trivial
  · repeat refine ⟨by trivial, ?_⟩
    trivial

set_option maxRecDepth 2000 in
theorem roundCleared_runs :
    (monitor janitorConfig).Runs NonceExclusive (monitorStart janitorConfig 2 5)
      roundCleared := by
  apply Process.Runs.play
  · apply pruningStarted_runs.play
    repeat refine ⟨by trivial, ?_⟩
    trivial
  · repeat refine ⟨by first | trivial | exact ⟨⟨rfl, rfl⟩, fun _ member => nomatch member⟩, ?_⟩
    trivial

def nonceShared : MonitorState sampleConfig janitorConfig :=
  roundCleared.advances .eraPruning (offBlock (.newBlock 101)) 13

set_option maxRecDepth 2000 in
theorem nonceShared_runs :
    (monitor janitorConfig).Runs (fun _ _ => True) (monitorStart janitorConfig 2 5)
      nonceShared := by
  apply (roundCleared_runs.mono fun _ _ _ => trivial).play
  repeat refine ⟨by trivial, ?_⟩
  trivial

set_option maxRecDepth 2000 in
theorem nonceShared_inFlight : inFlight nonceShared = [5, 5] := rfl

/-- Both janitors read nonce 5 in the same Off phase and sign with it. -/
theorem janitors_share_a_nonce :
    ∃ state, (monitor janitorConfig).Runs (fun _ _ => True) (monitorStart janitorConfig 2 5) state ∧
      inFlight (T := sampleConfig) state = [5, 5] ∧ ¬(inFlight state).Nodup := by
  refine ⟨nonceShared, nonceShared_runs, nonceShared_inFlight, ?_⟩
  rw [nonceShared_inFlight]
  decide

end LeanStakingMiner
