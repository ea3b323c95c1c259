import StakingMiner.EraPruningRuns
import StakingMiner.OffPhaseSessions

/-!
Which phases leave era pruning active. The pruning task follows the messages the listener
enqueues, and the listener enqueues them on some of the changes of phase only: a session
ends when a Signed or Snapshot block directly follows an Off block, not when the Off phase
ends.
-/

namespace LeanStakingMiner

open LeanProgram

variable {T : MinerConfig} {env : MinerEnv T} {history passed : MinerTrace T}

def enqueuedMessage : Event (Op T) Resp → Option EraPruningMessage
  | ⟨.eraPruningSend message, true⟩ => some message
  | ⟨.eraPruningTrySend message, .sent⟩ => some message
  | _ => none

def receivedMessage : Event (Op T) Resp → Option EraPruningMessage
  | ⟨.eraPruningRecv, message⟩ => message
  | _ => none

def enqueuedMessages (trace : MinerTrace T) : List EraPruningMessage :=
  trace.filterMap enqueuedMessage

def receivedMessages (trace : MinerTrace T) : List EraPruningMessage :=
  trace.filterMap receivedMessage

def activeAfter (active : Bool) : EraPruningMessage → Bool
  | .enterOffPhase => true
  | .exitOffPhase => false
  | .newBlock _ => active

/-- `pruning_active` once everything the listener enqueued has been handled. -/
def activeOnceDrained (history : MinerTrace T) : Bool :=
  (enqueuedMessages history).foldl activeAfter false

theorem activeOnceDrained_append (first second : MinerTrace T) :
    activeOnceDrained (first ++ second) =
      (enqueuedMessages second).foldl activeAfter (activeOnceDrained first) := by
  simp [activeOnceDrained, enqueuedMessages]

theorem enqueuedMessages_unsignalled (quiet : ∀ event ∈ passed, event.1.kind ≠ .signal) :
    enqueuedMessages passed = [] := by
  apply List.filterMap_eq_nil_iff.mpr
  rintro ⟨op, answer⟩ member
  have unsignalled := quiet _ member
  cases op <;> first | rfl | exact absurd rfl unsignalled

def HeadedFor (active : Bool) (history after : MinerTrace T) : Prop :=
  recordedPhases after = recordedPhases history ∧ activeOnceDrained after = active

theorem HeadedFor.unsignalled {active : Bool} {after : MinerTrace T}
    (headed : HeadedFor active history after) (quiet : ∀ event ∈ passed, event.1.kind ≠ .signal) :
    HeadedFor active history (after ++ passed) := by
  obtain ⟨phases, same⟩ := headed
  constructor
  · rw [recordedPhases_append, recordedPhases_unsignalled quiet, List.append_nil, phases]
  · rw [activeOnceDrained_append, enqueuedMessages_unsignalled quiet]
    exact same

theorem HeadedFor.event {active : Bool} {after : MinerTrace T}
    (headed : HeadedFor active history after) (event : Event (Op T) Resp)
    (unrecorded : event.1.recorded = none)
    (same : (enqueuedMessages [event]).foldl activeAfter active = active) :
    HeadedFor active history (after ++ [event]) := by
  obtain ⟨phases, before⟩ := headed
  constructor
  · rw [recordedPhases_append, phases]
    simp [recordedPhases, unrecorded]
  · rw [activeOnceDrained_append, before, same]

theorem signalEraPruning_headed (quiet : env.Quiet) (message : EraPruningMessage) :
    Ends env (tokioTimeout (signalEraPruning message : Task T Unit))
      (GoneOr fun _ after => HeadedFor (activeAfter (activeOnceDrained history) message) history
        after) () history := by
  refine (signalEraPruning_timed message (quiet _ _)).mono ?_
  rintro outcome _ after (gone | rfl)
  · exact Or.inl gone
  · refine Or.inr ⟨?_, ?_⟩
    · simp [recordedPhases, Op.recorded]
    · simp [activeOnceDrained_append, enqueuedMessages, enqueuedMessage]

theorem onOffPhase_headed (quiet : env.Quiet) (lastPhase : Option Phase) (header : Header) :
    Ends env (tokioTimeout (onOffPhase lastPhase header : Task T ListenerAction))
      (GoneOr fun _ after => HeadedFor (activeOnceDrained history || lastPhase != some .off) history
        after) () history := by
  have started : Ends env (tokioTimeout (startEraPruning lastPhase : Task T Unit))
      (GoneOr fun _ after => HeadedFor (activeOnceDrained history || lastPhase != some .off) history
        after) () history := by
    unfold startEraPruning
    by_cases already : lastPhase = some .off
    · rw [if_pos already]
      refine (ends_return _).mpr (Or.inr ⟨rfl, ?_⟩)
      simp [already]
    · rw [if_neg already]
      have entered : (activeOnceDrained history || lastPhase != some .off) = true := by
        simp [already]
      rw [entered]
      exact signalEraPruning_headed quiet .enterOffPhase
  refine GoneOr.seq started ?_ (fun _ _ headed => headed)
  intro _ _ after headed
  refine ends_call.mpr ((ends_return _).mpr (Or.inr (headed.event _ rfl ?_)))
  cases env.answer after (.eraPruningTrySend (.newBlock header.number)) <;> rfl

theorem onMiningPhase_headed (quiet : env.Quiet) (lastPhase : Option Phase) (header : Header)
    (phase : Phase) (round : Nat) :
    Ends env (tokioTimeout (onMiningPhase lastPhase header phase round : Task T ListenerAction))
      (GoneOr fun _ after => HeadedFor (activeOnceDrained history && lastPhase != some .off) history
        after) () history := by
  have stopped : Ends env (tokioTimeout (stopEraPruning lastPhase : Task T Unit))
      (GoneOr fun _ after => HeadedFor (activeOnceDrained history && lastPhase != some .off) history
        after) () history := by
    unfold stopEraPruning
    by_cases off : lastPhase = some .off
    · rw [if_pos off]
      have exited : (activeOnceDrained history && lastPhase != some .off) = false := by
        simp [off]
      rw [exited]
      exact signalEraPruning_headed quiet .exitOffPhase
    · rw [if_neg off]
      refine (ends_return _).mpr (Or.inr ⟨rfl, ?_⟩)
      simp [off]
  refine GoneOr.seq stopped ?_ (fun _ _ headed => headed)
  intro _ _ after headed
  have details : Ends env (tokioTimeout (newBlockDetails header phase round : Task T BlockDetails))
      (GoneOr fun _ later => HeadedFor (activeOnceDrained history && lastPhase != some .off) history
        later) () after := by
    refine (newBlockDetails_issues header phase round).passesTimed.mono ?_
    rintro outcome _ later ⟨passed, rfl, issued⟩
    refine Or.inr (headed.unsignalled ?_)
    intro event member signal
    simpa [signal] using issued event member
  refine GoneOr.seq details ?_ (fun _ _ headed => headed)
  intro state _ later headed
  refine ends_call.mpr ?_
  have sent := headed.event ⟨.minerTrySend (.processBlock state),
    env.answer later (.minerTrySend (.processBlock state))⟩ rfl rfl
  cases answered : env.answer later (.minerTrySend (.processBlock state)) with
  | closed => exact (ends_return _).mpr (Or.inr (answered ▸ sent))
  | sent => exact (ends_return _).mpr (Or.inr (answered ▸ sent))
  | full => exact (ends_return _).mpr (Or.inr (answered ▸ sent))

def Phase.isMining : Phase → Bool
  | .signed _ | .snapshot _ => true
  | _ => false

/-- Some Off phase was recorded and the phase right after the last of them, if there is one,
is not a mining phase. -/
def SessionOpen (phases : List Phase) : Prop :=
  ∃ before rest, phases = before ++ .off :: rest ∧ .off ∉ rest ∧
    ∀ phase, rest.head? = some phase → phase.isMining = false

theorem sessionOpen_off (phases : List Phase) : SessionOpen (phases ++ [.off]) :=
  ⟨phases, [], rfl, by simp, by simp⟩

theorem sessionOpen_snoc {phases : List Phase} {phase : Phase} (left : phase ≠ .off) :
    SessionOpen (phases ++ [phase]) ↔
      SessionOpen phases ∧ (phases.getLast? = some .off → phase.isMining = false) := by
  constructor
  · rintro ⟨before, rest, split, noOff, calm⟩
    rcases List.eq_nil_or_concat' rest with rfl | ⟨earlier, last, rfl⟩
    · have ends := congrArg List.getLast? split
      simp at ends
      exact absurd ends left
    · have aligned : phases ++ [phase] = (before ++ .off :: earlier) ++ [last] := by
        simpa using split
      obtain ⟨rfl, lastEq⟩ := List.append_inj' aligned rfl
      obtain rfl : phase = last := by simpa using lastEq
      have unseen : .off ∉ earlier := fun seen => noOff (List.mem_append_left _ seen)
      cases earlier with
      | nil => exact ⟨⟨before, [], rfl, unseen, by simp⟩, fun _ => calm phase rfl⟩
      | cons next others =>
          refine ⟨⟨before, next :: others, rfl, unseen, fun _ first => calm _ first⟩, ?_⟩
          intro ends
          have seen : (next :: others).getLast? = some .off := by
            simpa [List.getLast?_append] using ends
          exact absurd (List.mem_of_getLast? seen) unseen
  · rintro ⟨⟨before, rest, rfl, noOff, calm⟩, next⟩
    refine ⟨before, rest ++ [phase], by simp, ?_, ?_⟩
    · simp [noOff, left.symm]
    · intro first head
      cases rest with
      | nil =>
          have same : phase = first := by simpa using head
          exact same ▸ next (by simp)
      | cons other others => exact calm first head

theorem sessionOpen_iff_last_off (phases : List Phase) :
    (SessionOpen phases ↔ phases.getLast? = some .off) ↔
      ∀ before phase after, phases = before ++ .off :: phase :: after → .off ∉ phase :: after →
        phase.isMining = true := by
  constructor
  · intro same before phase after split noOff
    by_contra idle
    have opened : SessionOpen phases := by
      refine ⟨before, phase :: after, split, noOff, ?_⟩
      intro first head
      simp only [List.head?_cons, Option.some.injEq] at head
      simpa [← head] using idle
    have ends := same.mp opened
    have last : (phase :: after).getLast? = some .off := by
      simpa [split, List.getLast?_append] using ends
    exact noOff (List.mem_of_getLast? last)
  · intro leaves
    constructor
    · rintro ⟨before, rest, split, noOff, calm⟩
      cases rest with
      | nil => simp [split]
      | cons phase after =>
          have mining := leaves before phase after split noOff
          rw [calm phase rfl] at mining
          contradiction
    · intro ends
      obtain ⟨before, rfl⟩ := List.getLast?_eq_some_iff.mp ends
      exact sessionOpen_off before

structure Tracked (state : ListenerState) (history : MinerTrace T) : Prop where
  lastPhase : state.prevPhase = (recordedPhases history).getLast?
  active : activeOnceDrained history = true ↔ SessionOpen (recordedPhases history)

theorem Tracked.unsignalled {state after : ListenerState} (tracked : Tracked state history)
    (samePhase : after.prevPhase = state.prevPhase)
    (quiet : ∀ event ∈ passed, event.1.kind ≠ .signal) : Tracked after (history ++ passed) := by
  have phases : recordedPhases (history ++ passed) = recordedPhases history := by
    rw [recordedPhases_append, recordedPhases_unsignalled quiet, List.append_nil]
  have same : activeOnceDrained (history ++ passed) = activeOnceDrained history := by
    rw [activeOnceDrained_append, enqueuedMessages_unsignalled quiet]
    rfl
  constructor
  · rw [samePhase, phases, tracked.lastPhase]
  · rw [phases, same, tracked.active]

theorem tracked_of_recorded {state : ListenerState} {phase : Phase}
    {active : Bool} {after : MinerTrace T}
    (headed : HeadedFor active (history ++ [⟨.phaseObserved state.prevPhase phase, ()⟩]) after)
    (opens : active = true ↔ SessionOpen (recordedPhases history ++ [phase])) :
    Tracked { state with prevPhase := some phase } after := by
  have phases : recordedPhases after = recordedPhases history ++ [phase] := by
    rw [headed.1, recordedPhases_append]
    rfl
  constructor
  · rw [phases, List.getLast?_concat]
  · rw [phases, headed.2, opens]

theorem handlePhase_tracked (quiet : env.Quiet) (header : Header) (phase : Phase)
    (currentRound : Nat) (state : ListenerState) (history : MinerTrace T)
    (tracked : Tracked state history) :
    Ends env (tokioTimeout (handlePhase header phase currentRound state.prevPhase))
      (GoneOr Tracked) { state with prevPhase := some phase }
      (history ++ [⟨.phaseObserved state.prevPhase phase, ()⟩]) := by
  have observed : activeOnceDrained
      (history ++ [⟨.phaseObserved state.prevPhase phase, ()⟩]) = activeOnceDrained history := by
    rw [activeOnceDrained_append]
    rfl
  have mining (stops : phase.isMining = true) (left : phase ≠ .off) :
      Ends env (tokioTimeout ((onMiningPhase state.prevPhase header phase currentRound).lift :
        Miner T ListenerState ListenerAction)) (GoneOr Tracked)
        { state with prevPhase := some phase }
        (history ++ [⟨.phaseObserved state.prevPhase phase, ()⟩]) := by
    refine (ends_timeout_lift _).mpr ((onMiningPhase_headed quiet _ header _ _).mono ?_)
    rintro outcome _ after (gone | headed)
    · exact Or.inl gone
    · refine Or.inr (tracked_of_recorded headed ?_)
      rw [observed, sessionOpen_snoc left, ← tracked.lastPhase, ← tracked.active]
      simp [stops]
  cases phase with
  | off =>
      refine (ends_timeout_lift _).mpr ((onOffPhase_headed quiet _ header).mono ?_)
      rintro outcome _ after (gone | headed)
      · exact Or.inl gone
      · refine Or.inr (tracked_of_recorded headed ?_)
        simp only [sessionOpen_off, iff_true, observed, Bool.or_eq_true]
        by_cases already : state.prevPhase = some .off
        · left
          rw [tracked.active]
          have ends := tracked.lastPhase.symm.trans already
          obtain ⟨before, split⟩ := List.getLast?_eq_some_iff.mp ends
          rw [split]
          exact sessionOpen_off before
        · right
          simp [already]
  | signed blocks => exact mining rfl (by simp)
  | snapshot page => exact mining rfl (by simp)
  | _ =>
      refine (ends_return _).mpr (Or.inr (tracked_of_recorded ⟨rfl, observed⟩ ?_))
      rw [sessionOpen_snoc (by simp), tracked.active]
      simp [Phase.isMining]

theorem pruningMonitor_after_active (pruning : Pruning) (trace : MinerTrace T) :
    (pruningMonitor.after pruning trace).active =
      (receivedMessages trace).foldl activeAfter pruning.active := by
  induction trace generalizing pruning with
  | nil => rfl
  | cons event rest ih =>
      rw [Monitor.after_cons, ih]
      obtain ⟨op, answer⟩ := event
      cases op with
      | eraPruningRecv => rcases answer with _ | _ | _ | blockNumber <;> rfl
      | _ => rfl

theorem lazyEraPruningLoop_between (turns : Nat) {pruningActive : Bool} {pruning : Pruning}
    (between : BetweenTurns pruningActive pruning) :
    wp pruningMonitor (lazyEraPruningLoop turns : Miner T Bool Unit)
      (fun outcome active after => outcome = .ok () → BetweenTurns active after)
      pruningActive pruning := by
  induction turns generalizing pruningActive pruning with
  | zero => exact fun _ => between
  | succ turns ih =>
      refine wp_seq (lazyEraPruningTurn_pruning pruningActive pruning between) ?_ (by simp) (by simp)
      intro _ active after between
      exact ih (between rfl)

theorem lazyEraPruningLoop_active (env : MinerEnv T) (turns : Nat)
    (running : (run env (lazyEraPruningLoop turns) false []).outcome = .ok ()) :
    (run env (lazyEraPruningLoop turns) false []).store =
      (receivedMessages (run env (lazyEraPruningLoop turns) false []).trace).foldl activeAfter
        false := by
  have expected (pruning : Pruning) (trace : MinerTrace T) :
      pruningMonitor.Expected pruning trace := by
    induction trace generalizing pruning with
    | nil => trivial
    | cons event rest ih => exact ⟨trivial, ih _⟩
  have initially : BetweenTurns false ⟨false, false, false⟩ := ⟨rfl, rfl⟩
  have between := (wp_run env [] (lazyEraPruningLoop_between turns initially) (expected _ _)).2
  rw [(between running).1, pruningMonitor_after_active]

/-- Once era pruning has handled all the listener sent it, it is active exactly in the Off
phase if and only if the phase that followed the last Off block, unless none did, was Signed
or Snapshot. -/
theorem active_in_off_phase_iff (chain : MinerEnv T) (quiet : chain.Quiet) (turns : Nat)
    (phases : List Phase) (listening : (run chain (listenerLoop turns) .initial []).outcome = .ok ())
    (observes : recordedPhases (run chain (listenerLoop turns) .initial []).trace = phases)
    (drain : MinerEnv T) (messages : Nat)
    (pruning : (run drain (lazyEraPruningLoop messages) false []).outcome = .ok ())
    (drained : receivedMessages (run drain (lazyEraPruningLoop messages) false []).trace =
      enqueuedMessages (run chain (listenerLoop turns) .initial []).trace) :
    ((run drain (lazyEraPruningLoop messages) false []).store = true ↔
        phases.getLast? = some .off) ↔
      ∀ before phase after, phases = before ++ .off :: phase :: after → .off ∉ phase :: after →
        phase.isMining = true := by
  have initially : Tracked .initial ([] : MinerTrace T) := by
    constructor
    · rfl
    · constructor
      · intro active
        exact absurd active Bool.false_ne_true
      · rintro ⟨before, rest, split, _⟩
        exact absurd split.symm (by simp [recordedPhases])
  have tracked := listenerLoop_keeps Tracked.unsignalled (handlePhase_tracked quiet) turns initially
    listening
  rw [List.nil_append] at tracked
  have active := lazyEraPruningLoop_active drain messages pruning
  rw [drained] at active
  change _ = activeOnceDrained _ at active
  rw [active, tracked.active, observes]
  exact sessionOpen_iff_last_off phases

def drainEnv (messages : List EraPruningMessage) : MinerEnv sampleConfig where
  answer history
    | .eraPruningRecv => messages[(receivedMessages history).length]?
    | op => unavailable op
  fired _ _ := false

theorem active_in_off_phase_iff_snapshot :
    ((run (drainEnv [.enterOffPhase, .newBlock 0, .exitOffPhase]) (lazyEraPruningLoop 3)
        false []).store = true ↔ [Phase.off, .snapshot 1].getLast? = some .off) ↔
      ∀ before phase after, [Phase.off, .snapshot 1] = before ++ .off :: phase :: after →
        .off ∉ phase :: after → phase.isMining = true :=
  active_in_off_phase_iff (phaseChain [.off, .snapshot 1] fun _ _ => false) (fun _ _ => rfl) 2 _
    (by decide) (by decide) _ 3 (by decide) (by decide)

/-- An Off block followed by a block of the Done phase: nothing tells era pruning to stop. -/
theorem pruning_stays_active_after_off :
    let listened := run (phaseChain [.off, .done] fun _ _ => false) (listenerLoop 2) .initial []
    let pruned := run (drainEnv (enqueuedMessages listened.trace)) (lazyEraPruningLoop 2) false []
    listened.outcome = .ok () ∧ recordedPhases listened.trace = [.off, .done] ∧
      pruned.outcome = .ok () ∧ receivedMessages pruned.trace = enqueuedMessages listened.trace ∧
      ¬(pruned.store = true ↔ (recordedPhases listened.trace).getLast? = some .off) := by
  decide

end LeanStakingMiner
