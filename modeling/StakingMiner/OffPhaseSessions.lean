import StakingMiner.JanitorCore
import StakingMiner.ListenerLogic
import StakingMiner.ProgramEnds

/-!
Era-pruning sessions as the listener announces them. The listener records a phase before it
has told era pruning about it, so what is recorded and what was announced can differ when a
call is dropped in between, or when Off is left for a phase that announces nothing.
-/

namespace LeanStakingMiner

open LeanProgram

variable {T : MinerConfig} {env : MinerEnv T} {state : ListenerState} {history : MinerTrace T}

def Op.recorded : Op T → Option Phase
  | .phaseObserved _ current => some current
  | _ => none

def recordedPhases (trace : MinerTrace T) : List Phase :=
  trace.filterMap fun event => event.1.recorded

theorem recordedPhases_append (first second : MinerTrace T) :
    recordedPhases (first ++ second) = recordedPhases first ++ recordedPhases second :=
  List.filterMap_append

theorem recorded_unsignalled {op : Op T} (quiet : op.kind ≠ .signal) : op.recorded = none := by
  cases op <;> first | rfl | exact absurd rfl quiet

theorem recordedPhases_unsignalled {passed : MinerTrace T}
    (quiet : ∀ event ∈ passed, event.1.kind ≠ .signal) : recordedPhases passed = [] := by
  apply List.filterMap_eq_nil_iff.mpr
  intro event member
  exact recorded_unsignalled (quiet event member)

/-- `EnterOffPhase` was enqueued and only Off was recorded since. -/
def SessionStarted (history : MinerTrace T) : Prop :=
  ∃ before after, history = before ++ ⟨.eraPruningSend .enterOffPhase, true⟩ :: after ∧
    ∀ phase ∈ recordedPhases after, phase = .off

theorem SessionStarted.append (started : SessionStarted history) {passed : MinerTrace T}
    (off : ∀ phase ∈ recordedPhases passed, phase = .off) : SessionStarted (history ++ passed) := by
  obtain ⟨before, after, rfl, since⟩ := started
  refine ⟨before, after ++ passed, by simp, ?_⟩
  intro phase member
  rw [recordedPhases_append] at member
  rcases List.mem_append.mp member with earlier | later
  · exact since phase earlier
  · exact off phase later

def OffAnnounced (state : ListenerState) (history : MinerTrace T) : Prop :=
  state.prevPhase = some .off → SessionStarted history

theorem signalEraPruning_timed (message : EraPruningMessage)
    (delivers : env.fired false history = false) :
    Ends env (tokioTimeout (signalEraPruning message : Task T Unit))
      (GoneOr fun _ after => after = history ++ [⟨.eraPruningSend message, true⟩]) () history := by
  refine ends_unlessFired.mpr ?_
  rw [if_neg (by simp [delivers])]
  refine ends_call.mpr ?_
  cases sent : env.answer history (.eraPruningSend message) with
  | true => exact (ends_return _).mpr (Or.inr rfl)
  | false => exact (ends_return _).mpr (Or.inl rfl)

/-- No timer fires while the listener waits to enqueue `EnterOffPhase`, which it does right
after recording Off where another phase, or none, was recorded before. -/
def DeliversEnter (env : MinerEnv T) : Prop :=
  ∀ before last, last ≠ some .off →
    env.fired false (before ++ [⟨.phaseObserved last .off, ()⟩]) = false

theorem onOffPhase_timed (lastPhase : Option Phase) (header : Header)
    (delivers : lastPhase ≠ some .off → env.fired false history = false)
    (announced : lastPhase = some .off → SessionStarted history) :
    Ends env (tokioTimeout (onOffPhase lastPhase header : Task T ListenerAction))
      (GoneOr fun _ after => SessionStarted after) () history := by
  have newBlock (history : MinerTrace T) (started : SessionStarted history) :
      Ends env (tokioTimeout (do
          let _ ← ask (.eraPruningTrySend (.newBlock header.number))
          pure .goOn : Task T ListenerAction))
        (GoneOr fun _ after => SessionStarted after) () history := by
    refine ends_call.mpr ((ends_return _).mpr (Or.inr (started.append ?_)))
    simp [recordedPhases, Op.recorded]
  unfold onOffPhase startEraPruning
  by_cases already : lastPhase = some .off
  · rw [if_pos already]
    exact newBlock history (announced already)
  · rw [if_neg already]
    have entered (after : MinerTrace T)
        (enqueued : after = history ++ [⟨.eraPruningSend .enterOffPhase, true⟩]) :
        SessionStarted after := ⟨history, [], enqueued, by simp [recordedPhases]⟩
    refine GoneOr.seq (signalEraPruning_timed .enterOffPhase (delivers already)) ?_ ?_
    · intro _ _ after enqueued
      exact newBlock after (entered after enqueued)
    · intro _ after enqueued
      exact entered after enqueued

theorem handlePhase_timed (delivers : DeliversEnter env) (header : Header) (phase : Phase)
    (currentRound : Nat) (state : ListenerState) (history : MinerTrace T)
    (announced : OffAnnounced state history) :
    Ends env (tokioTimeout (handlePhase header phase currentRound state.prevPhase))
      (GoneOr OffAnnounced) { state with prevPhase := some phase }
      (history ++ [⟨.phaseObserved state.prevPhase phase, ()⟩]) := by
  have elsewhere (task : Task T ListenerAction) (entered : phase ≠ .off) (passed) :
      Ends env (tokioTimeout (task.lift : Miner T ListenerState ListenerAction)) (GoneOr OffAnnounced)
        { state with prevPhase := some phase } passed := by
    refine (ends_timeout_lift task).mpr (Or.inr ?_)
    intro off
    exact absurd (Option.some.inj off) entered
  cases phase with
  | off =>
      refine (ends_timeout_lift _).mpr ?_
      have recorded : recordedPhases
          ([⟨.phaseObserved state.prevPhase .off, ()⟩] : MinerTrace T) = [.off] := rfl
      refine (onOffPhase_timed state.prevPhase header (delivers history _) ?_).mono ?_
      · intro off
        apply (announced off).append
        simp [recorded]
      · rintro outcome _ after (gone | started)
        · exact Or.inl gone
        · exact Or.inr fun _ => started
  | signed blocks => exact elsewhere _ (by simp) _
  | snapshot page => exact elsewhere _ (by simp) _
  | _ =>
      refine (ends_return _).mpr (Or.inr ?_)
      intro off
      simp at off

theorem OffAnnounced.unsignalled {after : ListenerState} {passed : MinerTrace T}
    (announced : OffAnnounced state history) (samePhase : after.prevPhase = state.prevPhase)
    (quiet : ∀ event ∈ passed, event.1.kind ≠ .signal) : OffAnnounced after (history ++ passed) := by
  intro off
  apply (announced (samePhase ▸ off)).append
  simp [recordedPhases_unsignalled quiet]

/-- While no call is dropped in the middle of announcing an Off phase, the listener has Off
recorded only if it enqueued `EnterOffPhase` since the last other phase, or since it
started. -/
theorem recorded_off_announced (env : MinerEnv T) (delivers : DeliversEnter env) (turns : Nat)
    (running : (run env (listenerLoop turns) .initial []).outcome = .ok ())
    (off : (run env (listenerLoop turns) .initial []).store.prevPhase = some .off) :
    SessionStarted (run env (listenerLoop turns) .initial []).trace := by
  have initially : OffAnnounced .initial ([] : MinerTrace T) := by
    intro recorded
    simp [ListenerState.initial] at recorded
  have kept := listenerLoop_keeps OffAnnounced.unsignalled (handlePhase_timed delivers) turns
    initially
  exact kept running off

def sessionAfter (opened : Bool) : Event (Op T) Resp → Bool
  | ⟨.eraPruningSend .enterOffPhase, sent⟩ => opened || sent
  | ⟨.phaseObserved _ current, _⟩ => opened && current == .off
  | _ => opened

theorem sessionAfter_stays (event : Event (Op T) Resp)
    (off : ∀ phase, event.1.recorded = some phase → phase = .off) :
    sessionAfter true event = true := by
  rcases event with ⟨op, answer⟩
  cases op with
  | phaseObserved last current => simp [sessionAfter, off current rfl]
  | eraPruningSend message => cases message <;> rfl
  | _ => rfl

theorem SessionStarted.opened (started : SessionStarted history) :
    history.foldl sessionAfter false = true := by
  obtain ⟨before, after, rfl, since⟩ := started
  have entered (opened : Bool) :
      sessionAfter opened (⟨.eraPruningSend .enterOffPhase, true⟩ : Event (Op T) Resp) = true := by
    simp [sessionAfter]
  rw [List.foldl_append, List.foldl_cons, entered]
  clear entered
  induction after with
  | nil => rfl
  | cons event rest ih =>
      rw [List.foldl_cons, sessionAfter_stays event]
      · apply ih
        intro phase member
        apply since phase
        exact recordedPhases_append [event] rest ▸ List.mem_append_right _ member
      · intro phase recorded
        apply since phase
        simp [recordedPhases, recorded]

def nextBlockNumber (history : MinerTrace T) : Nat :=
  history.countP fun event => match event.1 with
    | .nextBlock => true
    | _ => false

def phaseChain (phases : List Phase) (fired : Bool → MinerTrace sampleConfig → Bool) :
    MinerEnv sampleConfig where
  answer history
    | .nextBlock => some (some (.ok ⟨nextBlockNumber history, nextBlockNumber history⟩))
    | .storageAt hash => .ok hash
    | .currentPhase _ atBlock => .ok phases[atBlock]?
    | .round _ => .ok 0
    | .desiredTargets _ _ => .ok (some 2)
    | .streamBlocks => .ok ()
    | .minerTrySend _ | .eraPruningTrySend _ => .sent
    | op => unavailable op
  fired := fired

theorem recorded_off_announced_again :
    SessionStarted (run (phaseChain [.off, .snapshot 1, .off] fun _ _ => false) (listenerLoop 3)
      .initial []).trace :=
  recorded_off_announced _ (fun _ _ _ => rfl) 3 (by decide) (by decide)

def stuckInEnter : Bool → MinerTrace sampleConfig → Bool
  | false, history => match history.getLast? with
      | some ⟨.phaseObserved (some (.snapshot _)) .off, _⟩ => true
      | _ => false
  | true, _ => false

/-- Off, Snapshot, Off, with the call for the last block dropped while `EnterOffPhase` waits
for room: the later Off block does not announce the phase any more. -/
theorem dropped_enter_is_never_sent :
    let result := run (phaseChain [.off, .snapshot 1, .off, .off] stuckInEnter) (listenerLoop 4)
      .initial []
    result.outcome = .ok () ∧ result.store.prevPhase = some .off ∧
      recordedPhases result.trace = [.off, .snapshot 1, .off, .off] ∧
      ¬SessionStarted result.trace := by
  refine ⟨by decide, by decide, by decide, ?_⟩
  intro started
  have opened := started.opened
  revert opened
  decide

end LeanStakingMiner
