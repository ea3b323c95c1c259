import StakingMiner.ProgramInvariants
import StakingMiner.TaskMessages

/-!
The rounds of what the listener sends to the miner. The blocks come in the order of their rounds,
and between two blocks the caches are cleared only if the round has gone up, also where the
processing of a block is dropped.
-/

namespace LeanStakingMiner

open LeanProgram

variable {T : MinerConfig} {config : ProcessConfig}

def raised (floor : Nat) : MinerMessage → Nat
  | .processBlock details => max floor details.round
  | .clearSnapshots => floor + 1

def floorOf (messages : List MinerMessage) : Nat := messages.foldl raised 0

/-- The rounds of the blocks do not fall, and rise where the caches are cleared. -/
def Rising (messages : List MinerMessage) : Prop :=
  ∀ before details after, messages = before ++ .processBlock details :: after →
    floorOf before ≤ details.round

section Messages

variable {messages : List MinerMessage} {message : MinerMessage}

@[simp] theorem floorOf_append (messages : List MinerMessage) (message : MinerMessage) :
    floorOf (messages ++ [message]) = raised (floorOf messages) message := by
  simp [floorOf]

theorem rising_nil : Rising [] := by
  intro before details after split
  simp at split

theorem Rising.append (rising : Rising messages)
    (fits : ∀ details, message = .processBlock details → floorOf messages ≤ details.round) :
    Rising (messages ++ [message]) := by
  intro before details after split
  rcases List.eq_nil_or_concat' after with rfl | ⟨sooner, newest, rfl⟩
  · obtain ⟨rfl, ends⟩ := List.append_inj' split rfl
    cases ends
    exact fits details rfl
  · rw [← List.cons_append, ← List.append_assoc] at split
    exact rising before details sooner (List.append_inj' split rfl).1

end Messages

structure ListenerView where
  read : Nat
  sent : List MinerMessage

def readRound : Event (Op T) Resp → Option Nat
  | ⟨.round _, .ok round⟩ => some round
  | _ => none

def risingMonitor : Monitor (Op T) Resp ListenerView where
  expects view op answer := ∀ round, readRound ⟨op, answer⟩ = some round → view.read ≤ round
  allows view
    | .minerSend message => message = .clearSnapshots ∧ floorOf view.sent < view.read
    | .minerTrySend message =>
        ∃ details, message = .processBlock details ∧ floorOf view.sent ≤ details.round
    | _ => True
  next view op answer :=
    ⟨(readRound ⟨op, answer⟩).getD view.read, view.sent ++ (sentToMiner ⟨op, answer⟩).toList⟩

structure Behind (state : ListenerState) (view : ListenerView) : Prop where
  low : floorOf view.sent ≤ view.read
  seen : ∀ round, state.prevRound = some round → floorOf view.sent ≤ round ∧ round ≤ view.read

def Current (round : Nat) (view : ListenerView) : Prop :=
  view.read = round ∧ floorOf view.sent ≤ round

section Listener

variable {σ α β : Type} {store : σ} {view : ListenerView} {keeps : σ → ListenerView → Prop}
variable {post : β → σ → ListenerView → Prop} {round : Nat} {header : Header} {phase : Phase}

theorem Current.behind (current : Current round view) {state : ListenerState}
    (remembered : state.prevRound = some round) : Behind state view := by
  obtain ⟨rfl, low⟩ := current
  refine ⟨low, ?_⟩
  rintro _ same
  cases remembered.symm.trans same
  exact ⟨low, Nat.le_refl _⟩

def Op.unrelated : Op T → Bool
  | .round _ | .minerSend _ | .minerTrySend _ => false
  | _ => true

theorem risingMonitor_ignores {op : Op T} (unrelated : op.unrelated = true) :
    risingMonitor.Ignores view op := by
  have silent (answer : Resp op) :
      readRound ⟨op, answer⟩ = none ∧ sentToMiner ⟨op, answer⟩ = none := by
    cases op <;> first | exact ⟨rfl, rfl⟩ | cases unrelated
  constructor
  · cases op <;> trivial
  · intro answer
    simp [risingMonitor, silent answer]

theorem stays_unrelated {op : Op T} {rest : Resp op → Miner T σ β}
    (unrelated : op.unrelated = true) (kept : keeps store view)
    (next : ∀ answer, Stays risingMonitor keeps (rest answer) post store view) :
    Stays risingMonitor keeps (ask op >>= rest) post store view := by
  obtain ⟨allowed, same⟩ : risingMonitor.Ignores view op := risingMonitor_ignores unrelated
  refine ⟨kept, allowed, fun answer _ => ?_⟩
  rw [same answer]
  exact ⟨kept, next answer⟩

theorem stays_rpc {answer : Read α} {rest : α → Miner T σ β} (kept : keeps store view)
    (next : ∀ value, answer = .ok value → Stays risingMonitor keeps (rest value) post store view) :
    Stays risingMonitor keeps (rpc answer >>= rest) post store view := by
  cases answer with
  | error failed => exact kept
  | ok value => exact next value rfl

theorem getBlockState_rising {state : ListenerState} (behind : Behind state view) :
    Stays risingMonitor (fun _ => Behind state) (getBlockState header.hash : Task T (Phase × Nat))
      (fun result _ after => after.read = result.2) () view := by
  refine stays_unrelated rfl behind fun _ => stays_rpc behind fun atBlock _ => ?_
  refine stays_unrelated rfl behind fun _ => stays_rpc behind fun found _ => ?_
  refine ⟨behind, trivial, fun answer expected => ?_⟩
  cases answer with
  | error failed =>
      have same : risingMonitor.next view (.round atBlock : Op T) (.error failed) = view := by
        simp [risingMonitor, readRound, sentToMiner]
      rw [same]
      exact ⟨behind, behind⟩
  | ok round =>
      have grown : view.read ≤ round := expected round rfl
      have later : Behind state (risingMonitor.next view (.round atBlock : Op T) (.ok round)) := by
        simp only [risingMonitor, readRound, sentToMiner, Option.toList_none, List.append_nil,
          Option.getD_some]
        refine ⟨Nat.le_trans behind.low grown, fun last same => ?_⟩
        obtain ⟨low, high⟩ := behind.seen last same
        exact ⟨low, Nat.le_trans high grown⟩
      exact ⟨later, later, rfl⟩

theorem checkRoundIncrement_rising {lastRound : Option Nat} (current : Current round view)
    (last : ∀ earlier, lastRound = some earlier → floorOf view.sent ≤ earlier) :
    Stays risingMonitor (fun _ => Current round)
      (checkRoundIncrement lastRound round phase : Task T Unit) (fun _ _ _ => True) () view := by
  unfold checkRoundIncrement
  split
  · rename_i increased
    obtain ⟨earlier, same, below⟩ := (Option.any_eq_true _ _).mp increased
    have low : floorOf view.sent < round :=
      Nat.lt_of_le_of_lt (last earlier same) (of_decide_eq_true below)
    refine stays_unrelated rfl current fun answer => ?_
    cases answer with
    | closed => exact current
    | sent | full =>
        dsimp only
        split
        · refine ⟨current, ⟨rfl, current.1.symm ▸ low⟩, fun sent _ => ?_⟩
          have later : Current round
              (risingMonitor.next view (.minerSend .clearSnapshots : Op T) sent) := by
            cases sent with
            | false => simpa [Current, risingMonitor, readRound, sentToMiner] using current
            | true => simpa [Current, risingMonitor, readRound, sentToMiner, raised, current.1]
          refine ⟨later, ?_⟩
          cases sent with
          | false => exact later
          | true => exact ⟨later, trivial⟩
        · exact ⟨current, trivial⟩
  · exact ⟨current, trivial⟩

theorem signalEraPruning_rising {message : EraPruningMessage} (current : Current round view) :
    Stays risingMonitor (fun _ => Current round) (signalEraPruning message : Task T Unit)
      (fun _ _ _ => True) () view := by
  refine stays_unrelated rfl current fun sent => ?_
  cases sent with
  | false => exact current
  | true => exact ⟨current, trivial⟩

theorem onOffPhase_rising (lastPhase : Option Phase) (current : Current round view) :
    Stays risingMonitor (fun _ => Current round) (onOffPhase lastPhase header : Task T _)
      (fun _ _ _ => True) () view := by
  have started : Stays risingMonitor (fun _ => Current round)
      (startEraPruning lastPhase : Task T Unit) (fun _ _ _ => True) () view := by
    unfold startEraPruning
    split
    · exact ⟨current, trivial⟩
    · exact signalEraPruning_rising current
  refine started.bind fun _ _ after current _ => ?_
  exact stays_unrelated rfl current fun _ => ⟨current, trivial⟩

theorem newBlockDetails_rising (current : Current round view) :
    Stays risingMonitor (fun _ => Current round)
      (newBlockDetails header phase round : Task T BlockDetails)
      (fun details _ _ => details.round = round) () view := by
  refine stays_unrelated rfl current fun _ => stays_rpc current fun atBlock _ => ?_
  refine stays_unrelated rfl current fun _ => stays_rpc current fun found _ => ?_
  exact stays_unrelated rfl current fun nPages => ⟨current, rfl⟩

theorem onMiningPhase_rising (lastPhase : Option Phase) (current : Current round view) :
    Stays risingMonitor (fun _ => Current round)
      (onMiningPhase lastPhase header phase round : Task T ListenerAction)
      (fun _ _ _ => True) () view := by
  have stopped : Stays risingMonitor (fun _ => Current round)
      (stopEraPruning lastPhase : Task T Unit) (fun _ _ _ => True) () view := by
    unfold stopEraPruning
    split
    · exact signalEraPruning_rising current
    · exact ⟨current, trivial⟩
  refine stopped.bind fun _ _ after current _ => ?_
  refine (newBlockDetails_rising current).bind ?_
  rintro details _ after current rfl
  refine ⟨current, ⟨details, rfl, current.2⟩, fun answer _ => ?_⟩
  have later : Current details.round
      (risingMonitor.next after (.minerTrySend (.processBlock details) : Op T) answer) := by
    cases answer with
    | sent => simpa [Current, risingMonitor, readRound, sentToMiner, raised] using current
    | full | closed => simpa [Current, risingMonitor, readRound, sentToMiner] using current
  refine ⟨later, ?_⟩
  cases answer with
  | closed => exact later
  | sent | full => exact ⟨later, trivial⟩

theorem rising_lift {task : Task T α} {state : ListenerState}
    (stays : Stays risingMonitor (fun _ => Current round) task (fun _ _ _ => True) () view)
    (remembered : state.prevRound = some round) :
    Stays risingMonitor Behind (task.lift : Miner T ListenerState α)
      (fun _ store after => store = state ∧ Current round after) state view :=
  Stays.lift ((stays.kept.weaken fun _ _ current => current.behind remembered).mono
    fun _ _ _ ends => ⟨rfl, ends.1⟩)

theorem processBlockInternal_rising {state : ListenerState} (behind : Behind state view) :
    Stays risingMonitor Behind (processBlockInternal header : Miner T ListenerState _)
      (fun _ _ _ => True) state view := by
  have read : Stays risingMonitor Behind
      ((getBlockState header.hash : Task T _).lift : Miner T ListenerState (Phase × Nat))
      (fun result store after => store = state ∧ after.read = result.2) state view :=
    Stays.lift ((getBlockState_rising behind).mono fun _ _ _ same => ⟨rfl, same⟩)
  refine read.bind ?_
  rintro ⟨phase, round⟩ store after still ⟨rfl, same⟩
  have current : Current round after := ⟨same, Nat.le_trans still.low (Nat.le_of_eq same)⟩
  change Stays risingMonitor Behind
    ((checkRoundIncrement store.prevRound round phase).lift >>= _) _ _ _
  refine (rising_lift (checkRoundIncrement_rising current
    fun earlier same => (still.seen earlier same).1) rfl).bind ?_
  rintro _ _ after _ ⟨rfl, current⟩
  change Stays risingMonitor Behind (ask (.phaseObserved _ phase) >>= _) _ _ _
  refine stays_unrelated rfl (current.behind rfl) fun _ => ?_
  have ends {task : Task T ListenerAction} {store : ListenerState}
      (remembered : store.prevRound = some round)
      (stays : Stays risingMonitor (fun _ => Current round) task (fun _ _ _ => True) () after) :
      Stays risingMonitor Behind (task.lift : Miner T ListenerState ListenerAction)
        (fun _ _ _ => True) store after :=
    (rising_lift stays remembered).mono fun _ _ _ _ => trivial
  cases phase with
  | off => exact ends rfl (onOffPhase_rising _ current)
  | signed blocks => exact ends rfl (onMiningPhase_rising _ current)
  | snapshot page => exact ends rfl (onMiningPhase_rising _ current)
  | _ => exact ⟨current.behind rfl, trivial⟩

theorem recreateSubscription_rising (action : ListenerAction) {state : ListenerState}
    (behind : Behind state view) :
    wp risingMonitor (recreateSubscription action : Miner T ListenerState ListenerAction)
      (fun _ store after => Behind store after) state view := by
  have recreated : wp (Monitor.issuing Resp fun op : Op T => op.unrelated = true)
      (recreateSubscriptionWithFailover : Task T Unit) (fun _ _ _ => True) () () := by
    refine ⟨rfl, fun answer _ => ?_⟩
    cases answer with
    | ok _ => trivial
    | error _ =>
        refine ⟨rfl, fun answer _ => ?_⟩
        cases answer with
        | error _ => trivial
        | ok _ => exact ⟨rfl, fun answer _ => by cases answer <;> trivial⟩
  have counted : Behind { state with
      subscriptionRecreationAttempts := state.subscriptionRecreationAttempts + 1 } view :=
    ⟨behind.low, behind.seen⟩
  rw [recreateSubscription, wp_bind, wp_modify, followedBy_ok, wp_bind, wp_load, followedBy_ok]
  split
  · exact counted
  · rw [wp_bind, wp_lift]
    refine wp_mono (wp_of_issuing recreated fun _ => risingMonitor_ignores) ?_
    rintro (_ | error | _) _ _ ⟨rfl, _⟩ <;> exact counted

theorem processListenerIteration_rising {state : ListenerState} (behind : Behind state view) :
    wp risingMonitor (processListenerIteration : Miner T ListenerState ListenerAction)
      (fun _ store after => Behind store after) state view := by
  rw [processListenerIteration, wp_bind, wp_ask]
  refine ⟨trivial, fun answer _ => ?_⟩
  rw [(risingMonitor_ignores rfl).2, followedBy_ok]
  rcases answer with _ | _ | ⟨error, willReconnect⟩ | header
  · exact recreateSubscription_rising _ behind
  · exact recreateSubscription_rising _ behind
  · cases willReconnect <;> exact behind
  · have begins : Behind { state with subscriptionRecreationAttempts := 0 } view :=
      ⟨behind.low, behind.seen⟩
    rw [wp_bind, wp_modify, followedBy_ok, wp_bind]
    refine wp_mono ((processBlockInternal_rising begins).timeout _) ?_
    rintro (result | error | _) store after ⟨behind, _⟩
    · rcases result with _ | error | action
      · exact recreateSubscription_rising _ behind
      · exact behind
      · exact behind
    · exact behind
    · exact behind

theorem listenerTurn_rising {state : ListenerState} (behind : Behind state view) :
    wp risingMonitor (listenerTurn : Miner T ListenerState Unit)
      (fun _ store after => Behind store after) state view := by
  rw [listenerTurn, wp_bind, wp_attempt]
  refine wp_mono (processListenerIteration_rising behind) ?_
  rintro (action | error | _) store after behind
  · exact behind
  · change wp risingMonitor (if _ then _ else _) _ _ _
    split
    · exact behind
    · refine ⟨trivial, fun _ _ => ?_⟩
      rw [(risingMonitor_ignores rfl).2]
      exact behind
  · exact behind

end Listener

section Runs

variable {state : MonitorState T config} {pages nonce : Nat}

/-- The rounds that the listener reads of the finalized blocks never fall. -/
def RoundsAscend (state : MonitorState T config) (event : MonitorEvent T) : Prop :=
  event.1 = .listener → ∀ round, readRound event.2 = some round →
    ∀ earlier ∈ (state.trace .listener).filterMap readRound, earlier ≤ round

theorem risingMonitor_sent (view : ListenerView) (trace : MinerTrace T) :
    (risingMonitor.after view trace).sent = view.sent ++ trace.filterMap sentToMiner := by
  induction trace generalizing view with
  | nil => simp
  | cons event rest ih =>
      rw [Monitor.after_cons, ih]
      cases found : sentToMiner event <;> simp [risingMonitor, found]

theorem risingMonitor_read (view : ListenerView) (trace : MinerTrace T) :
    (risingMonitor.after view trace).read = view.read ∨
      ∃ event ∈ trace, readRound event = some (risingMonitor.after view trace).read := by
  induction trace generalizing view with
  | nil => exact Or.inl rfl
  | cons event rest ih =>
      rw [Monitor.after_cons]
      rcases ih (risingMonitor.next view event.1 event.2) with same | ⟨later, member, found⟩
      · rw [same]
        change (readRound event).getD view.read = view.read ∨
          ∃ event' ∈ event :: rest, readRound event' = some ((readRound event).getD view.read)
        cases found : readRound event with
        | none => exact Or.inl rfl
        | some round => exact Or.inr ⟨event, List.mem_cons_self, found⟩
      · exact Or.inr ⟨later, List.mem_cons_of_mem _ member, found⟩

theorem risingMonitor_keeps {view : ListenerView} {op : Op T} (answer : Resp op)
    (allowed : risingMonitor.allows view op) (rising : Rising view.sent) :
    Rising (risingMonitor.next view op answer).sent := by
  change Rising (view.sent ++ (sentToMiner ⟨op, answer⟩).toList)
  cases found : sentToMiner ⟨op, answer⟩ with
  | none => simpa using rising
  | some message =>
      refine rising.append ?_
      rintro details rfl
      cases op with
      | minerTrySend offered =>
          obtain ⟨sent, rfl, fits⟩ := allowed
          cases answer <;> cases found
          exact fits
      | minerSend offered =>
          obtain ⟨rfl, _⟩ := allowed
          cases answer <;> cases found
      | _ => cases found

theorem listener_sends_rising
    (run : (monitor config).Runs RoundsAscend (monitorStart config pages nonce) state) :
    Rising (minerMessages.sentIn state) := by
  have obeys : (monitor config).Obeys .listener risingMonitor ⟨0, []⟩ Behind state := by
    refine run.obeys_expecting rfl ?_ ?_ ?_
    · intro store view behind
      exact wp_mono (listenerTurn_rising behind) fun _ _ _ after _ => after
    · intro earlier op answer _ ascends _ round found
      rcases risingMonitor_read ⟨0, []⟩ (earlier.trace .listener) with none | ⟨event, member, last⟩
      · exact none ▸ Nat.zero_le _
      · exact ascends rfl round found _ (List.mem_filterMap.mpr ⟨event, member, last⟩)
    · refine ⟨trivial, fun answer _ => ?_⟩
      rw [(risingMonitor_ignores rfl).2]
      have begins : Behind ListenerState.initial ⟨0, []⟩ := ⟨Nat.le_refl _, by rintro _ ⟨⟩⟩
      cases answer with
      | ok _ => exact fun _ => begins
      | error _ => exact fun returned => by cases returned
  have rising := obeys.accepts.keeps (fun _ _ => risingMonitor_keeps) rising_nil
  rw [risingMonitor_sent] at rising
  exact rising

theorem unread_ascends {state : MonitorState T config} {event : MonitorEvent T}
    (unread : readRound event.2 = none) : RoundsAscend state event := by
  intro _ round found
  cases unread.symm.trans found

theorem read_ascends {state : MonitorState T config} {storage : AtBlock} {round : Nat}
    (rounds : List Nat) (read : (state.trace .listener).filterMap readRound = rounds)
    (low : ∀ earlier ∈ rounds, earlier ≤ round) :
    RoundsAscend state (.listener, ⟨.round storage, .ok round⟩) := by
  rintro _ _ ⟨⟩
  rw [read]
  exact low

end Runs

end LeanStakingMiner
