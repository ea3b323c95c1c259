import StakingMiner.Channels
import StakingMiner.ProgramPartial
import StakingMiner.PruningActivity
import StakingMiner.StaleWork

/-!
The messages between the tasks of `monitor_cmd`. The listener reports what it has read of the
blocks of its stream, each block at most once and in the order of the stream, and the channels
deliver its reports in order, so what the other tasks work on are finalized blocks in that order.
-/

namespace LeanStakingMiner

open LeanProgram

variable {T : MinerConfig} {config : ProcessConfig}

def sentToMiner : Event (Op T) Resp → Option MinerMessage
  | ⟨.minerSend message, true⟩ | ⟨.minerTrySend message, .sent⟩ => some message
  | _ => none

def receivedByMiner : Event (Op T) Resp → Option MinerMessage
  | ⟨.minerRecv, message⟩ => message
  | _ => none

def minerMessages : (monitor config : Process MonitorTask (Op T) Resp).Channel MinerMessage where
  sender := .listener
  receiver := .miner
  slot := MonitorWorld.minerChannel
  sent := sentToMiner
  received := receivedByMiner
  sends {world task event message} sent given := by
    obtain ⟨op, answer⟩ := event
    cases op with
    | minerSend | minerTrySend =>
        cases answer <;> cases sent
        exact ⟨(of_decide_eq_true given.1).symm, given.2, rfl⟩
    | _ => cases sent
  receives {world task event message} received given := by
    obtain ⟨op, answer⟩ := event
    cases op with
    | minerRecv =>
        cases answer <;> cases received
        exact ⟨(of_decide_eq_true given.1).symm, given.2, rfl⟩
    | _ => cases received
  untouched {world event} sent received := by
    obtain ⟨op, answer⟩ := event
    cases op with
    | minerSend | minerTrySend => cases answer <;> first | rfl | cases sent
    | minerRecv => cases answer <;> first | rfl | cases received
    | _ => cases answer <;> rfl
  unmoved {world after} evolves := by cases evolves <;> rfl

def tickSent : Event (Op T) Resp → Option Nat
  | ⟨.clearOldRoundsTrySend currentRound, .sent⟩ => some currentRound
  | _ => none

def tickReceived : Event (Op T) Resp → Option Nat
  | ⟨.clearOldRoundsRecv, currentRound⟩ => currentRound
  | _ => none

def clearOldRoundsTicks : (monitor config : Process MonitorTask (Op T) Resp).Channel Nat where
  sender := .listener
  receiver := .clearOldRounds
  slot := MonitorWorld.clearOldRoundsChannel
  sent := tickSent
  received := tickReceived
  sends {world task event message} sent given := by
    obtain ⟨op, answer⟩ := event
    cases op with
    | clearOldRoundsTrySend =>
        cases answer <;> cases sent
        exact ⟨(of_decide_eq_true given.1).symm, given.2, rfl⟩
    | _ => cases sent
  receives {world task event message} received given := by
    obtain ⟨op, answer⟩ := event
    cases op with
    | clearOldRoundsRecv =>
        cases answer <;> cases received
        exact ⟨(of_decide_eq_true given.1).symm, given.2, rfl⟩
    | _ => cases received
  untouched {world event} sent received := by
    obtain ⟨op, answer⟩ := event
    cases op with
    | clearOldRoundsTrySend => cases answer <;> first | rfl | cases sent
    | clearOldRoundsRecv => cases answer <;> first | rfl | cases received
    | _ => cases answer <;> rfl
  unmoved {world after} evolves := by cases evolves <;> rfl

def eraPruningMessages :
    (monitor config : Process MonitorTask (Op T) Resp).Channel EraPruningMessage where
  sender := .listener
  receiver := .eraPruning
  slot := MonitorWorld.eraPruningChannel
  sent := enqueuedMessage
  received := receivedMessage
  sends {world task event message} sent given := by
    obtain ⟨op, answer⟩ := event
    cases op with
    | eraPruningSend | eraPruningTrySend =>
        cases answer <;> cases sent
        exact ⟨(of_decide_eq_true given.1).symm, given.2, rfl⟩
    | _ => cases sent
  receives {world task event message} received given := by
    obtain ⟨op, answer⟩ := event
    cases op with
    | eraPruningRecv =>
        cases answer <;> cases received
        exact ⟨(of_decide_eq_true given.1).symm, given.2, rfl⟩
    | _ => cases received
  untouched {world event} sent received := by
    obtain ⟨op, answer⟩ := event
    cases op with
    | eraPruningSend | eraPruningTrySend => cases answer <;> first | rfl | cases sent
    | eraPruningRecv => cases answer <;> first | rfl | cases received
    | _ => cases answer <;> rfl
  unmoved {world after} evolves := by cases evolves <;> rfl

def streamedHeader : Event (Op T) Resp → Option Header
  | ⟨.nextBlock, some (some (.ok header))⟩ => some header
  | _ => none

/-- The numbers of the blocks that the stream has given to the listener. -/
def streamed (trace : MinerTrace T) : List Nat :=
  (trace.filterMap streamedHeader).map Header.number

def offeredToMiner : Event (Op T) Resp → Option Nat
  | ⟨.minerTrySend (.processBlock details), _⟩ => some details.blockNumber
  | _ => none

def announcedToPruning : Event (Op T) Resp → Option Nat
  | ⟨.eraPruningTrySend (.newBlock blockNumber), _⟩ => some blockNumber
  | _ => none

structure Observed (trace : MinerTrace T) (header : Header) (phase : Phase) (round : Nat) :
    Prop where
  streamed : ⟨.nextBlock, some (some (.ok header))⟩ ∈ trace
  read : ∃ atBlock found, ⟨.storageAt header.hash, .ok atBlock⟩ ∈ trace ∧
    ⟨.currentPhase .listener atBlock, .ok found⟩ ∈ trace ∧ found.getD .off = phase ∧
    ⟨.round atBlock, .ok round⟩ ∈ trace

structure DetailsRead (trace : MinerTrace T) (header : Header) (details : BlockDetails) :
    Prop where
  observed : Observed trace header details.phase details.round
  mining : details.phase.isMining = true
  number : details.blockNumber = header.number
  storage : ⟨.storageAt header.hash, .ok details.atBlock⟩ ∈ trace
  targets : ∃ found, ⟨.desiredTargets details.atBlock details.round, .ok found⟩ ∈ trace ∧
    details.desiredTargets = found.getD 0
  pages : ⟨.pages, details.nPages⟩ ∈ trace

def Next (reported : Event (Op T) Resp → Option Nat) (trace : MinerTrace T) (number : Nat) :
    Prop :=
  (trace.filterMap reported ++ [number]).Sublist (streamed trace)

def reportAllowed (trace : MinerTrace T) : Op T → Prop
  | .minerTrySend message => ∃ header details, message = .processBlock details ∧
      DetailsRead trace header details ∧ Next offeredToMiner trace header.number
  | .minerSend message => message = .clearSnapshots
  | .clearOldRoundsTrySend round => ∃ header phase, Observed trace header phase round
  | .eraPruningSend message => ∀ number, message ≠ .newBlock number
  | .eraPruningTrySend message => ∃ header round, message = .newBlock header.number ∧
      Observed trace header .off round ∧ Next announcedToPruning trace header.number
  | .submitAndWatch _ _ _ => False
  | _ => True

def reportMonitor : Monitor (Op T) Resp (MinerTrace T) :=
  Monitor.tracing (fun _ _ => True) reportAllowed

def Orderly (trace : MinerTrace T) : Prop :=
  (trace.filterMap offeredToMiner).Sublist (streamed trace) ∧
    (trace.filterMap announcedToPruning).Sublist (streamed trace)

section Traces

variable {trace : MinerTrace T} {header : Header} {phase : Phase} {round : Nat}

theorem Observed.mono {longer : MinerTrace T} (observed : Observed trace header phase round)
    (kept : trace ⊆ longer) : Observed longer header phase round := by
  obtain ⟨streamed, atBlock, found, storage, phaseRead, same, roundRead⟩ := observed
  exact ⟨kept streamed, atBlock, found, kept storage, kept phaseRead, same, kept roundRead⟩

theorem DetailsRead.mono {longer : MinerTrace T} {details : BlockDetails}
    (read : DetailsRead trace header details) (kept : trace ⊆ longer) :
    DetailsRead longer header details := by
  obtain ⟨found, targetsRead, same⟩ := read.targets
  exact ⟨read.observed.mono kept, read.mining, read.number, kept read.storage,
    ⟨found, kept targetsRead, same⟩, kept read.pages⟩

def Op.unreported : Op T → Bool
  | .nextBlock | .minerTrySend _ | .eraPruningTrySend _ => false
  | _ => true

theorem unreported_silent {event : Event (Op T) Resp} (quiet : event.1.unreported = true) :
    streamedHeader event = none ∧ offeredToMiner event = none ∧
      announcedToPruning event = none := by
  obtain ⟨op, answer⟩ := event
  cases op <;> first | exact ⟨rfl, rfl, rfl⟩ | cases quiet

theorem filterMap_event {β : Type} (found : Event (Op T) Resp → Option β) (trace : MinerTrace T)
    (event : Event (Op T) Resp) :
    (trace ++ [event]).filterMap found = trace.filterMap found ++ (found event).toList := by
  cases here : found event <;> simp [here]

theorem streamed_event (trace : MinerTrace T) (event : Event (Op T) Resp) :
    streamed (trace ++ [event]) =
      streamed trace ++ ((streamedHeader event).map Header.number).toList := by
  unfold streamed
  rw [filterMap_event, List.map_append]
  cases streamedHeader event <;> rfl

theorem reported_event {reported : Event (Op T) Resp → Option Nat} {event : Event (Op T) Resp}
    (ordered : (trace.filterMap reported).Sublist (streamed trace))
    (fits : ∀ number, reported event = some number → Next reported trace number) :
    ((trace ++ [event]).filterMap reported).Sublist (streamed (trace ++ [event])) := by
  rw [filterMap_event, streamed_event]
  refine List.Sublist.trans ?_ (List.sublist_append_left _ _)
  cases found : reported event with
  | none => simpa using ordered
  | some number => exact fits number found

structure Handling (trace : MinerTrace T) (header : Header) : Prop where
  streamed : ⟨.nextBlock, some (some (.ok header))⟩ ∈ trace
  offering : Next offeredToMiner trace header.number
  announcing : Next announcedToPruning trace header.number

theorem Handling.later (handling : Handling trace header) {event : Event (Op T) Resp}
    (quiet : event.1.unreported = true) : Handling (trace ++ [event]) header := by
  obtain ⟨noHeader, noOffer, noAnnouncement⟩ := unreported_silent quiet
  refine ⟨List.mem_append_left _ handling.streamed, ?_, ?_⟩
  · simpa [Next, streamed_event, filterMap_event, noHeader, noOffer] using handling.offering
  · simpa [Next, streamed_event, filterMap_event, noHeader, noAnnouncement] using
      handling.announcing

theorem Orderly.handling (orderly : Orderly trace) (header : Header) :
    Handling (trace ++ [⟨.nextBlock, some (some (.ok header))⟩]) header := by
  have next {reported : Event (Op T) Resp → Option Nat}
      (ordered : (trace.filterMap reported).Sublist (streamed trace))
      (silent : reported ⟨.nextBlock, some (some (.ok header))⟩ = none) :
      Next reported (trace ++ [⟨.nextBlock, some (some (.ok header))⟩]) header.number := by
    rw [Next, filterMap_event, streamed_event, silent]
    simpa [streamedHeader] using ordered
  exact ⟨by simp, next orderly.1 rfl, next orderly.2 rfl⟩

theorem Orderly.event (orderly : Orderly trace) (op : Op T) (answer : Resp op)
    (allowed : reportAllowed trace op) : Orderly (trace ++ [⟨op, answer⟩]) := by
  refine ⟨reported_event orderly.1 ?_, reported_event orderly.2 ?_⟩
  · intro number offered
    cases op with
    | minerTrySend message =>
        obtain ⟨header, details, rfl, read, next⟩ := allowed
        cases offered
        exact read.number ▸ next
    | _ => cases offered
  · intro number announced
    cases op with
    | eraPruningTrySend message =>
        obtain ⟨header, round, rfl, _, next⟩ := allowed
        cases announced
        exact next
    | _ => cases announced

end Traces

section Rules

variable {γ σ α β : Type} {M : Monitor (Op T) Resp γ} {store : σ} {ghost : γ}
variable {last : β → σ → γ → Prop}

theorem leads_ask {op : Op T} {rest : Resp op → Miner T σ β} (allowed : M.allows ghost op)
    (next : ∀ answer, Leads M (rest answer) last store (M.next ghost op answer)) :
    Leads M (ask op >>= rest) last store ghost :=
  ⟨allowed, fun answer _ => next answer⟩

theorem leads_rpc {answer : Read α} {rest : α → Miner T σ β}
    (next : ∀ value, answer = .ok value → Leads M (rest value) last store ghost) :
    Leads M (rpc answer >>= rest) last store ghost := by
  cases answer with
  | error failed => exact leads_fail _
  | ok value => exact next value rfl

end Rules

section Listener

variable {trace : MinerTrace T} {header : Header} {phase : Phase} {round : Nat}

structure Observing (trace : MinerTrace T) (header : Header) (phase : Phase) (round : Nat) :
    Prop where
  handling : Handling trace header
  observed : Observed trace header phase round

theorem Observing.later (observing : Observing trace header phase round)
    {event : Event (Op T) Resp} (quiet : event.1.unreported = true) :
    Observing (trace ++ [event]) header phase round :=
  ⟨observing.handling.later quiet, observing.observed.mono (List.subset_append_left _ _)⟩

theorem getBlockState_reports (handling : Handling trace header) :
    Leads reportMonitor (getBlockState header.hash : Task T (Phase × Nat))
      (fun (phase, round) _ after => Observing after header phase round) () trace := by
  refine leads_ask trivial fun _ => leads_rpc ?_
  rintro atBlock rfl
  refine leads_ask trivial fun _ => leads_rpc ?_
  rintro found rfl
  refine leads_ask trivial fun _ => leads_rpc ?_
  rintro round rfl
  refine (leads_return _).mpr ⟨((handling.later rfl).later rfl).later rfl, ?_⟩
  exact ⟨by simp [reportMonitor, handling.streamed], atBlock, found, by simp [reportMonitor],
    by simp [reportMonitor], rfl, by simp [reportMonitor]⟩

theorem checkRoundIncrement_reports (lastRound : Option Nat)
    (observing : Observing trace header phase round) :
    Leads reportMonitor (checkRoundIncrement lastRound round phase : Task T Unit)
      (fun _ _ after => Observing after header phase round) () trace := by
  unfold checkRoundIncrement
  split
  · refine leads_ask ⟨header, phase, observing.observed⟩ fun answer => ?_
    cases answer with
    | closed => exact leads_fail _
    | sent | full =>
        dsimp only
        split
        · refine leads_ask rfl fun sent => ?_
          split
          · exact (leads_return _).mpr ((observing.later rfl).later rfl)
          · exact leads_fail _
        · exact (leads_return _).mpr (observing.later rfl)
  · exact (leads_return _).mpr observing

theorem signalEraPruning_reports {message : EraPruningMessage}
    (signal : ∀ number, message ≠ .newBlock number)
    (observing : Observing trace header phase round) :
    Leads reportMonitor (signalEraPruning message : Task T Unit)
      (fun _ _ after => Observing after header phase round) () trace := by
  refine leads_ask signal fun sent => ?_
  split
  · exact (leads_return _).mpr (observing.later rfl)
  · exact leads_fail _

theorem onOffPhase_reports (lastPhase : Option Phase)
    (observing : Observing trace header .off round) :
    Leads reportMonitor (onOffPhase lastPhase header : Task T ListenerAction)
      (fun _ _ _ => True) () trace := by
  have started : Leads reportMonitor (startEraPruning lastPhase : Task T Unit)
      (fun _ _ after => Observing after header .off round) () trace := by
    unfold startEraPruning
    split
    · exact (leads_return _).mpr observing
    · exact signalEraPruning_reports (by simp) observing
  refine started.bind fun _ _ after observing => ?_
  refine leads_ask ⟨header, round, rfl, observing.observed, observing.handling.announcing⟩ ?_
  exact fun _ => (leads_return _).mpr trivial

theorem newBlockDetails_reports (mining : phase.isMining = true)
    (observing : Observing trace header phase round) :
    Leads reportMonitor (newBlockDetails header phase round : Task T BlockDetails)
      (fun details _ after => DetailsRead after header details ∧
        Next offeredToMiner after header.number) () trace := by
  refine leads_ask trivial fun _ => leads_rpc ?_
  rintro atBlock rfl
  refine leads_ask trivial fun _ => leads_rpc ?_
  rintro found rfl
  refine leads_ask trivial fun nPages => (leads_return _).mpr ?_
  have last : Observing (trace ++ [⟨.storageAt header.hash, .ok atBlock⟩] ++
      [⟨.desiredTargets atBlock round, .ok found⟩] ++ [⟨.pages, nPages⟩]) header phase round :=
    ((observing.later rfl).later rfl).later rfl
  refine ⟨⟨last.observed, mining, rfl, ?_, ⟨found, ?_, rfl⟩, ?_⟩, last.handling.offering⟩
  all_goals simp [reportMonitor]

theorem onMiningPhase_reports (lastPhase : Option Phase) (mining : phase.isMining = true)
    (observing : Observing trace header phase round) :
    Leads reportMonitor (onMiningPhase lastPhase header phase round : Task T ListenerAction)
      (fun _ _ _ => True) () trace := by
  have stopped : Leads reportMonitor (stopEraPruning lastPhase : Task T Unit)
      (fun _ _ after => Observing after header phase round) () trace := by
    unfold stopEraPruning
    split
    · exact signalEraPruning_reports (by simp) observing
    · exact (leads_return _).mpr observing
  refine stopped.bind fun _ _ after observing => ?_
  refine (newBlockDetails_reports mining observing).bind ?_
  rintro details _ after ⟨read, next⟩
  refine leads_ask ⟨header, details, rfl, read, next⟩ fun answer => ?_
  cases answer with
  | closed => exact leads_fail _
  | sent | full => exact (leads_return _).mpr trivial

theorem processBlockInternal_reports (state : ListenerState) (handling : Handling trace header) :
    Leads reportMonitor (processBlockInternal header : Miner T ListenerState ListenerAction)
      (fun _ _ _ => True) state trace := by
  refine (getBlockState_reports handling).liftBind ?_
  rintro ⟨phase, round⟩ after observing
  change Leads reportMonitor ((checkRoundIncrement state.prevRound round phase).lift >>= _) _ _ _
  refine (checkRoundIncrement_reports _ observing).liftBind fun _ after observing => ?_
  change Leads reportMonitor (ask (.phaseObserved state.prevPhase phase) >>= _) _ _ _
  refine leads_ask trivial fun _ => ?_
  have still : Observing (after ++ [⟨.phaseObserved state.prevPhase phase, ()⟩]) header phase
      round := observing.later rfl
  cases phase with
  | off => exact Leads.lift (onOffPhase_reports _ still)
  | signed blocks => exact Leads.lift (onMiningPhase_reports _ rfl still)
  | snapshot page => exact Leads.lift (onMiningPhase_reports _ rfl still)
  | _ => exact (leads_return _).mpr trivial

theorem recreateSubscription_reports (action : ListenerAction) :
    reportMonitor.Permits
      (recreateSubscription action : Miner T ListenerState ListenerAction) := by
  refine recreateSubscription_permitted (fun _ op follows => ?_) action
  cases op <;> trivial

theorem processListenerIteration_reports (state : ListenerState) (orderly : Orderly trace) :
    wp reportMonitor (processListenerIteration : Miner T ListenerState ListenerAction)
      (fun _ _ _ => True) state trace := by
  rw [processListenerIteration, wp_bind, wp_ask]
  refine ⟨trivial, fun answer _ => ?_⟩
  rw [followedBy_ok]
  match answer with
  | some (some (.ok header)) =>
      rw [wp_bind, wp_modify, followedBy_ok, wp_bind]
      refine wp_timeout_anywhere (wp_mono (processBlockInternal_reports _
        (orderly.handling header)) ?_) fun _ _ => recreateSubscription_reports _ _ _
      rintro (action | error | _) _ _ _ <;> trivial
  | some (some (.error (error, willReconnect))) => cases willReconnect <;> trivial
  | some none | none => exact recreateSubscription_reports _ _ _

theorem listenerTurn_reports (state : ListenerState) (orderly : Orderly trace) :
    wp reportMonitor (listenerTurn : Miner T ListenerState Unit)
      (fun _ _ after => Orderly after) state trace := by
  have turns : wp reportMonitor (listenerTurn : Miner T ListenerState Unit)
      (fun _ _ _ => True) state trace := by
    rw [listenerTurn, wp_bind, wp_attempt]
    refine wp_mono (processListenerIteration_reports state orderly) ?_
    rintro (action | error | _) _ _ _
    · trivial
    · change wp reportMonitor (if _ then _ else _) _ _ _
      split
      · trivial
      · exact ⟨trivial, fun _ _ => trivial⟩
    · trivial
  have keeps (trace : MinerTrace T) (op : Op T) (answer : Resp op)
      (allowed : reportMonitor.allows trace op) (orderly : Orderly trace) :
      Orderly (reportMonitor.next trace op answer) := orderly.event op answer allowed
  exact wp_mono (wp_invariant keeps turns orderly) fun _ _ _ ends => ends.2

end Listener

section Runs

variable {state : MonitorState T config} {pages nonce : Nat}
variable {meets : MonitorState T config → MonitorEvent T → Prop}

theorem filterMap_sublist {α β : Type} {left right : α → Option β} {values : List α}
    (implies : ∀ value ∈ values, ∀ found, left value = some found → right value = some found) :
    (values.filterMap left).Sublist (values.filterMap right) := by
  induction values with
  | nil => exact List.Sublist.slnil
  | cons first rest ih =>
      have tail := ih fun value member => implies value (List.mem_cons_of_mem _ member)
      cases found : left first with
      | some value =>
          have same := implies first List.mem_cons_self value found
          rw [List.filterMap_cons_some found, List.filterMap_cons_some same]
          exact tail.cons_cons value
      | none =>
          rw [List.filterMap_cons_none found]
          refine tail.trans (List.Sublist.filterMap right ?_)
          exact List.sublist_cons_self first rest

theorem orderly_nil : Orderly ([] : MinerTrace T) := by
  simp [Orderly]

theorem orderly_accepted {trace : MinerTrace T} (accepts : reportMonitor.Accepts [] trace) :
    Orderly trace := by
  have keeps (trace : MinerTrace T) (op : Op T) (answer : Resp op)
      (allowed : reportMonitor.allows trace op) (orderly : Orderly trace) :
      Orderly (reportMonitor.next trace op answer) := orderly.event op answer allowed
  have orderly := accepts.keeps keeps orderly_nil
  rw [reportMonitor, tracing_after] at orderly
  exact orderly

theorem listener_obeys
    (run : (monitor config).Runs meets (monitorStart config pages nonce) state) :
    (monitor config).Obeys .listener reportMonitor [] (fun _ trace => Orderly trace) state := by
  refine run.obeys rfl ?_ (fun _ _ _ => trivial) ?_
  · intro store trace orderly
    exact wp_mono (listenerTurn_reports store orderly) fun _ _ _ after _ => after
  · refine ⟨trivial, fun answer _ => ?_⟩
    have begins : Orderly ([] ++ [⟨.streamBlocks, answer⟩] : MinerTrace T) :=
      orderly_nil.event _ _ trivial
    cases answer with
    | ok _ => exact fun _ => begins
    | error _ => exact fun returned => by cases returned

theorem reported_after {trace : MinerTrace T} (accepts : reportMonitor.Accepts [] trace)
    {event : Event (Op T) Resp} (member : event ∈ trace) :
    ∃ before, before ⊆ trace ∧ reportAllowed before event.1 := by
  obtain ⟨before, later, rfl⟩ := List.append_of_mem member
  have allowed := accepts.allowed
  rw [reportMonitor, tracing_after] at allowed
  exact ⟨before, List.subset_append_left _ _, allowed⟩

def MinerMessage.block : MinerMessage → Option BlockDetails
  | .processBlock details => some details
  | .clearSnapshots => none

theorem MinerMessage.block_eq_some {message : MinerMessage} {details : BlockDetails} :
    message.block = some details ↔ message = .processBlock details := by
  cases message <;> simp [MinerMessage.block]

/-- The blocks that the miner has taken from its channel. -/
def takenBlocks (trace : MinerTrace T) : List BlockDetails :=
  (trace.filterMap receivedByMiner).filterMap MinerMessage.block

theorem sentToMiner_block {trace : MinerTrace T} (accepts : reportMonitor.Accepts [] trace)
    {event : Event (Op T) Resp} (member : event ∈ trace) {details : BlockDetails}
    (sent : sentToMiner event = some (.processBlock details)) :
    offeredToMiner event = some details.blockNumber ∧
      ∃ header, DetailsRead trace header details := by
  obtain ⟨before, earlier, allowed⟩ := reported_after accepts member
  obtain ⟨op, answer⟩ := event
  cases op with
  | minerTrySend message =>
      obtain ⟨header, _, rfl, read, _⟩ := allowed
      cases answer <;> cases sent
      exact ⟨rfl, header, read.mono earlier⟩
  | minerSend message =>
      cases answer <;> cases sent
      cases allowed
  | _ => cases sent

/-- In every interleaving of the tasks, the miner takes blocks in the order in which the stream
gave them to the listener, each at most once, and every detail it is given was read by the
listener for that block, in a mining phase. -/
theorem miner_takes_streamed_blocks_in_order (config : ProcessConfig) (pages nonce : Nat)
    (state : MonitorState T config)
    (run : (monitor config).Runs (fun _ _ => True) (monitorStart config pages nonce) state) :
    ((takenBlocks (state.trace .miner)).map BlockDetails.blockNumber).Sublist
        (streamed (state.trace .listener)) ∧
      ∀ details ∈ takenBlocks (state.trace .miner),
        ∃ header, DetailsRead (state.trace .listener) header details := by
  have accepts := (listener_obeys run).accepts
  have inOrder : minerMessages.InOrder state := Process.Channel.inOrder_of_runs run rfl rfl
  have taken : (takenBlocks (state.trace .miner)).Sublist
      (((state.trace .listener).filterMap sentToMiner).filterMap MinerMessage.block) :=
    inOrder.received_isPrefix.sublist.filterMap MinerMessage.block
  constructor
  · refine (taken.map BlockDetails.blockNumber).trans (.trans ?_ (orderly_accepted accepts).1)
    rw [List.filterMap_filterMap, List.map_filterMap]
    refine filterMap_sublist fun event member number found => ?_
    simp only [Option.map_eq_some_iff, Option.bind_eq_some_iff, MinerMessage.block_eq_some] at found
    obtain ⟨details, ⟨_, sent, rfl⟩, rfl⟩ := found
    exact (sentToMiner_block accepts member sent).1
  · intro details member
    have sent := taken.subset member
    simp only [List.mem_filterMap, MinerMessage.block_eq_some] at sent
    obtain ⟨_, ⟨event, member, sent⟩, rfl⟩ := sent
    exact (sentToMiner_block accepts member sent).2

end Runs

set_option maxRecDepth 4000 in
theorem miner_takes_streamed_blocks_in_order_busy :
    streamed (busyMiner.trace .listener) = [101, 102] ∧
      takenBlocks (busyMiner.trace .miner) = [snapshotDetails 101] ∧
      ∃ header, DetailsRead (busyMiner.trace .listener) header (snapshotDetails 101) := by
  have reached := busyMiner_runs.mono fun _ _ _ => trivial
  have taken : takenBlocks (busyMiner.trace .miner) = [snapshotDetails 101] := rfl
  refine ⟨rfl, taken, ?_⟩
  exact (miner_takes_streamed_blocks_in_order staleConfig 2 5 busyMiner reached).2 _
    (by simp [taken])

end LeanStakingMiner
