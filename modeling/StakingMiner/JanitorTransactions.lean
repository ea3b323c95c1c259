import StakingMiner.NonceRuns
import StakingMiner.SubmissionRuns
import StakingMiner.TaskMessages

/-!
The transactions of the two cleaning tasks, in any interleaving of the four tasks. Data of a round
is cleared only when the listener has seen a later round and the data was read in the same tick;
an era is pruned only for a finalized Off block, once for each block.
-/

namespace LeanStakingMiner

open LeanProgram

variable {T : MinerConfig} {config : ProcessConfig}

def Op.signs : Op T → Bool
  | .atCurrentBlock | .accountNonce | .createSigned _ _ => true
  | _ => false

def Op.sends : Op T → Bool
  | .submitAndWatch _ _ _ => true
  | _ => false

def Op.finalizes : Op T → Bool
  | .submitAndWatch _ _ _ | .waitForFinalized _ => true
  | op => op.signs

section Sending

variable {allowed : MinerTrace T → Op T → Prop} {transaction : Transaction T}
variable {trace : MinerTrace T}

theorem signs_finalizes (op : Op T) (signs : op.signs = true) : op.finalizes = true := by
  cases op <;> first | rfl | cases signs

theorem submitAndFinalize_traced
    (reads : ∀ trace op, op.sends = false → op.finalizes = true → allowed trace op)
    (sends : ∀ after nonce, Extends Op.signs trace after →
      allowed after (.submitAndWatch transaction nonce none)) :
    wp (Monitor.tracing (fun _ _ => True) allowed) (submitAndFinalize transaction)
      (fun outcome _ after => outcome ≠ .panic ∧ Extends Op.finalizes trace after) () trace := by
  simp only [submitAndFinalize, wp_bind, wp_ask, forall_read, followedBy_ok, wp_rpc_ok,
    wp_rpc_error, tracing_next, tracing_allows]
  have begun : Extends Op.signs trace trace := extends_refl trace
  refine ⟨reads _ _ rfl rfl, fun _ _ => ⟨by simp, (begun.later rfl).mono signs_finalizes⟩, ?_⟩
  intro atBlock _
  have located : Extends Op.signs trace (trace ++ [⟨.atCurrentBlock, .ok atBlock⟩]) :=
    begun.later rfl
  refine ⟨reads _ _ rfl rfl, fun _ _ => ⟨by simp, (located.later rfl).mono signs_finalizes⟩, ?_⟩
  intro nonce _
  have numbered : Extends Op.signs trace (_ ++ [⟨.accountNonce, .ok nonce⟩]) := located.later rfl
  refine ⟨reads _ _ rfl rfl, fun _ _ => ⟨by simp, (numbered.later rfl).mono signs_finalizes⟩, ?_⟩
  intro _ _
  have signed : Extends Op.signs trace (_ ++ [⟨.createSigned transaction nonce, .ok ()⟩]) :=
    numbered.later rfl
  have following := signed.mono signs_finalizes
  refine ⟨sends _ _ signed, fun _ _ => ⟨by simp, following.later rfl⟩, fun tx _ => ?_⟩
  have sent : Extends Op.finalizes trace
      (_ ++ [⟨.submitAndWatch transaction nonce none, .ok tx⟩]) := following.later rfl
  refine ⟨reads _ _ rfl rfl, fun _ _ => ?_, fun _ _ => ?_⟩
  · exact ⟨by simp, sent.later rfl⟩
  · exact ⟨by simp, sent.later rfl⟩

end Sending

/-- The data of the round was read since the last tick, at one head, as that of a round within
the window below the round of the tick, and has stored pages. -/
def Clearable (trace : MinerTrace T) (currentRound round witnessPages : Nat) : Prop :=
  ∃ during atBlock submission,
    Since trace ⟨.clearOldRoundsRecv, some currentRound⟩ during ∧
    round < currentRound ∧ currentRound ≤ round + clearOldRoundsScanRounds ∧
    ⟨.storageAtHead, .ok atBlock⟩ ∈ during ∧
    ⟨.submissionMetadata atBlock round, .ok (some submission)⟩ ∈ during ∧
    witnessPages = submission.pages.count true ∧ 0 < witnessPages

def cleanupAllowed (trace : MinerTrace T) : Op T → Prop
  | .submitAndWatch transaction _ _ => ∃ currentRound round witnessPages,
      transaction = .clearOldRoundData round witnessPages ∧
        Clearable trace currentRound round witnessPages
  | _ => True

def cleanupMonitor : Monitor (Op T) Resp (MinerTrace T) :=
  Monitor.tracing (fun _ _ => True) cleanupAllowed

section Cleanup

variable {trace during : MinerTrace T} {currentRound atBlock : Nat}

theorem clearOldRoundData_clears {round : Nat} {submission : SubmissionMetadata}
    (since : Since trace ⟨.clearOldRoundsRecv, some currentRound⟩ during)
    (window : round < currentRound ∧ currentRound ≤ round + clearOldRoundsScanRounds)
    (head : ⟨.storageAtHead, .ok atBlock⟩ ∈ during)
    (found : ⟨.submissionMetadata atBlock round, .ok (some submission)⟩ ∈ during)
    (stored : submission.pages.count true ≠ 0) :
    wp cleanupMonitor (clearOldRoundData round (submission.pages.count true) : Task T Unit)
      (fun outcome _ after => outcome ≠ .panic ∧ Extends Op.finalizes trace after) () trace := by
  rw [clearOldRoundData, wp_bind]
  refine wp_mono (submitAndFinalize_traced ?_ fun after nonce extended => ?_) ?_
  · intro _ op unsent _
    cases op <;> trivial
  · obtain ⟨passed, resumed, _⟩ := since.extended extended (by rintro _ kind rfl; cases kind)
    exact ⟨currentRound, round, _, rfl, during ++ passed, atBlock, submission, resumed, window.1,
      window.2, List.mem_append_left _ head, List.mem_append_left _ found, rfl,
      Nat.pos_of_ne_zero stored⟩
  · rintro (tx | error | _) _ after ⟨returned, extended⟩
    · exact ⟨by simp, extended⟩
    · exact ⟨by simp, extended⟩
    · exact absurd rfl returned

theorem cleanRounds_clears (rounds : List Nat) (cleanedCount : Nat)
    (since : Since trace ⟨.clearOldRoundsRecv, some currentRound⟩ during)
    (head : ⟨.storageAtHead, .ok atBlock⟩ ∈ during)
    (window : ∀ round ∈ rounds,
      round < currentRound ∧ currentRound ≤ round + clearOldRoundsScanRounds) :
    wp cleanupMonitor (cleanRounds atBlock rounds cleanedCount : Task T Nat)
      (fun outcome _ _ => outcome ≠ .panic) () trace := by
  induction rounds generalizing trace during cleanedCount with
  | nil => simp [cleanRounds]
  | cons round rest ih =>
      have later (round) (member : round ∈ rest) := window round (List.mem_cons_of_mem _ member)
      simp only [cleanRounds, wp_bind, wp_ask, forall_read, followedBy_ok, wp_rpc_ok, wp_rpc_error]
      refine ⟨trivial, fun _ _ => by simp, fun submission _ => ?_⟩
      have read : Since (trace ++ [⟨.submissionMetadata atBlock round, .ok submission⟩])
          ⟨.clearOldRoundsRecv, some currentRound⟩ (during ++ [_]) := since.later (by simp)
      have still := List.mem_append_left [⟨.submissionMetadata atBlock round, .ok submission⟩] head
      cases submission with
      | none => exact ih _ read still later
      | some submission =>
          dsimp only
          split
          · exact ih _ read still later
          · rename_i stored
            rw [wp_bind, wp_attempt]
            refine wp_mono (clearOldRoundData_clears read (window round List.mem_cons_self) still
              (by simp) stored) ?_
            rintro outcome _ after ⟨returned, extended⟩
            obtain ⟨passed, resumed, _⟩ := read.extended extended (by rintro _ kind rfl; cases kind)
            have kept := List.mem_append_left passed still
            cases outcome with
            | ok | err => exact ih _ resumed kept later
            | panic => exact absurd rfl returned

theorem window_of_mem {round start : Nat} {last : Option Nat}
    (begins : start = startRound currentRound last) (unfinished : ¬currentRound ≤ start)
    (member : round ∈ List.range' start (currentRound - start)) :
    round < currentRound ∧ currentRound ≤ round + clearOldRoundsScanRounds := by
  have lowest : currentRound - clearOldRoundsScanRounds ≤ start := by
    rw [begins]
    cases last with
    | none => exact Nat.le_refl _
    | some last => exact Nat.le_max_right _ _
  simp only [List.mem_range'_1] at member
  omega

theorem clearOldRoundsTurn_clears (last : Option Nat) (trace : MinerTrace T) :
    wp cleanupMonitor (clearOldRoundsTurn : Miner T (Option Nat) Unit) (fun _ _ _ => True)
      last trace := by
  rw [clearOldRoundsTurn, wp_bind, wp_ask]
  refine ⟨trivial, fun message _ => ?_⟩
  rw [followedBy_ok]
  cases message with
  | none => trivial
  | some currentRound =>
      have cleans : wp cleanupMonitor (runClearOldRoundsCleanup currentRound : Miner T _ Nat)
          (fun _ _ _ => True) last (trace ++ [⟨.clearOldRoundsRecv, some currentRound⟩]) := by
        simp only [runClearOldRoundsCleanup, wp_bind, wp_ask, forall_read, followedBy_ok,
          wp_rpc_ok, wp_rpc_error, wp_load]
        refine ⟨trivial, fun _ _ => trivial, fun atBlock _ => ?_⟩
        have since : Since (trace ++ [⟨.clearOldRoundsRecv, some currentRound⟩] ++
            [⟨.storageAtHead, .ok atBlock⟩]) ⟨.clearOldRoundsRecv, some currentRound⟩ ([] ++ [_]) :=
          (since_last trace _).later (by simp)
        split
        · trivial
        · rename_i unfinished
          rw [wp_bind, wp_lift]
          refine wp_mono (cleanRounds_clears _ 0 since (by simp) fun round member =>
            window_of_mem rfl (fun finished => unfinished (Or.inr finished)) member) ?_
          rintro (cleaned | error | _) _ _ _ <;> trivial
      rw [wp_bind, wp_attempt]
      refine wp_mono cleans ?_
      rintro (cleaned | error | _) _ _ _
      · trivial
      · change wp cleanupMonitor (if _ then _ else _) _ _ _
        split <;> trivial
      · trivial

end Cleanup

/-- `pruning_active` as the messages received so far leave it. -/
def sessionActive (trace : MinerTrace T) : Bool := (receivedMessages trace).foldl activeAfter false

/-- The session is active, the last message was a block, and since then the era was read as the
oldest one to prune and nothing was sent. -/
def Prunable (trace : MinerTrace T) (blockNumber era : Nat) : Prop :=
  sessionActive trace = true ∧ ∃ during atBlock eras,
    Since trace ⟨.eraPruningRecv, some (.newBlock blockNumber)⟩ during ∧
    (∀ event ∈ during, event.1.sends = false) ∧
    ⟨.storageAtHead, .ok atBlock⟩ ∈ during ∧
    ⟨.eraPruningState atBlock, .ok (.ok eras)⟩ ∈ during ∧ eras.min? = some era

def pruneAllowed (trace : MinerTrace T) : Op T → Prop
  | .submitAndWatch transaction _ _ => ∃ blockNumber era,
      transaction = .pruneEraStep era ∧ Prunable trace blockNumber era
  | _ => True

def pruneMonitor : Monitor (Op T) Resp (MinerTrace T) :=
  Monitor.tracing (fun _ _ => True) pruneAllowed

section Pruning

variable {trace after : MinerTrace T} {blockNumber era : Nat}

def Op.unreceived : Op T → Bool
  | .eraPruningRecv => false
  | _ => true

theorem sessionActive_extended (extended : Extends Op.unreceived trace after) :
    sessionActive after = sessionActive trace := by
  obtain ⟨passed, rfl, kinds⟩ := extended
  have silent : receivedMessages passed = [] := by
    refine List.filterMap_eq_nil_iff.mpr fun event member => ?_
    obtain ⟨op, answer⟩ := event
    have kind := kinds _ member
    cases op <;> first | rfl | cases kind
  unfold sessionActive
  rw [receivedMessages, List.filterMap_append]
  change List.foldl activeAfter false (receivedMessages trace ++ receivedMessages passed) = _
  rw [silent, List.append_nil]

theorem Prunable.extended {kind : Op T → Bool} (prunable : Prunable trace blockNumber era)
    (extended : Extends kind trace after)
    (quiet : ∀ op, kind op = true → op.unreceived = true ∧ op.sends = false) :
    Prunable after blockNumber era := by
  obtain ⟨active, during, atBlock, eras, since, unsent, head, listed, oldest⟩ := prunable
  have same := sessionActive_extended (extended.mono fun op kind => (quiet op kind).1)
  obtain ⟨passed, resumed, kinds⟩ := since.extended extended (by
    rintro _ kind rfl
    cases (quiet _ kind).1)
  refine ⟨same.trans active, during ++ passed, atBlock, eras, resumed, ?_,
    List.mem_append_left _ head, List.mem_append_left _ listed, oldest⟩
  intro event member
  rcases List.mem_append.mp member with earlier | later
  · exact unsent event earlier
  · exact (quiet _ (kinds event later)).2

theorem getPruneableEraIndex_prunes (active : sessionActive trace = true)
    (since : Since trace ⟨.eraPruningRecv, some (.newBlock blockNumber)⟩ []) :
    Leads pruneMonitor (getPruneableEraIndex : Task T (Nat × Option Nat))
      (fun (_, oldest) _ after => ∀ era, oldest = some era → Prunable after blockNumber era)
      () trace := by
  refine leads_ask trivial fun _ => leads_rpc ?_
  rintro atBlock rfl
  refine leads_ask trivial fun answer => ?_
  cases answer with
  | error failed => exact (leads_return _).mpr (by simp)
  | ok entries =>
      refine leads_rpc ?_
      rintro eras rfl
      refine (leads_return _).mpr fun era oldest => ?_
      have read : Extends Op.unreceived trace (trace ++ [⟨.storageAtHead, .ok atBlock⟩] ++
          [⟨.eraPruningState atBlock, .ok (.ok eras)⟩]) :=
        ((extends_refl trace).later rfl).later rfl
      have located : Since (trace ++ [⟨.storageAtHead, .ok atBlock⟩])
          ⟨.eraPruningRecv, some (.newBlock blockNumber)⟩ [⟨.storageAtHead, .ok atBlock⟩] :=
        since.later (by simp)
      have listed : Since (trace ++ [⟨.storageAtHead, .ok atBlock⟩] ++
          [⟨.eraPruningState atBlock, .ok (.ok eras)⟩])
          ⟨.eraPruningRecv, some (.newBlock blockNumber)⟩ (_ ++ [_]) := located.later (by simp)
      refine ⟨(sessionActive_extended read).trans active, _, atBlock, eras, listed, ?_, by simp,
        by simp, oldest⟩
      simp [Op.sends]

theorem pruneOldestEra_prunes (prunable : Prunable trace blockNumber era) :
    wp pruneMonitor (pruneOldestEra era : Task T Unit) (fun _ _ _ => True) () trace := by
  refine ⟨trivial, fun _ _ => ?_⟩
  have entered : Extends (fun op => op.unreceived && !op.sends) trace
      (trace ++ [⟨.pruneEntered era, ()⟩]) := (extends_refl trace).later rfl
  have ready := prunable.extended entered (by simp)
  change wp pruneMonitor (Program.attempt (do let _ ← submitAndFinalize _; ask _) >>= _) _ _ _
  rw [wp_bind, wp_attempt, wp_bind]
  refine wp_mono (submitAndFinalize_traced ?_ fun after nonce extended => ?_) ?_
  · intro _ op unsent _
    cases op <;> trivial
  · refine ⟨blockNumber, era, rfl, ready.extended extended fun op signs => ?_⟩
    cases op <;> first | exact ⟨rfl, rfl⟩ | cases signs
  · rintro (tx | error | _) _ after ⟨returned, _⟩
    · exact ⟨trivial, fun _ _ => ⟨trivial, fun _ _ => trivial⟩⟩
    · exact ⟨trivial, fun _ _ => ⟨trivial, fun _ _ => trivial⟩⟩
    · exact absurd rfl returned

theorem pruneForBlock_prunes (active : sessionActive trace = true)
    (since : Since trace ⟨.eraPruningRecv, some (.newBlock blockNumber)⟩ []) :
    wp pruneMonitor (pruneForBlock : Task T Unit) (fun _ _ _ => True) () trace := by
  rw [pruneForBlock, wp_bind]
  refine wp_timeout_anywhere (wp_mono (getPruneableEraIndex_prunes active since) ?_)
    fun _ _ => trivial
  rintro (⟨count, oldest⟩ | error | _) _ after leads
  · cases oldest with
    | none => trivial
    | some era => exact pruneOldestEra_prunes (leads _ rfl era rfl)
  · trivial
  · trivial

theorem pruneForBlock_unreceived :
    wp (Monitor.issuing Resp fun op : Op T => op.unreceived = true) (pruneForBlock : Task T Unit)
      (fun _ _ _ => True) () () := by
  have prunes (era : Nat) : wp (Monitor.issuing Resp fun op : Op T => op.unreceived = true)
      (pruneOldestEra era : Task T Unit) (fun _ _ _ => True) () () := by
    simp [pruneOldestEra, callPruneEraStep, submitAndFinalize, caught, Monitor.issuing,
      Op.unreceived]
  have lists : wp (Monitor.issuing Resp fun op : Op T => op.unreceived = true)
      (getPruneableEraIndex : Task T (Nat × Option Nat)) (fun _ _ _ => True) () () := by
    simp [getPruneableEraIndex, Monitor.issuing, Op.unreceived]
  rw [pruneForBlock, wp_bind]
  refine wp_timeout_anywhere (wp_mono lists ?_) fun _ _ => trivial
  rintro (⟨count, _ | era⟩ | error | _) _ _ _
  · trivial
  · exact prunes era
  · trivial
  · trivial

theorem sessionActive_event (trace : MinerTrace T) (message : EraPruningMessage) :
    sessionActive (trace ++ [⟨.eraPruningRecv, some message⟩]) =
      activeAfter (sessionActive trace) message := by
  unfold sessionActive receivedMessages
  rw [filterMap_event, List.foldl_append]
  rfl

theorem lazyEraPruningTurn_prunes (active : Bool) (same : active = sessionActive trace) :
    wp pruneMonitor (lazyEraPruningTurn : Miner T Bool Unit)
      (fun outcome active after => outcome = .ok () → active = sessionActive after)
      active trace := by
  rw [lazyEraPruningTurn, wp_bind, wp_ask]
  refine ⟨trivial, fun message _ => ?_⟩
  rw [followedBy_ok]
  match message with
  | none => simp
  | some .enterOffPhase => exact fun _ => (sessionActive_event trace .enterOffPhase).symm
  | some .exitOffPhase => exact fun _ => (sessionActive_event trace .exitOffPhase).symm
  | some (.newBlock blockNumber) =>
      have still := (sessionActive_event trace (.newBlock blockNumber)).trans same.symm
      dsimp only
      rw [wp_bind, wp_load, followedBy_ok]
      split
      · rename_i started
        rw [wp_lift]
        refine wp_mono (wp_tracing_issued (pruneForBlock_prunes (still.trans started)
          (since_last trace _)) pruneForBlock_unreceived) ?_
        rintro outcome _ after ⟨_, extended⟩ _
        exact ((sessionActive_extended extended).trans still).symm
      · exact fun _ => still.symm

end Pruning

section Miner

def uncleaning : Monitor (Op T) Resp Unit := Monitor.issuing Resp fun op => op.kind ≠ .janitor

theorem uncleaning_of_kinds {σ α : Type} {kinds : List OpKind} (uncleaned : .janitor ∉ kinds)
    {program : Miner T σ α}
    (issues : ∀ store, wp (kindMonitor kinds) program (fun _ _ _ => True) store ()) :
    uncleaning.Permits program := by
  refine permits_of_kinds issues fun _ op member => ?_
  rintro same
  rw [same] at member
  exact uncleaned member

theorem Issues.uncleaning {α : Type} {kinds : List OpKind} {task : Task T α}
    {post : Outcome Error α → Prop} (issues : Issues kinds task post)
    (uncleaned : .janitor ∉ kinds) : uncleaning.Permits task :=
  uncleaning_of_kinds uncleaned fun _ => wp_mono issues fun _ _ _ _ => trivial

theorem mineAndSubmit_uncleaning (config : ProcessConfig) (details : BlockDetails) :
    uncleaning.Permits (mineAndSubmit config details : Miner T (MinerState T) Unit) := by
  have mined : uncleaning.Permits
      (refreshCache details config.doReduce : Miner T (MinerState T) Unit) :=
    uncleaning_of_kinds (by simp [miningKinds]) fun state =>
      wp_mono (refreshCache_issues details config.doReduce state) fun _ _ _ _ => trivial
  refine mined.bind fun _ => Monitor.Permits.bind (fun _ _ => trivial) fun state => ?_
  split
  · exact fun _ _ => trivial
  · split
    · exact ((executeShadyBehavior_issues details.phase).uncleaning (by simp)).lift
    · exact uncleaning_of_kinds (by simp [submissionKinds]) fun store =>
        wp_mono (submitSolution_issues config details _ store) fun _ _ _ _ => trivial

theorem minerTurn_uncleaning (config : ProcessConfig) :
    uncleaning.Permits (minerTurn config : Miner T (MinerState T) Unit) := by
  refine Monitor.Permits.bind (ask_permitted fun _ sends => by cases sends) fun message => ?_
  rcases message with _ | message
  · exact fun _ _ => trivial
  · cases message with
    | clearSnapshots => exact fun _ _ => trivial
    | processBlock details =>
        have processed : uncleaning.Permits (processBlock config details : Miner T _ Unit) := by
          intro state ghost
          refine wp_processBlock config details state (fun op member => ⟨?_, fun _ => rfl⟩)
            (fun _ _ => trivial) fun _ _ _ => mineAndSubmit_uncleaning config details state ghost
          rintro same
          rw [same] at member
          simp [readKinds] at member
        refine processed.attempt.bind fun result => ?_
        cases result with
        | ok _ => exact fun _ _ => trivial
        | error error =>
            change uncleaning.Permits (if _ then _ else _)
            split <;> exact fun _ _ => trivial

end Miner

section Runs

variable {state after : MonitorState T config} {pages nonce : Nat}
variable {meets : MonitorState T config → MonitorEvent T → Prop}

def Justified (state : MonitorState T config) (task : MonitorTask) : Transaction T → Prop
  | .clearOldRoundData round witnessPages => task = .clearOldRounds ∧
      ∃ currentRound, Clearable (state.trace .clearOldRounds) currentRound round witnessPages
  | .pruneEraStep era => task = .eraPruning ∧
      ∃ blockNumber, Prunable (state.trace .eraPruning) blockNumber era
  | _ => task = .miner

theorem cleanup_obeys
    (run : (monitor config).Runs meets (monitorStart config pages nonce) state) :
    (monitor config).Obeys .clearOldRounds cleanupMonitor [] (fun _ _ => True) state := by
  have turns (last : Option Nat) (trace : MinerTrace T) :=
    wp_mono (clearOldRoundsTurn_clears last trace) fun outcome _ _ _ (_ : outcome = .ok ()) => trivial
  exact run.obeys rfl (fun last trace _ => turns last trace) (fun _ _ _ => trivial) (turns none [])

theorem pruning_obeys
    (run : (monitor config).Runs meets (monitorStart config pages nonce) state) :
    (monitor config).Obeys .eraPruning pruneMonitor []
      (fun active trace => active = sessionActive trace) state := by
  refine run.obeys rfl ?_ (fun _ _ _ => trivial) ?_
  · intro active trace same
    exact lazyEraPruningTurn_prunes active same
  · exact lazyEraPruningTurn_prunes false rfl

theorem miner_obeys
    (run : (monitor config).Runs meets (monitorStart config pages nonce) state) :
    (monitor config).Obeys .miner uncleaning () (fun _ _ => True) state := by
  have turns (store : MinerState T) :=
    wp_mono (minerTurn_uncleaning config store ()) fun outcome _ _ _ (_ : outcome = .ok ()) => trivial
  exact run.obeys rfl (fun store _ _ => turns store) (fun _ _ _ => trivial) (turns _)

theorem transaction_justified {task : MonitorTask} {transaction : Transaction T} {signed : Nat}
    {mortality : Option Nat} {answer : Read TxHandle}
    (run : (monitor config).Runs meets (monitorStart config pages nonce) state)
    (sends : (monitor config).Step state
      (some (task, ⟨.submitAndWatch transaction signed mortality, answer⟩)) after) :
    Justified state task transaction := by
  cases sends with
  | call _ _ waits given =>
      cases task with
      | listener =>
          have allowed := (listener_obeys run).follows.allows ⟨_, waits⟩
          exact allowed.elim
      | miner =>
          have allowed := (miner_obeys run).follows.allows ⟨_, waits⟩
          cases transaction <;> first | rfl | exact absurd rfl allowed
      | clearOldRounds =>
          have allowed := (cleanup_obeys run).follows.allows ⟨_, waits⟩
          rw [cleanupMonitor, tracing_after, List.nil_append] at allowed
          obtain ⟨currentRound, round, witnessPages, rfl, clearable⟩ := allowed
          exact ⟨rfl, currentRound, clearable⟩
      | eraPruning =>
          have allowed := (pruning_obeys run).follows.allows ⟨_, waits⟩
          rw [pruneMonitor, tracing_after, List.nil_append] at allowed
          obtain ⟨blockNumber, era, rfl, prunable⟩ := allowed
          exact ⟨rfl, blockNumber, prunable⟩

theorem tick_observed {currentRound : Nat}
    (run : (monitor config).Runs meets (monitorStart config pages nonce) state)
    (received : ⟨.clearOldRoundsRecv, some currentRound⟩ ∈ state.trace .clearOldRounds) :
    ∃ header phase, Observed (state.trace .listener) header phase currentRound := by
  have inOrder : clearOldRoundsTicks.InOrder state := Process.Channel.inOrder_of_runs run rfl rfl
  have ticked : currentRound ∈ (state.trace .clearOldRounds).filterMap tickReceived :=
    List.mem_filterMap.mpr ⟨_, received, rfl⟩
  obtain ⟨event, member, sent⟩ := List.mem_filterMap.mp (inOrder.received_isPrefix.subset ticked)
  obtain ⟨before, earlier, allowed⟩ := reported_after (listener_obeys run).accepts member
  obtain ⟨op, answer⟩ := event
  cases op with
  | clearOldRoundsTrySend round =>
      obtain ⟨header, phase, observed⟩ := allowed
      cases answer <;> cases sent
      exact ⟨header, phase, observed.mono earlier⟩
  | _ => cases sent

theorem enqueuedMessage_block {trace : MinerTrace T} (accepts : reportMonitor.Accepts [] trace)
    {event : Event (Op T) Resp} (member : event ∈ trace) {blockNumber : Nat}
    (sent : enqueuedMessage event = some (.newBlock blockNumber)) :
    announcedToPruning event = some blockNumber ∧
      ∃ header round, header.number = blockNumber ∧ Observed trace header .off round := by
  obtain ⟨before, earlier, allowed⟩ := reported_after accepts member
  obtain ⟨op, answer⟩ := event
  cases op with
  | eraPruningTrySend message =>
      obtain ⟨header, round, rfl, observed, _⟩ := allowed
      cases answer <;> cases sent
      exact ⟨rfl, header, round, rfl, observed.mono earlier⟩
  | eraPruningSend message =>
      cases answer <;> cases sent
      exact absurd rfl (allowed blockNumber)
  | _ => cases sent

theorem received_enqueued
    (run : (monitor config).Runs meets (monitorStart config pages nonce) state) :
    receivedMessages (state.trace .eraPruning) <+: enqueuedMessages (state.trace .listener) := by
  have inOrder : eraPruningMessages.InOrder state := Process.Channel.inOrder_of_runs run rfl rfl
  exact inOrder.received_isPrefix

theorem announced_observed {blockNumber : Nat}
    (run : (monitor config).Runs meets (monitorStart config pages nonce) state)
    (received : .newBlock blockNumber ∈ receivedMessages (state.trace .eraPruning)) :
    ∃ header round, header.number = blockNumber ∧
      Observed (state.trace .listener) header .off round := by
  obtain ⟨event, member, sent⟩ :=
    List.mem_filterMap.mp ((received_enqueued run).subset received)
  exact (enqueuedMessage_block (listener_obeys run).accepts member sent).2

end Runs

section Counting

variable {trace during : MinerTrace T}

def EraPruningMessage.block : EraPruningMessage → Option Nat
  | .newBlock blockNumber => some blockNumber
  | _ => none

theorem EraPruningMessage.block_eq_some {message : EraPruningMessage} {blockNumber : Nat} :
    message.block = some blockNumber ↔ message = .newBlock blockNumber := by
  cases message <;> simp [EraPruningMessage.block]

/-- The blocks that the pruning task has heard of. -/
def heardBlocks (trace : MinerTrace T) : List Nat :=
  (receivedMessages trace).filterMap EraPruningMessage.block

def countSent (trace : MinerTrace T) : Nat := trace.countP fun event => event.1.sends

def prunesFor : Option EraPruningMessage → Nat
  | some (.newBlock _) => 1
  | _ => 0

theorem unsent_iff : countSent trace = 0 ↔ ∀ event ∈ trace, event.1.sends = false := by
  simp [countSent, List.countP_eq_zero]

theorem countSent_event (trace : MinerTrace T) (event : Event (Op T) Resp) :
    countSent (trace ++ [event]) = countSent trace + if event.1.sends then 1 else 0 := by
  rw [countSent, List.countP_append, List.countP_singleton]
  rfl

theorem prunable_of_sends {event : Event (Op T) Resp} (sends : event.1.sends = true)
    (allowed : pruneMonitor.allows (pruneMonitor.after [] trace) event.1) :
    ∃ blockNumber era, Prunable trace blockNumber era := by
  rw [pruneMonitor, tracing_after, List.nil_append] at allowed
  obtain ⟨op, answer⟩ := event
  cases op with
  | submitAndWatch transaction signed mortality =>
      obtain ⟨blockNumber, era, rfl, prunable⟩ := allowed
      exact ⟨blockNumber, era, prunable⟩
  | _ => cases sends

theorem countSent_since {message : Option EraPruningMessage}
    (accepts : pruneMonitor.Accepts [] trace)
    (since : Since trace ⟨.eraPruningRecv, message⟩ during) :
    countSent during ≤ prunesFor message := by
  obtain ⟨before, rfl, quiet⟩ := since
  induction during using List.reverseRecOn with
  | nil => exact Nat.zero_le _
  | append_singleton during event ih =>
      rw [← List.cons_append, ← List.append_assoc, Monitor.accepts_append_event] at accepts
      have still (other) (member : other ∈ during) : other.1 ≠ Op.eraPruningRecv :=
        quiet other (by simp [member])
      have bounded := ih still accepts.1
      rw [countSent_event]
      by_cases sends : event.1.sends = true
      · obtain ⟨blockNumber, era, _, passed, _, _, since, unsent, _⟩ :=
          prunable_of_sends sends accepts.2
        obtain ⟨rfl, rfl⟩ := Since.unique ⟨before, rfl, still⟩ since
        rw [if_pos sends, unsent_iff.mpr unsent, prunesFor]
      · rw [if_neg sends]
        exact bounded

theorem unsent_unheard (accepts : pruneMonitor.Accepts [] trace)
    (unheard : ∀ event ∈ trace, event.1 ≠ Op.eraPruningRecv) : countSent trace = 0 := by
  rw [unsent_iff]
  intro event member
  obtain ⟨before, after, rfl⟩ := List.append_of_mem member
  rw [Bool.eq_false_iff]
  intro sends
  obtain ⟨_, _, _, _, _, _, since, _⟩ := prunable_of_sends sends accepts.allowed
  exact unheard _ (List.mem_append_left _ since.mem) rfl

end Counting

/-- In every interleaving of the tasks, the data of a round is cleared by the cleanup task only,
and only while it handles a tick for a later round, one that the listener read at a finalized
block: the round is within the window below it, and its metadata, read since the tick at one head,
has as many stored pages as the transaction names, at least one. -/
theorem old_round_clearing_is_justified (config : ProcessConfig) (pages nonce : Nat)
    (state after : MonitorState T config) (task : MonitorTask)
    (round witnessPages signed : Nat) (mortality : Option Nat) (answer : Read TxHandle)
    (run : (monitor config).Runs (fun _ _ => True) (monitorStart config pages nonce) state)
    (sends : (monitor config).Step state (some (task,
      ⟨.submitAndWatch (.clearOldRoundData round witnessPages) signed mortality, answer⟩)) after) :
    task = .clearOldRounds ∧ ∃ currentRound header phase,
      Clearable (state.trace .clearOldRounds) currentRound round witnessPages ∧
      Observed (state.trace .listener) header phase currentRound := by
  obtain ⟨rfl, currentRound, clearable⟩ := transaction_justified run sends
  obtain ⟨during, atBlock, submission, since, facts⟩ := clearable
  obtain ⟨header, phase, observed⟩ := tick_observed run since.mem
  exact ⟨rfl, currentRound, header, phase, ⟨during, atBlock, submission, since, facts⟩, observed⟩

theorem sends_of_waiting {state : MonitorState T config} {task : MonitorTask}
    {transaction : Transaction T} {signed : Nat} {mortality : Option Nat}
    (waits : (state.thread task).WaitsIn (.submitAndWatch transaction signed mortality))
    (answer : Read TxHandle) :
    ∃ after, (monitor config).Step state
      (some (task, ⟨.submitAndWatch transaction signed mortality, answer⟩)) after := by
  obtain ⟨next, pending⟩ := waits
  have given : (monitor config).possible state.world task
      (.submitAndWatch transaction signed mortality : Op T) answer := ⟨rfl, trivial⟩
  exact ⟨_, Process.Step.call task answer pending given⟩

def cleaningStarted : MonitorState sampleConfig janitorConfig :=
  pruningStarted.advances .listener (offBlock .enterOffPhase) 2

theorem cleaningStarted_runs :
    (monitor janitorConfig).Runs (fun _ _ => True) (monitorStart janitorConfig 2 5)
      cleaningStarted := by
  apply (pruningStarted_runs.mono fun _ _ _ => trivial).play
  repeat refine ⟨by trivial, ?_⟩
  trivial

def aboutToClear : MonitorState sampleConfig janitorConfig :=
  cleaningStarted.advances .clearOldRounds (offBlock .enterOffPhase) 7

set_option maxRecDepth 2000 in
theorem aboutToClear_runs :
    (monitor janitorConfig).Runs (fun _ _ => True) (monitorStart janitorConfig 2 5)
      aboutToClear := by
  apply cleaningStarted_runs.play
  repeat refine ⟨by trivial, ?_⟩
  trivial

set_option maxRecDepth 2000 in
theorem aboutToClear_sends :
    ∃ after, (monitor janitorConfig).Step aboutToClear (some (.clearOldRounds,
      ⟨.submitAndWatch (.clearOldRoundData 2 1) 5 none, .ok 0⟩)) after :=
  sends_of_waiting ⟨_, rfl⟩ (.ok 0)

theorem old_round_clearing_is_justified_first :
    ∃ currentRound header phase,
      Clearable (aboutToClear.trace .clearOldRounds) currentRound 2 1 ∧
      Observed (aboutToClear.trace .listener) header phase currentRound := by
  obtain ⟨after, sends⟩ := aboutToClear_sends
  exact (old_round_clearing_is_justified janitorConfig 2 5 _ after _ 2 1 5 none _
    aboutToClear_runs sends).2

/-- In every interleaving of the tasks, an era is pruned by the pruning task only, while its
session is active, as the first transaction for a finalized block in whose state the listener read
the Off phase, and it is the oldest of the eras read for that block. -/
theorem era_pruning_is_justified (config : ProcessConfig) (pages nonce : Nat)
    (state after : MonitorState T config) (task : MonitorTask) (era signed : Nat)
    (mortality : Option Nat) (answer : Read TxHandle)
    (run : (monitor config).Runs (fun _ _ => True) (monitorStart config pages nonce) state)
    (sends : (monitor config).Step state (some (task,
      ⟨.submitAndWatch (.pruneEraStep era) signed mortality, answer⟩)) after) :
    task = .eraPruning ∧ ∃ header round,
      Prunable (state.trace .eraPruning) header.number era ∧
      Observed (state.trace .listener) header .off round := by
  obtain ⟨rfl, blockNumber, prunable⟩ := transaction_justified run sends
  obtain ⟨active, during, atBlock, eras, since, facts⟩ := prunable
  have received : .newBlock blockNumber ∈ receivedMessages (state.trace .eraPruning) :=
    List.mem_filterMap.mpr ⟨_, since.mem, rfl⟩
  obtain ⟨header, round, rfl, observed⟩ := announced_observed run received
  exact ⟨rfl, header, round, ⟨active, during, atBlock, eras, since, facts⟩, observed⟩

def aboutToPrune : MonitorState sampleConfig janitorConfig :=
  cleaningStarted.advances .eraPruning (offBlock (.newBlock 101)) 12

set_option maxRecDepth 2000 in
theorem aboutToPrune_runs :
    (monitor janitorConfig).Runs (fun _ _ => True) (monitorStart janitorConfig 2 5)
      aboutToPrune := by
  apply cleaningStarted_runs.play
  repeat refine ⟨by trivial, ?_⟩
  trivial

set_option maxRecDepth 2000 in
theorem aboutToPrune_sends :
    ∃ after, (monitor janitorConfig).Step aboutToPrune (some (.eraPruning,
      ⟨.submitAndWatch (.pruneEraStep 3) 5 none, .ok 0⟩)) after :=
  sends_of_waiting ⟨_, rfl⟩ (.ok 0)

theorem era_pruning_is_justified_oldest :
    ∃ header round, Prunable (aboutToPrune.trace .eraPruning) header.number 3 ∧
      Observed (aboutToPrune.trace .listener) header .off round := by
  obtain ⟨after, sends⟩ := aboutToPrune_sends
  exact (era_pruning_is_justified janitorConfig 2 5 _ after _ 3 5 none _ aboutToPrune_runs
    sends).2

set_option maxRecDepth 2000 in
theorem nonceShared_pruned :
    ∃ during, Since (nonceShared.trace .eraPruning) ⟨.eraPruningRecv, some (.newBlock 101)⟩
      during ∧ countSent during = 1 := by
  refine ⟨(nonceShared.trace .eraPruning).drop 2, ⟨(nonceShared.trace .eraPruning).take 1, rfl, ?_⟩,
    rfl⟩
  have ops : ((nonceShared.trace .eraPruning).drop 2).all (fun event => event.1.unreceived) =
      true := rfl
  intro event member same
  have received := List.all_eq_true.mp ops event member
  rw [same] at received
  cases received

end LeanStakingMiner
