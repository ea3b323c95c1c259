import StakingMiner.MonitorCore
import StakingMiner.ProcessLogic

/-!
What the miner takes from its channel. The slot of the channel is free again as soon as the
miner has taken a block, so one block can wait in it while the miner is busy, and the blocks
after it are skipped in favour of an older one.
-/

namespace LeanStakingMiner

open LeanProgram

variable {T : MinerConfig} {config : ProcessConfig}

def handledBlock : Event (Op T) Resp → Option (BlockDetails × TrySend)
  | ⟨.minerTrySend (.processBlock details), .sent⟩ => some (details, .sent)
  | ⟨.minerTrySend (.processBlock details), .full⟩ => some (details, .full)
  | ⟨.minerSend (.processBlock details), true⟩ => some (details, .sent)
  | _ => none

def handledBlocks (trace : MinerTrace T) : List (BlockDetails × TrySend) :=
  trace.filterMap handledBlock

def Latest (state : MonitorState T config) (details : BlockDetails) : Prop :=
  (handledBlocks (state.trace .listener)).getLast? = some (details, .sent)

/-- The listener hands a block over only while no earlier block waits in the channel. -/
def NoBlockWaiting (state : MonitorState T config) : MonitorEvent T → Prop
  | (_, ⟨.minerTrySend (.processBlock _), _⟩) =>
      ∀ waiting, state.world.minerChannel ≠ some (.processBlock waiting)
  | _ => True

def WaitingIsLatest (state : MonitorState T config) : Prop :=
  ∀ details, state.world.minerChannel = some (.processBlock details) → Latest state details

theorem handledBlock_owner {event : Event (Op T) Resp} {handled : BlockDetails × TrySend}
    (found : handledBlock event = some handled) : event.1.owner = some .listener := by
  obtain ⟨op, answer⟩ := event
  cases op <;> first | rfl | cases found

theorem waiting_after {state : MonitorState T config} {task : MonitorTask} {op : Op T}
    {answer : Resp op} {details : BlockDetails}
    (met : NoBlockWaiting state (task, ⟨op, answer⟩))
    (waits : (state.world.next op answer).minerChannel = some (.processBlock details)) :
    handledBlock ⟨op, answer⟩ = some (details, .sent) ∨
      handledBlock ⟨op, answer⟩ = none ∧
        state.world.minerChannel = some (.processBlock details) := by
  cases op with
  | minerTrySend message =>
      cases message with
      | clearSnapshots =>
          cases answer with
          | sent => simp [MonitorWorld.next] at waits
          | full => exact Or.inr ⟨rfl, waits⟩
          | closed => exact Or.inr ⟨rfl, waits⟩
      | processBlock block =>
          cases answer with
          | sent =>
              left
              simp only [MonitorWorld.next, Option.some.injEq, MinerMessage.processBlock.injEq]
                at waits
              rw [waits]
              rfl
          | full => exact absurd waits (met details)
          | closed => exact Or.inr ⟨rfl, waits⟩
  | minerSend message =>
      cases answer with
      | false => exact Or.inr ⟨by cases message <;> rfl, waits⟩
      | true =>
          left
          simp only [MonitorWorld.next, Option.some.injEq] at waits
          rw [waits]
          rfl
  | minerRecv =>
      cases answer with
      | none => exact Or.inr ⟨rfl, waits⟩
      | some message => simp [MonitorWorld.next] at waits
  | clearOldRoundsTrySend _ => cases answer <;> exact Or.inr ⟨rfl, waits⟩
  | clearOldRoundsRecv => cases answer <;> exact Or.inr ⟨rfl, waits⟩
  | eraPruningSend _ => cases answer <;> exact Or.inr ⟨rfl, waits⟩
  | eraPruningTrySend _ => cases answer <;> exact Or.inr ⟨rfl, waits⟩
  | eraPruningRecv => cases answer <;> exact Or.inr ⟨rfl, waits⟩
  | _ => exact Or.inr ⟨rfl, waits⟩

theorem WaitingIsLatest.step {state after : MonitorState T config}
    {label : Option (MonitorEvent T)} (latest : WaitingIsLatest state)
    (step : (monitor config).Step state label after)
    (met : ∀ event, label = some event → NoBlockWaiting state event) : WaitingIsLatest after := by
  cases step with
  | move task moves => exact latest
  | evolve evolves => cases evolves <;> exact latest
  | @call issuer op next answer waits given =>
      intro details waiting
      unfold Latest
      rcases waiting_after (met _ rfl) waiting with handled | ⟨unhandled, waited⟩
      · obtain rfl : issuer = .listener := by
          have owned := given.1
          simpa [handledBlock_owner handled, eq_comm] using owned
        rw [answered_trace, handledBlocks, List.filterMap_append, List.getLast?_append]
        simp [handled]
      · have before := latest details waited
        by_cases listens : issuer = .listener
        · subst listens
          rw [answered_trace, handledBlocks, List.filterMap_append,
            List.filterMap_cons_none unhandled, List.filterMap_nil, List.append_nil]
          exact before
        · rw [answered_trace_other state _ _ _ (Ne.symm listens)]
          exact before

/-- In every run in which the listener hands a block over only while no earlier one waits
in the channel, the miner takes only the block the listener handled last. -/
theorem dequeued_block_is_latest (config : ProcessConfig) (pages nonce : Nat)
    (state after : MonitorState T config) (details : BlockDetails)
    (run : (monitor config).Runs NoBlockWaiting (monitorStart config pages nonce) state)
    (dequeues : (monitor config).Step state
      (some (.miner, ⟨.minerRecv, some (.processBlock details)⟩)) after) :
    Latest state details := by
  have latest : WaitingIsLatest state := by
    apply run.keeps
    · intro details waiting
      simp [monitorStart] at waiting
    · intro before label after latest step met
      exact latest.step step met
  cases dequeues with
  | call _ _ waits given => exact latest details given.2

theorem miner_can_dequeue {state : MonitorState T config} {message : MinerMessage}
    (waits : (state.thread .miner).WaitsIn .minerRecv)
    (waiting : state.world.minerChannel = some message) :
    ∃ after, (monitor config).Step state (some (.miner, ⟨.minerRecv, some message⟩)) after := by
  obtain ⟨next, pending⟩ := waits
  have given : (monitor config).possible state.world MonitorTask.miner (.minerRecv : Op T)
      (some message) := ⟨rfl, waiting⟩
  exact ⟨_, Process.Step.call MonitorTask.miner (some message) pending given⟩

def staleConfig : ProcessConfig := ⟨.ifLeading, false, 0, 10, false⟩

def snapshotDetails (number : Nat) : BlockDetails := ⟨number, .snapshot 0, 2, 7, 2, number⟩

def offersBlock (number : Nat) (answer : TrySend) : (op : Op sampleConfig) → Resp op
  | .minerTrySend _ => answer
  | .pages => 2
  | op => servesBlock ⟨number, number⟩ (.snapshot 0) 7 5 .exitOffPhase op

def takesBlock (number : Nat) : (op : Op sampleConfig) → Resp op
  | .minerRecv => some (.processBlock (snapshotDetails number))
  | op => unavailable op

def busyMiner : MonitorState sampleConfig staleConfig :=
  (((monitorStart staleConfig 2 5).advances .listener (offersBlock 101 .sent) 30).advances .miner
    (takesBlock 101) 1).advances .listener (offersBlock 102 .sent) 28

def minerBack : MonitorState sampleConfig staleConfig := busyMiner.advances .miner unavailable 4

def skippedBlock : MonitorState sampleConfig staleConfig :=
  (busyMiner.advances .listener (offersBlock 103 .full) 28).advances .miner unavailable 4

set_option maxRecDepth 4000 in
theorem busyMiner_runs :
    (monitor staleConfig).Runs NoBlockWaiting (monitorStart staleConfig 2 5) busyMiner := by
  apply Process.Runs.play
  · apply Process.Runs.play
    · apply Process.Runs.refl.play
      repeat refine ⟨by first | trivial | exact ⟨⟨rfl, rfl⟩, fun _ => nofun⟩, ?_⟩
      trivial
    · exact ⟨⟨⟨rfl, rfl⟩, trivial⟩, trivial⟩
  · repeat refine ⟨by first | trivial | exact ⟨⟨rfl, rfl⟩, fun _ => nofun⟩, ?_⟩
    trivial

set_option maxRecDepth 4000 in
theorem minerBack_runs :
    (monitor staleConfig).Runs NoBlockWaiting (monitorStart staleConfig 2 5) minerBack := by
  apply busyMiner_runs.play
  repeat refine ⟨by trivial, ?_⟩
  trivial

set_option maxRecDepth 4000 in
theorem minerBack_dequeues :
    ∃ after, (monitor staleConfig).Step minerBack
      (some (.miner, ⟨.minerRecv, some (.processBlock (snapshotDetails 102))⟩)) after :=
  miner_can_dequeue ⟨_, rfl⟩ rfl

theorem dequeued_block_is_latest_idle : Latest minerBack (snapshotDetails 102) := by
  obtain ⟨after, dequeues⟩ := minerBack_dequeues
  exact dequeued_block_is_latest staleConfig 2 5 _ after _ minerBack_runs dequeues

set_option maxRecDepth 4000 in
theorem skippedBlock_runs :
    (monitor staleConfig).Runs (fun _ _ => True) (monitorStart staleConfig 2 5) skippedBlock := by
  apply Process.Runs.play
  · apply (busyMiner_runs.mono fun _ _ _ => trivial).play
    repeat refine ⟨by first | trivial | exact ⟨⟨rfl, Option.some_ne_none _⟩, trivial⟩, ?_⟩
    trivial
  · repeat refine ⟨by trivial, ?_⟩
    trivial

set_option maxRecDepth 4000 in
theorem skippedBlock_handled :
    handledBlocks (skippedBlock.trace .listener) =
      [(snapshotDetails 101, .sent), (snapshotDetails 102, .sent), (snapshotDetails 103, .full)] :=
  rfl

set_option maxRecDepth 4000 in
theorem skippedBlock_dequeues :
    ∃ after, (monitor staleConfig).Step skippedBlock
      (some (.miner, ⟨.minerRecv, some (.processBlock (snapshotDetails 102))⟩)) after :=
  miner_can_dequeue ⟨_, rfl⟩ rfl

/-- Block 102 waited while the miner worked on block 101; block 103 was skipped; now the
miner takes block 102. -/
theorem miner_dequeues_stale_block :
    ∃ state after, (monitor staleConfig).Runs (fun _ _ => True)
        (monitorStart staleConfig 2 5 : MonitorState sampleConfig staleConfig) state ∧
      (monitor staleConfig).Step state
        (some (.miner, ⟨.minerRecv, some (.processBlock (snapshotDetails 102))⟩)) after ∧
      ¬Latest state (snapshotDetails 102) := by
  obtain ⟨after, dequeues⟩ := skippedBlock_dequeues
  refine ⟨skippedBlock, after, skippedBlock_runs, dequeues, ?_⟩
  unfold Latest
  rw [skippedBlock_handled]
  decide

end LeanStakingMiner
