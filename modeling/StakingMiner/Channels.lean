import StakingMiner.ProcessTraces

/-!
Channels with room for one message between two tasks of a process. Whatever the other tasks do
and however the world changes, the receiver gets what the sender sent, in that order, each message
once, and what it has not got yet is waiting in the slot.
-/

namespace LeanProgram

variable {ι Op μ : Type} {Resp : Op → Type}

/-- A one-slot channel of a process: which task sends and which receives, which answers mean that
a message was put into the slot or taken out of it, and that nothing else touches the slot. -/
structure Process.Channel (process : Process ι Op Resp) (μ : Type) where
  sender : ι
  receiver : ι
  slot : process.World → Option μ
  sent : Event Op Resp → Option μ
  received : Event Op Resp → Option μ
  sends : ∀ {world task event message}, sent event = some message →
    process.possible world task event.1 event.2 →
    task = sender ∧ slot world = none ∧ slot (process.next world event.1 event.2) = some message
  receives : ∀ {world task event message}, received event = some message →
    process.possible world task event.1 event.2 →
    task = receiver ∧ slot world = some message ∧ slot (process.next world event.1 event.2) = none
  untouched : ∀ {world event}, sent event = none → received event = none →
    slot (process.next world event.1 event.2) = slot world
  unmoved : ∀ {world after}, process.evolves world after → slot after = slot world

variable [DecidableEq ι] {process : Process ι Op Resp} {state after : process.State}
variable {label : Option (ι × Event Op Resp)}

namespace Process.Channel

variable (channel : process.Channel μ)

def sentIn (state : process.State) : List μ :=
  (state.trace channel.sender).filterMap channel.sent

def receivedIn (state : process.State) : List μ :=
  (state.trace channel.receiver).filterMap channel.received

def InOrder (state : process.State) : Prop :=
  channel.sentIn state = channel.receivedIn state ++ (channel.slot state.world).toList

variable {channel}

theorem InOrder.step (inOrder : channel.InOrder state) (step : process.Step state label after) :
    channel.InOrder after := by
  unfold InOrder sentIn receivedIn at inOrder ⊢
  cases step with
  | move task moves => exact inOrder
  | evolve evolves =>
      rw [channel.unmoved evolves]
      exact inOrder
  | @call issuer op next answer waits given =>
      rw [answered_filterMap, answered_filterMap]
      change _ = _ ++ (channel.slot (process.next state.world op answer)).toList
      cases sent : channel.sent ⟨op, answer⟩ with
      | some message =>
          obtain ⟨rfl, empty, filled⟩ := channel.sends sent given
          have silent : channel.received ⟨op, answer⟩ = none := by
            by_contra taken
            obtain ⟨other, received⟩ := Option.ne_none_iff_exists'.mp taken
            obtain ⟨_, full, _⟩ := channel.receives received given
            rw [empty] at full
            contradiction
          simp [inOrder, empty, filled, silent]
      | none =>
          cases received : channel.received ⟨op, answer⟩ with
          | some message =>
              obtain ⟨rfl, full, emptied⟩ := channel.receives received given
              simp [inOrder, full, emptied]
          | none =>
              have kept : channel.slot (process.next state.world op answer) =
                  channel.slot state.world := channel.untouched sent received
              simp [inOrder, kept]

variable {meets : process.State → ι × Event Op Resp → Prop} {first : process.State}

theorem inOrder_of_runs (run : process.Runs meets first state) (fresh : first.log = [])
    (empty : channel.slot first.world = none) : channel.InOrder state := by
  refine run.keeps ?_ fun _ _ _ inOrder step _ => inOrder.step step
  simp [InOrder, sentIn, receivedIn, Process.State.trace, fresh, empty]

theorem InOrder.received_isPrefix (inOrder : channel.InOrder state) :
    channel.receivedIn state <+: channel.sentIn state :=
  ⟨_, inOrder.symm⟩

end Process.Channel

end LeanProgram
