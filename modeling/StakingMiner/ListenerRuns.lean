import StakingMiner.ChainLogic
import StakingMiner.ListenerCore
import StakingMiner.ProgramTrace

/-!
The listener during an outage. The error that reports too many recreated subscriptions
is one the listener recovers from, so no number of stalls makes it return.
-/

namespace LeanStakingMiner

open LeanProgram

variable {T : MinerConfig} {α γ : Type}

def stalls : (op : Op T) → Resp op → Prop
  | .nextBlock, some (some _) => False
  | _, _ => True

def Stalled (trace : MinerTrace T) : Prop := ∀ event ∈ trace, stalls event.1 event.2

def stallMonitor : Monitor (Op T) Resp Unit where
  expects _ := stalls
  allows _ _ := True
  next _ _ _ := ()

theorem stallMonitor_expected (trace : MinerTrace T) (stalled : Stalled trace) :
    stallMonitor.Expected () trace := by
  induction trace with
  | nil => trivial
  | cons event rest ih =>
      have first := stalled event (by simp)
      have later : Stalled rest := fun other member => stalled other (by simp [member])
      exact ⟨first, ih later⟩

def Recoverable : Outcome Error α → Prop
  | .ok _ => True
  | .err error => isCriticalListenerError error = false
  | .panic => False

theorem recreateSubscriptionWithFailover_recoverable :
    wp stallMonitor (recreateSubscriptionWithFailover : Task T Unit)
      (fun outcome _ _ => Recoverable outcome) () () := by
  unfold recreateSubscriptionWithFailover
  rw [wp_bind, wp_ask]
  refine ⟨trivial, ?_⟩
  intro first _
  cases first with
  | ok subscription => trivial
  | error error =>
      rw [followedBy_ok, wp_bind, wp_ask]
      refine ⟨trivial, ?_⟩
      intro failover _
      cases failover with
      | error failed => rfl
      | ok reconnected =>
          rw [followedBy_ok, wp_bind, wp_ask]
          refine ⟨trivial, ?_⟩
          intro second _
          cases second with
          | ok subscription => trivial
          | error again => rfl

theorem recreateSubscription_recoverable (action : ListenerAction) (state : ListenerState) :
    wp stallMonitor (recreateSubscription action : Miner T ListenerState ListenerAction)
      (fun outcome _ _ => Recoverable outcome) state () := by
  unfold recreateSubscription
  rw [wp_bind, wp_modify, followedBy_ok, wp_bind, wp_load, followedBy_ok]
  split
  · rfl
  · rw [wp_bind, wp_lift]
    refine wp_mono recreateSubscriptionWithFailover_recoverable ?_
    intro outcome _ _ recoverable
    cases outcome with
    | ok value => trivial
    | err error => exact recoverable
    | panic => exact recoverable

theorem listenerTurn_stalled (state : ListenerState) :
    wp stallMonitor (listenerTurn : Miner T ListenerState Unit)
      (fun outcome _ _ => outcome = .ok ()) state () := by
  have iteration : wp stallMonitor (processListenerIteration : Miner T ListenerState _)
      (fun outcome _ _ => Recoverable outcome) state () := by
    unfold processListenerIteration
    rw [wp_bind, wp_ask]
    refine ⟨trivial, ?_⟩
    intro answer stalled
    match answer with
    | none => exact recreateSubscription_recoverable _ state
    | some none => exact recreateSubscription_recoverable _ state
    | some (some _) => exact absurd stalled id
  unfold listenerTurn
  rw [wp_bind, wp_attempt]
  refine wp_mono iteration ?_
  intro outcome after _ recoverable
  cases outcome with
  | ok action => rfl
  | err error =>
      have recovered : isCriticalListenerError error = false := recoverable
      change wp _ (if isCriticalListenerError error then _ else _) _ _ _
      rw [recovered]
      exact ⟨trivial, fun _ _ => rfl⟩
  | panic => exact absurd recoverable id

theorem listenerLoop_stalled (turns : Nat) (state : ListenerState) :
    wp stallMonitor (listenerLoop turns : Miner T ListenerState Unit)
      (fun outcome _ _ => outcome = .ok ()) state () := by
  induction turns generalizing state with
  | zero => rfl
  | succ turns ih =>
      unfold listenerLoop
      refine wp_seq (listenerTurn_stalled state) ?_ (fun _ _ _ ended => by simp at ended)
        (fun _ _ ended => by simp at ended)
      intro _ after _ _
      exact ih after

/-- However many iterations in a row end in a stall, and whatever the attempts to recreate
the subscription return, the listener task has not returned. -/
theorem stalled_listener_keeps_running (env : MinerEnv T) (state : ListenerState)
    (history : MinerTrace T) (turns : Nat)
    (stalled : Stalled (run env (listenerLoop turns) state history).trace) :
    (run env (listenerLoop turns) state history).outcome = .ok () :=
  (wp_run env history (listenerLoop_stalled turns state) (stallMonitor_expected _ stalled)).2

theorem unavailable_stalled (turns : Nat) :
    Stalled (run ⟨fun _ => unavailable, fun _ _ => false⟩
      (listenerLoop turns : Miner sampleConfig ListenerState Unit) .initial []).trace := by
  apply run_answers
  intro history op
  cases op <;> trivial

theorem stalled_listener_keeps_running_unavailable :
    (run ⟨fun _ => unavailable, fun _ _ => false⟩
      (listenerLoop 100 : Miner sampleConfig ListenerState Unit) .initial []).outcome = .ok () :=
  stalled_listener_keeps_running _ _ _ 100 (unavailable_stalled 100)

/-- One stall more than the limit allows, with a node that is gone for good: the error is
raised in the last iteration and the listener sleeps and goes on. -/
theorem stall_limit_does_not_exit :
    let result := run ⟨fun _ => unavailable, fun _ _ => false⟩
      (listenerLoop (maxSubscriptionRecreationAttempts + 1) :
        Miner sampleConfig ListenerState Unit) .initial []
    Stalled result.trace ∧ result.store.subscriptionRecreationAttempts = 4 ∧
      ¬∃ error, result.outcome = .err error := by
  intro result
  refine ⟨unavailable_stalled _, rfl, ?_⟩
  rintro ⟨error, returned⟩
  have running : result.outcome = .ok () := rfl
  rw [running] at returned
  contradiction

end LeanStakingMiner
