import StakingMiner.JanitorCore
import StakingMiner.SubmitLogic

/-!
Calls that are finalized but fail. A transaction's watch ends well once its extrinsic is in
a finalized block, whatever its dispatch did. The callers that wait no further take an
included call for a successful one.
-/

namespace LeanStakingMiner

open LeanProgram

variable {T : MinerConfig} {α : Type}

inductive ExtrinsicOutcome where
  | lost (error : SubxtError)
  | included (tx : TxInBlock) (dispatched : Bool)
deriving Repr, DecidableEq

namespace ExtrinsicOutcome

def finalized : ExtrinsicOutcome → Read TxInBlock
  | lost error => .error error
  | included tx _ => .ok tx

def isIncluded : ExtrinsicOutcome → Bool
  | lost _ => false
  | included _ _ => true

def isDispatched : ExtrinsicOutcome → Bool
  | lost _ => false
  | included _ dispatched => dispatched

def Failed (outcome : ExtrinsicOutcome) : Prop :=
  outcome.isIncluded = true ∧ outcome.isDispatched = false

theorem isIncluded_of_isDispatched {outcome : ExtrinsicOutcome}
    (dispatched : outcome.isDispatched = true) : outcome.isIncluded = true := by
  cases outcome with
  | lost error => contradiction
  | included tx _ => rfl

end ExtrinsicOutcome

abbrev Extrinsics := TxHandle → ExtrinsicOutcome

def sentCall : (op : Op T) → Resp op → List (Transaction T × TxHandle)
  | .submitAndWatch transaction _ _, .ok handle => [(transaction, handle)]
  | _, _ => []

def sentCalls (trace : MinerTrace T) : List (Transaction T × TxHandle) :=
  trace.flatMap fun event => sentCall event.1 event.2

def countedSuccess : (op : Op T) → Resp op → Nat
  | .metric .eraPruningSubmissionSuccess, _ => 1
  | _, _ => 0

def countedSuccesses (trace : MinerTrace T) : Nat :=
  (trace.map fun event => countedSuccess event.1 event.2).sum

structure CallLog (T : MinerConfig) where
  calls : List (Transaction T × TxHandle)
  successes : Nat

def dispatchMonitor (extrinsics : Extrinsics) : Monitor (Op T) Resp (CallLog T) where
  expects _ op answer :=
    match op, answer with
    | .waitForFinalized handle, answer => answer = (extrinsics handle).finalized
    | _, _ => True
  allows _ _ := True
  next log op answer := ⟨log.calls ++ sentCall op answer, log.successes + countedSuccess op answer⟩

/-- The watch of a transaction ends as the chain has it. -/
def Reports (extrinsics : Extrinsics) (env : MinerEnv T) : Prop :=
  ∀ history handle, env.answer history (.waitForFinalized handle) = (extrinsics handle).finalized

variable {extrinsics : Extrinsics} {log : CallLog T}

theorem dispatchMonitor_after (trace : MinerTrace T) :
    (dispatchMonitor extrinsics).after log trace =
      ⟨log.calls ++ sentCalls trace, log.successes + countedSuccesses trace⟩ := by
  induction trace generalizing log with
  | nil => simp [sentCalls, countedSuccesses]
  | cons event rest ih =>
      rw [Monitor.after_cons, ih]
      simp [dispatchMonitor, sentCalls, countedSuccesses, Nat.add_assoc]

theorem dispatchMonitor_unsent {op : Op T} {answer : Resp op} (quiet : sentCall op answer = [])
    (uncounted : countedSuccess op answer = 0) :
    (dispatchMonitor extrinsics).next log op answer = log := by
  simp [dispatchMonitor, quiet, uncounted]

theorem Reports.expected {env : MinerEnv T} (reports : Reports extrinsics env) {σ : Type}
    (program : Miner T σ α) (store : σ) (history : MinerTrace T) :
    (dispatchMonitor extrinsics).Expected log (run env program store history).trace := by
  induction program generalizing store history log with
  | pure | fail | panic => trivial
  | call op next ih =>
      refine ⟨?_, ih _ _ _⟩
      cases op with
      | waitForFinalized handle => exact reports history handle
      | _ => trivial
  | tick issued next ih => exact ih _ _ _
  | get next ih => exact ih _ _ _
  | set written next ih => exact ih _ _

def succeeded : Outcome Error α → Bool
  | .ok _ => true
  | _ => false

def CallAttempted (extrinsics : Extrinsics) (transaction : Transaction T) (success : Bool)
    (calls : List (Transaction T × TxHandle)) : Prop :=
  success = false ∧ calls = [] ∨
    ∃ handle, calls = [(transaction, handle)] ∧ (extrinsics handle).isIncluded = success

theorem submitAndFinalize_calls (transaction : Transaction T) :
    wp (dispatchMonitor extrinsics) (submitAndFinalize transaction)
      (fun outcome _ after => outcome ≠ .panic ∧ ∃ calls,
        after = ⟨log.calls ++ calls, log.successes⟩ ∧
          CallAttempted extrinsics transaction (succeeded outcome) calls) () log := by
  have unsent (error : SubxtError) : (.err (.subxt error) : Outcome Error TxInBlock) ≠ .panic ∧
      ∃ calls, log = ⟨log.calls ++ calls, log.successes⟩ ∧
        CallAttempted extrinsics transaction false calls :=
    ⟨by simp, [], by simp, Or.inl ⟨rfl, rfl⟩⟩
  simp only [submitAndFinalize, wp_bind, wp_ask, forall_read, dispatchMonitor, sentCall,
    countedSuccess, wp_rpc_error, wp_rpc_ok, followedBy_ok, followedBy_err, List.append_nil,
    Nat.add_zero, true_and, true_implies]
  refine ⟨unsent, fun _ => ⟨unsent, fun nonce => ⟨unsent, fun _ => ⟨unsent, fun handle => ?_⟩⟩⟩⟩
  cases outcome : extrinsics handle with
  | lost error =>
      have missing : (extrinsics handle).isIncluded = false := congrArg _ outcome
      refine ⟨fun _ _ => ?_, fun _ impossible => absurd impossible (by simp [ExtrinsicOutcome.finalized])⟩
      exact ⟨by simp, [(transaction, handle)], rfl, Or.inr ⟨handle, rfl, missing⟩⟩
  | included tx dispatched =>
      have present : (extrinsics handle).isIncluded = true := congrArg _ outcome
      refine ⟨fun _ impossible => absurd impossible (by simp [ExtrinsicOutcome.finalized]), fun _ _ => ?_⟩
      exact ⟨by simp, [(transaction, handle)], rfl, Or.inr ⟨handle, rfl, present⟩⟩

inductive Call where
  | bail
  | clearOldRoundData (round witnessPages : Nat)
  | pruneEraStep (era : Nat)
deriving Repr, DecidableEq

def Call.transaction : Call → Transaction T
  | .bail => .bail
  | .clearOldRoundData round witnessPages => .clearOldRoundData round witnessPages
  | .pruneEraStep era => .pruneEraStep era

def Call.task : Call → Task T Unit
  | .bail => LeanStakingMiner.bail
  | .clearOldRoundData round witnessPages => LeanStakingMiner.clearOldRoundData round witnessPages
  | .pruneEraStep era => callPruneEraStep era

def Call.counted (call : Call) (success : Bool) : Nat :=
  match call, success with
  | .pruneEraStep _, true => 1
  | _, _ => 0

theorem finalizedThen_calls (call : Call) (rest : TxInBlock → Task T Unit)
    (counted : ∀ tx calls, wp (dispatchMonitor extrinsics) (rest tx)
      (fun outcome _ after => outcome = .ok () ∧
        after = ⟨log.calls ++ calls, log.successes + call.counted true⟩)
      () ⟨log.calls ++ calls, log.successes⟩)
    (uncounted : call.counted false = 0) :
    wp (dispatchMonitor extrinsics) (submitAndFinalize call.transaction >>= rest)
      (fun outcome _ after => outcome ≠ .panic ∧ ∃ calls,
        after = ⟨log.calls ++ calls, log.successes + call.counted (succeeded outcome)⟩ ∧
          CallAttempted extrinsics call.transaction (succeeded outcome) calls) () log := by
  refine wp_seq (submitAndFinalize_calls call.transaction) ?_ ?_ ?_
  · rintro tx _ _ ⟨_, calls, rfl, attempted⟩
    refine wp_mono (counted tx calls) ?_
    rintro _ _ _ ⟨rfl, rfl⟩
    exact ⟨nofun, calls, rfl, attempted⟩
  · rintro error _ _ ⟨_, calls, rfl, attempted⟩
    exact ⟨nofun, calls, by simp [succeeded, uncounted], attempted⟩
  · rintro _ _ ⟨calm, _⟩
    exact absurd rfl calm

theorem Call.task_calls (call : Call) :
    wp (dispatchMonitor extrinsics) (call.task : Task T Unit)
      (fun outcome _ after => outcome ≠ .panic ∧ ∃ calls,
        after = ⟨log.calls ++ calls, log.successes + call.counted (succeeded outcome)⟩ ∧
          CallAttempted extrinsics call.transaction (succeeded outcome) calls) () log := by
  cases call with
  | bail => exact finalizedThen_calls .bail _ (fun _ _ => ⟨rfl, rfl⟩) rfl
  | clearOldRoundData round witnessPages =>
      exact finalizedThen_calls (.clearOldRoundData round witnessPages) _
        (fun _ _ => ⟨rfl, rfl⟩) rfl
  | pruneEraStep era =>
      refine finalizedThen_calls (.pruneEraStep era) _ (fun tx calls => ?_) rfl
      refine ⟨trivial, fun _ _ => ⟨rfl, ?_⟩⟩
      simp [dispatchMonitor, sentCall, countedSuccess, counted]

def includedCalls (extrinsics : Extrinsics) (calls : List (Transaction T × TxHandle)) : Nat :=
  calls.countP fun call => (extrinsics call.2).isIncluded

def dispatchedCalls (extrinsics : Extrinsics) (calls : List (Transaction T × TxHandle)) : Nat :=
  calls.countP fun call => (extrinsics call.2).isDispatched

def NoneFailed (extrinsics : Extrinsics) (calls : List (Transaction T × TxHandle)) : Prop :=
  ∀ call ∈ calls, ¬ (extrinsics call.2).Failed

@[simp] theorem includedCalls_append (first second : List (Transaction T × TxHandle)) :
    includedCalls extrinsics (first ++ second) =
      includedCalls extrinsics first + includedCalls extrinsics second := List.countP_append

theorem included_eq_dispatched_iff (calls : List (Transaction T × TxHandle)) :
    includedCalls extrinsics calls = dispatchedCalls extrinsics calls ↔
      NoneFailed extrinsics calls := by
  have fewer (calls : List (Transaction T × TxHandle)) :
      dispatchedCalls extrinsics calls ≤ includedCalls extrinsics calls :=
    List.countP_mono_left fun call _ => ExtrinsicOutcome.isIncluded_of_isDispatched
  induction calls with
  | nil => simp [includedCalls, dispatchedCalls, NoneFailed]
  | cons call rest ih =>
      have tail := fewer rest
      have split : NoneFailed extrinsics (call :: rest) ↔
          ¬ (extrinsics call.2).Failed ∧ NoneFailed extrinsics rest := List.forall_mem_cons
      refine Iff.trans ?_ ((and_congr_right fun _ => ih).trans split.symm)
      have included : includedCalls extrinsics (call :: rest) = includedCalls extrinsics rest +
          if (extrinsics call.2).isIncluded then 1 else 0 := List.countP_cons
      have dispatched : dispatchedCalls extrinsics (call :: rest) =
          dispatchedCalls extrinsics rest + if (extrinsics call.2).isDispatched then 1 else 0 :=
        List.countP_cons
      rw [included, dispatched, ExtrinsicOutcome.Failed]
      cases head : (extrinsics call.2).isDispatched with
      | true => simp [ExtrinsicOutcome.isIncluded_of_isDispatched head]
      | false =>
          cases (extrinsics call.2).isIncluded with
          | true =>
              simp only [↓reduceIte, Bool.false_eq_true, and_self, not_true_eq_false, false_and,
                iff_false]
              omega
          | false => simp

theorem CallAttempted.included {transaction : Transaction T} {success : Bool}
    {calls : List (Transaction T × TxHandle)}
    (attempted : CallAttempted extrinsics transaction success calls) :
    includedCalls extrinsics calls = success.toNat := by
  rcases attempted with ⟨rfl, rfl⟩ | ⟨handle, rfl, included⟩
  · rfl
  · cases success with
    | true => simp [includedCalls, included]
    | false => simp [includedCalls, included]

theorem CallAttempted.dispatched_iff {transaction : Transaction T} {success : Bool}
    {calls : List (Transaction T × TxHandle)}
    (attempted : CallAttempted extrinsics transaction success calls) :
    (success = true →
      ∃ handle, (transaction, handle) ∈ calls ∧ (extrinsics handle).isDispatched = true) ↔
      NoneFailed extrinsics calls := by
  rcases attempted with ⟨rfl, rfl⟩ | ⟨handle, rfl, rfl⟩
  · simp [NoneFailed]
  · simp [NoneFailed, ExtrinsicOutcome.Failed]

theorem cleanRounds_calls (atBlock : AtBlock) (rounds : List Nat) (cleaned : Nat) :
    wp (dispatchMonitor extrinsics) (cleanRounds atBlock rounds cleaned)
      (fun outcome _ after => ∃ calls, after.calls = log.calls ++ calls ∧
        ∀ count, outcome = .ok count → count = cleaned + includedCalls extrinsics calls)
      () log := by
  induction rounds generalizing cleaned log with
  | nil => exact ⟨[], by simp, fun _ same => (Outcome.ok.inj same).symm⟩
  | cons oldRound rest ih =>
      rw [cleanRounds, wp_bind, wp_ask]
      refine ⟨trivial, fun answer _ => ?_⟩
      rw [dispatchMonitor_unsent rfl rfl, followedBy_ok]
      cases answer with
      | error error => exact ⟨[], by simp, fun _ => nofun⟩
      | ok maybeSubmission =>
          rw [wp_bind, wp_rpc_ok, followedBy_ok]
          cases maybeSubmission with
          | none => exact ih cleaned
          | some submission =>
              dsimp only
              split
              · exact ih cleaned
              · rw [wp_bind, wp_attempt]
                refine wp_mono (Call.task_calls (.clearOldRoundData oldRound _)) ?_
                rintro (_ | error | _) _ _ ⟨calm, calls, rfl, attempted⟩
                · refine wp_mono (ih (cleaned + 1)) ?_
                  rintro outcome _ after ⟨later, extended, counted⟩
                  refine ⟨calls ++ later, by simp [extended], fun count finished => ?_⟩
                  rw [counted count finished, includedCalls_append, attempted.included]
                  simp [succeeded, Nat.add_assoc]
                · refine wp_mono (ih cleaned) ?_
                  rintro outcome _ after ⟨later, extended, counted⟩
                  refine ⟨calls ++ later, by simp [extended], fun count finished => ?_⟩
                  rw [counted count finished, includedCalls_append, attempted.included]
                  simp [succeeded]
                · exact absurd rfl calm

theorem runClearOldRoundsCleanup_calls (currentRound : Nat) (last : Option Nat) :
    wp (dispatchMonitor extrinsics) (runClearOldRoundsCleanup currentRound)
      (fun outcome _ after => ∃ calls, after.calls = log.calls ++ calls ∧
        ∀ count, outcome = .ok count → count = includedCalls extrinsics calls) last log := by
  rw [runClearOldRoundsCleanup, wp_bind, wp_ask]
  refine ⟨trivial, fun answer _ => ?_⟩
  rw [dispatchMonitor_unsent rfl rfl, followedBy_ok]
  cases answer with
  | error error => exact ⟨[], by simp, fun _ => nofun⟩
  | ok atBlock =>
      rw [wp_bind, wp_rpc_ok, followedBy_ok, wp_bind, wp_load, followedBy_ok]
      dsimp only
      split
      · exact ⟨[], by simp, fun _ same => (Outcome.ok.inj same).symm⟩
      · rw [wp_bind, wp_lift]
        refine wp_mono (cleanRounds_calls atBlock _ 0) ?_
        rintro (count | error | _) _ after ⟨calls, extended, counted⟩
        · refine ⟨calls, extended, ?_⟩
          rintro _ ⟨⟩
          simpa using counted count rfl
        · exact ⟨calls, extended, fun _ => nofun⟩
        · exact ⟨calls, extended, fun _ => nofun⟩

/-- Every included call has been counted as a success, and nothing else has. -/
def Counted (extrinsics : Extrinsics) (log after : CallLog T) : Prop :=
  ∃ calls, after = ⟨log.calls ++ calls, log.successes + includedCalls extrinsics calls⟩

theorem Counted.refl : Counted extrinsics log log := ⟨[], by simp [includedCalls]⟩

theorem Counted.trans {middle after : CallLog T} (first : Counted extrinsics log middle)
    (second : Counted extrinsics middle after) : Counted extrinsics log after := by
  obtain ⟨calls, rfl⟩ := first
  obtain ⟨more, rfl⟩ := second
  exact ⟨calls ++ more, by simp [Nat.add_assoc]⟩

theorem pruneOldestEra_counted (era : Nat) :
    wp (dispatchMonitor extrinsics) (pruneOldestEra era : Task T Unit)
      (fun _ _ after => Counted extrinsics log after) () log := by
  rw [pruneOldestEra, wp_bind, wp_ask]
  refine ⟨trivial, fun _ _ => ?_⟩
  rw [dispatchMonitor_unsent rfl rfl, followedBy_ok, wp_bind, wp_attempt]
  refine wp_mono (Call.task_calls (.pruneEraStep era)) ?_
  rintro (_ | error | _) _ _ ⟨calm, calls, rfl, attempted⟩
  · refine wp_bind _ _ |>.mpr ⟨trivial, fun _ _ => ?_⟩
    rw [dispatchMonitor_unsent rfl rfl]
    exact ⟨calls, by rw [attempted.included]; rfl⟩
  · refine wp_bind _ _ |>.mpr ⟨trivial, fun _ _ => ?_⟩
    rw [dispatchMonitor_unsent rfl rfl]
    refine ⟨trivial, fun _ _ => ?_⟩
    rw [dispatchMonitor_unsent rfl rfl]
    exact ⟨calls, by rw [attempted.included]; rfl⟩
  · exact absurd rfl calm

def ReadsEras : Op T → Prop
  | .storageAtHead | .eraPruningState _ => True
  | _ => False

theorem getPruneableEraIndex_reads :
    (Monitor.issuing Resp ReadsEras).Permits (getPruneableEraIndex : Task T _) := by
  refine (ask_permitted fun _ => trivial).bind fun answer => (rpc_permitted answer).bind
    fun atBlock => ?_
  refine (ask_permitted fun _ => trivial).bind fun answer => ?_
  cases answer with
  | error error => exact fun _ _ => trivial
  | ok entries => exact (rpc_permitted entries).bind fun _ _ _ => trivial

theorem pruneForBlock_counted :
    wp (dispatchMonitor extrinsics) (pruneForBlock : Task T Unit)
      (fun _ _ after => Counted extrinsics log after) () log := by
  have ignored (op : Op T) (reads : ReadsEras op) :
      (dispatchMonitor extrinsics).Ignores log op := by
    refine ⟨trivial, fun answer => ?_⟩
    cases op <;> first | exact reads.elim | exact dispatchMonitor_unsent rfl rfl
  rw [pruneForBlock, wp_bind]
  refine wp_mono (wp_of_issuing (getPruneableEraIndex_reads.timeout Op.suspends () ()) ignored) ?_
  rintro (index | error | _) _ _ ⟨rfl, _⟩
  · rw [followedBy_ok]
    split
    · exact pruneOldestEra_counted _
    · exact Counted.refl
  · exact Counted.refl
  · exact Counted.refl

theorem lazyEraPruningTurn_counted (active : Bool) :
    wp (dispatchMonitor extrinsics) (lazyEraPruningTurn : Miner T Bool Unit)
      (fun _ _ after => Counted extrinsics log after) active log := by
  rw [lazyEraPruningTurn, wp_bind, wp_ask]
  refine ⟨trivial, fun message _ => ?_⟩
  rw [dispatchMonitor_unsent rfl rfl, followedBy_ok]
  split
  · exact Counted.refl
  · exact Counted.refl
  · exact Counted.refl
  · rw [wp_bind, wp_load, followedBy_ok]
    split
    · rw [wp_lift]
      exact pruneForBlock_counted
    · exact Counted.refl

theorem lazyEraPruningLoop_counted (turns : Nat) (active : Bool) :
    wp (dispatchMonitor extrinsics) (lazyEraPruningLoop turns : Miner T Bool Unit)
      (fun _ _ after => Counted extrinsics log after) active log := by
  induction turns generalizing active log with
  | zero => exact Counted.refl
  | succ turns ih =>
      refine wp_seq (lazyEraPruningTurn_counted active) ?_ (fun _ _ _ counted => counted)
        (fun _ _ counted => counted)
      intro _ later middle counted
      exact wp_mono (ih later) fun _ _ _ more => counted.trans more

/-- The three calls report success, and the two counters count it, for dispatched calls only
exactly when no call of the run is included in a block and fails there. -/
theorem success_means_dispatched_iff (extrinsics : Extrinsics) (env : MinerEnv T)
    (reports : Reports extrinsics env) (history : MinerTrace T) :
    (∀ call : Call,
      ((run env (call.task : Task T Unit) () history).outcome = .ok () →
        ∃ handle, (call.transaction, handle) ∈ sentCalls (run env call.task () history).trace ∧
          (extrinsics handle).isDispatched = true) ↔
        NoneFailed extrinsics (sentCalls (run env (call.task : Task T Unit) () history).trace)) ∧
    (∀ currentRound last cleaned,
      (run env (runClearOldRoundsCleanup currentRound) last history).outcome = .ok cleaned →
      (cleaned = dispatchedCalls extrinsics
          (sentCalls (run env (runClearOldRoundsCleanup currentRound) last history).trace) ↔
        NoneFailed extrinsics
          (sentCalls (run env (runClearOldRoundsCleanup currentRound) last history).trace))) ∧
    ∀ turns active,
      countedSuccesses (run env (lazyEraPruningLoop turns) active history).trace =
          dispatchedCalls extrinsics
            (sentCalls (run env (lazyEraPruningLoop turns) active history).trace) ↔
        NoneFailed extrinsics
          (sentCalls (run env (lazyEraPruningLoop turns) active history).trace) := by
  refine ⟨fun call => ?_, fun currentRound last cleaned finished => ?_, fun turns active => ?_⟩
  · obtain ⟨_, calls, logged, attempted⟩ := (wp_run env history
      (@Call.task_calls T extrinsics ⟨[], 0⟩ call) (reports.expected _ _ _)).2
    rw [dispatchMonitor_after, CallLog.mk.injEq, List.nil_append, List.nil_append] at logged
    rw [logged.1, ← attempted.dispatched_iff]
    cases (run env (call.task : Task T Unit) () history).outcome <;> simp [succeeded]
  · obtain ⟨calls, logged, counted⟩ := (wp_run env history
      (@runClearOldRoundsCleanup_calls T extrinsics ⟨[], 0⟩ currentRound last)
      (reports.expected _ _ _)).2
    simp only [dispatchMonitor_after, List.nil_append] at logged
    rw [logged, counted cleaned finished]
    exact included_eq_dispatched_iff calls
  · obtain ⟨calls, logged⟩ := (wp_run env history
      (@lazyEraPruningLoop_counted T extrinsics ⟨[], 0⟩ turns active) (reports.expected _ _ _)).2
    rw [dispatchMonitor_after, CallLog.mk.injEq, List.nil_append, List.nil_append, Nat.zero_add,
      Nat.zero_add] at logged
    rw [logged.1, logged.2]
    exact included_eq_dispatched_iff calls

def includingAnswer : (op : Op sampleConfig) → Resp op
  | .atCurrentBlock => .ok 50
  | .accountNonce => .ok 3
  | .createSigned _ _ => .ok ()
  | .submitAndWatch _ _ _ => .ok 0
  | .waitForFinalized _ => .ok 9
  | op => unavailable op

def includingNode : MinerEnv sampleConfig := ⟨fun _ => includingAnswer, fun _ _ => false⟩

theorem includingNode_reports (dispatched : Bool) :
    Reports (fun _ => .included 9 dispatched) includingNode := fun _ _ => rfl

theorem success_means_dispatched_iff_bail :
    ((run includingNode bail () []).outcome = .ok () →
      ∃ handle, (.bail, handle) ∈ sentCalls (run includingNode bail () []).trace ∧
        (ExtrinsicOutcome.included 9 true).isDispatched = true) ↔
      NoneFailed (fun _ => .included 9 true) (sentCalls (run includingNode bail () []).trace) :=
  (success_means_dispatched_iff _ _ (includingNode_reports true) []).1 .bail

/-- The extrinsic of a bail is included in a finalized block, where its dispatch fails. -/
theorem failed_bail_returns_ok :
    let extrinsics : Extrinsics := fun _ => .included 9 false
    Reports extrinsics includingNode ∧ (run includingNode bail () []).outcome = .ok () ∧
      sentCalls (run includingNode bail () []).trace = [(.bail, 0)] ∧
      (extrinsics 0).isDispatched = false := by
  intro extrinsics
  exact ⟨includingNode_reports false, rfl, rfl, rfl⟩

end LeanStakingMiner
