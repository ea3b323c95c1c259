import StakingMiner.BlockLogic
import StakingMiner.RisingRounds
import StakingMiner.SubmissionProtocol

/-!
One solution for a round. The miner renews its cached solution only for a block of another round
or after its caches were cleared, and the listener sends it no block of a round that is over, so
the solution it submits for a round, or resumes with the missing pages, is the same one for as
long as the round lasts.
-/

namespace LeanStakingMiner

open LeanProgram

variable {T : MinerConfig} {config : ProcessConfig}

/-- What ties the miner to a solution of a round: a submission of it, or a page that is sent while
a block of the round is processed. -/
inductive Commitment (T : MinerConfig) where
  | submission (solution : PagedRawSolution T)
  | page (round index : Nat) (content : Option T.Solution)

namespace Commitment

def round : Commitment T → Nat
  | submission solution => solution.round
  | page round _ _ => round

def IsOf (solution : PagedRawSolution T) : Commitment T → Prop
  | submission submitted => submitted = solution
  | page round index content => solution.round = round ∧
      ∃ own, solution.solutionPages[index]? = some own ∧ content = some own

theorem IsOf.round_eq {solution : PagedRawSolution T} {made : Commitment T}
    (isOf : made.IsOf solution) : solution.round = made.round := by
  cases made with
  | submission submitted => exact congrArg PagedRawSolution.round isOf.symm
  | page => exact isOf.1

end Commitment

def MinerMessage.round : MinerMessage → Option Nat
  | .processBlock details => some details.round
  | .clearSnapshots => none

/-- The round of the block that the miner has received last. -/
def servedRound (received : List MinerMessage) : Option Nat :=
  received.getLast?.bind MinerMessage.round

def commitment (served : Option Nat) : Op T → Option (Commitment T)
  | .submitCalled solution => some (.submission solution)
  | .submitAndWatch (.submitPage page content) _ _ => served.map (.page · page content)
  | _ => none

structure MinerView (T : MinerConfig) where
  received : List MinerMessage
  commitments : List (Commitment T)

def MinerView.floor (view : MinerView T) : Nat := floorOf view.received

def MinerView.served (view : MinerView T) : Option Nat := servedRound view.received

def reuseMonitor : Monitor (Op T) Resp (MinerView T) where
  expects view op answer := ∀ details,
    receivedByMiner ⟨op, answer⟩ = some (.processBlock details) → view.floor ≤ details.round
  allows view op :=
    (∀ input, op = .mineSolution input →
      ∀ earlier ∈ view.commitments, earlier.round ≠ input.round) ∧
    ∀ now ∈ commitment view.served op, ∃ solution, now.IsOf solution ∧
      ∀ earlier ∈ view.commitments, earlier.round = now.round → earlier.IsOf solution
  next view op answer :=
    ⟨view.received ++ (receivedByMiner ⟨op, answer⟩).toList,
      view.commitments ++ (commitment view.served op).toList⟩

def Cached (round : Nat) (state : MinerState T) (view : MinerView T) : Prop :=
  ∀ earlier ∈ view.commitments, earlier.round ≤ round ∧
    (earlier.round = round → ∃ solution, state.cachedSolution = some solution ∧
      earlier.IsOf solution)

structure Serving (round : Nat) (state : MinerState T) (view : MinerView T) : Prop where
  reached : round ≤ view.floor
  current : view.served = some round
  cached : Cached round state view

structure Mining (round : Nat) (view : MinerView T) : Prop where
  reached : round ≤ view.floor
  current : view.served = some round
  unserved : ∀ earlier ∈ view.commitments, earlier.round < round

section Operations

variable {op : Op T}

theorem receivedByMiner_none (answer : Resp op) (other : op.kind ≠ .receive) :
    receivedByMiner ⟨op, answer⟩ = none := by
  cases op <;> first | rfl | exact absurd rfl other

theorem commitment_none (served : Option Nat) (other : op.kind ∉ [.submitCall, .page]) :
    commitment served op = none := by
  cases op with
  | submitCalled => simp [Op.kind] at other
  | submitAndWatch transaction nonce mortality =>
      cases transaction <;> first | rfl | simp [Op.kind, Transaction.kind] at other
  | _ => rfl

theorem commitment_carried {round : Nat} {now : Commitment T} {solution : PagedRawSolution T}
    (made : commitment (some round) op = some now) (uncalled : op.kind ≠ .submitCall)
    (carried : Carries solution.solutionPages op) (sameRound : solution.round = round) :
    now.round = round ∧ now.IsOf solution := by
  cases op with
  | submitCalled => exact absurd rfl uncalled
  | submitAndWatch transaction nonce mortality =>
      cases transaction with
      | submitPage page content =>
          cases made
          exact ⟨rfl, sameRound, carried⟩
      | _ => cases made
  | _ => cases made

theorem next_view_of_other (view : MinerView T) (answer : Resp op) (other : op.kind ≠ .receive) :
    reuseMonitor.next view op answer =
      ⟨view.received, view.commitments ++ (commitment view.served op).toList⟩ := by
  simp [reuseMonitor, receivedByMiner_none answer other]

end Operations

section Miner

variable {α : Type} {details : BlockDetails} {state : MinerState T} {view : MinerView T}
variable {round : Nat}

theorem Cached.later (cached : Cached round state view) {later : Nat} (grown : round ≤ later) :
    Cached later state view := by
  intro earlier member
  obtain ⟨bound, held⟩ := cached earlier member
  refine ⟨Nat.le_trans bound grown, fun same => held ?_⟩
  omega

theorem Serving.step (serving : Serving round state view) {op : Op T}
    (other : op.kind ∉ [.solver, .receive])
    (own : ∀ now ∈ commitment (some round) op, now.round = round ∧
      ∃ solution, state.cachedSolution = some solution ∧ now.IsOf solution) :
    reuseMonitor.allows view op ∧
      ∀ answer, Serving round state (reuseMonitor.next view op answer) := by
  constructor
  · refine ⟨?_, fun now made => ?_⟩
    · rintro input rfl
      simp [Op.kind] at other
    · rw [serving.current] at made
      obtain ⟨sameRound, solution, held, isOf⟩ := own now made
      refine ⟨solution, isOf, fun earlier member same => ?_⟩
      obtain ⟨kept, found, of⟩ := (serving.cached earlier member).2 (same.trans sameRound)
      cases held.symm.trans found
      exact of
  · intro answer
    rw [next_view_of_other view answer fun same => other (by simp [same]), serving.current]
    refine ⟨serving.reached, serving.current, fun made member => ?_⟩
    rcases List.mem_append.mp member with earlier | now
    · exact serving.cached made earlier
    · obtain ⟨sameRound, held⟩ := own made (Option.mem_toList.mp now)
      exact ⟨Nat.le_of_eq sameRound, fun _ => held⟩

theorem Issues.serving {kinds : List OpKind} {task : Task T α} {post : Outcome Error α → Prop}
    (issues : Issues kinds task post)
    (silent : ∀ kind ∈ kinds, kind ∉ [.solver, .receive, .submitCall, .page])
    (serving : Serving round state view) :
    wp reuseMonitor task (fun outcome _ after => Serving round state after ∧ post outcome) ()
      view := by
  refine wp_keeping_of_issuing issues (fun view op member serving => ?_) serving
  have apart := silent _ member
  simp only [List.mem_cons, List.not_mem_nil, or_false, not_or] at apart
  refine serving.step (by simp [apart]) ?_
  have silent : commitment (some round) op = none := commitment_none _ (by simp [apart])
  simp [silent]

theorem Issues.serving_pages {kinds : List OpKind} {task : Task T α}
    {solution : PagedRawSolution T} {post : Outcome Error α → Prop}
    (issues : Issues kinds task post)
    (silent : ∀ kind ∈ kinds, kind ∉ [.solver, .receive, .submitCall])
    (carries : (contentMonitor solution.solutionPages).Permits task)
    (cached : state.cachedSolution = some solution) (sameRound : solution.round = round)
    (serving : Serving round state view) :
    wp reuseMonitor task (fun outcome _ after => Serving round state after ∧ post outcome) ()
      view := by
  refine wp_mono (wp_keeping_of_issuing (wp_issuing_and issues (carries () ()))
    (fun view op member serving => ?_) serving) fun _ _ _ ends => ⟨ends.1, ends.2.1⟩
  obtain ⟨listed, carried⟩ := member
  have apart := silent _ listed
  simp only [List.mem_cons, List.not_mem_nil, or_false, not_or] at apart
  refine serving.step (by simp [apart]) fun now made => ?_
  obtain ⟨same, isOf⟩ := commitment_carried made apart.2.2 carried sameRound
  exact ⟨same, solution, cached, isOf⟩

theorem serving_step {task : Task T α} {post : Outcome Error α → Prop}
    {rest : α → Miner T (MinerState T) Unit}
    (first : wp reuseMonitor task (fun outcome _ after => Serving round state after ∧ post outcome)
      () view)
    (next : ∀ value after, Serving round state after → wp reuseMonitor (rest value)
      (fun _ store view => Serving round store view) state after) :
    wp reuseMonitor (task.lift >>= rest) (fun _ store view => Serving round store view)
      state view := by
  rw [wp_bind, wp_lift]
  refine wp_mono first ?_
  rintro (value | error | _) _ after ⟨serving, _⟩
  · exact next value after serving
  · exact serving
  · exact serving

theorem bailIfSigned_carries (solutionPages : List T.Solution) :
    (contentMonitor solutionPages).Permits (bailIfSigned : Task T Flow) := by
  have asked : (contentMonitor solutionPages).Permits (signedPhase : Task T Bool) :=
    ((readPhase_issues .validation).carries (by simp)).bind fun _ _ _ => trivial
  refine (withTimeout_permitted asked).bind fun stillSigned => ?_
  split
  · exact (withTimeout_permitted (bail_issues.carries (by simp))).bind fun _ _ _ => trivial
  · exact fun _ _ => trivial

theorem resumeSubmission_carries (config : ProcessConfig) (round : Nat)
    (submission : IncompleteSubmission) (solution : PagedRawSolution T) :
    (contentMonitor solution.solutionPages).Permits
      (resumeSubmission config round submission solution) := by
  intro _ _
  refine wp_seq (missingSolutions_leads solution.solutionPages _) ?_ (fun _ _ _ _ => trivial)
    fun _ _ _ => trivial
  intro entries _ _ taken
  obtain ⟨_, owned, _⟩ := taken entries rfl
  have sent : (contentMonitor solution.solutionPages).Permits (do
      let _ ← innerSubmitPages entries config.chunkSize round config.minSignedPhaseBlocks
      pure ()) :=
    (innerSubmitPages_carries config.chunkSize round _ owned).bind fun _ _ _ => trivial
  have counted : (contentMonitor solution.solutionPages).Permits
      (ask (.metric .submissionSuccess) : Task T Unit) := ask_permitted fun _ => trivial
  exact (withTimeout_permitted sent).bind (fun _ => counted) _ _

theorem handleExisting_carries (config : ProcessConfig) (round : Nat)
    (solution : PagedRawSolution T) (existing : CurrentSubmission) :
    (contentMonitor solution.solutionPages).Permits
      (handleExisting config round solution existing) := by
  cases existing with
  | done score =>
      simp only [handleExisting]
      split
      · exact bailIfSigned_carries _
      · exact fun _ _ => trivial
  | incomplete submission =>
      simp only [handleExisting]
      split
      · exact (resumeSubmission_carries config round submission solution).bind
          fun _ _ _ => trivial
      · exact bailIfSigned_carries _
  | notStarted => exact fun _ _ => trivial

theorem submitSolution_serves {solution : PagedRawSolution T}
    (cached : state.cachedSolution = some solution) (sameRound : solution.round = details.round)
    (serving : Serving details.round state view) :
    wp reuseMonitor (submitSolution config details solution)
      (fun _ store view => Serving details.round store view) state view := by
  refine serving_step ((fetchMinimumScore_issues _).serving (by decide) serving)
    fun floor view serving => ?_
  split
  · exact serving
  · exact serving
  · refine serving_step ((existingSubmission_issues _).serving (by decide) serving)
      fun existing view serving => ?_
    refine serving_step ((handleExisting_issues config details.round solution existing.2)
      |>.serving_pages (by decide) (handleExisting_carries _ _ _ _) cached sameRound serving)
      fun flow view serving => ?_
    cases flow with
    | finished => exact serving
    | proceed =>
        refine serving_step ((checkCompetitive_issues _ _ _ _).serving (by decide) serving)
          fun competitive view serving => ?_
        split
        · have own (now : Commitment T)
              (made : now ∈ commitment (some details.round) (.submitCalled solution : Op T)) :
              now.round = details.round ∧
                ∃ solution, state.cachedSolution = some solution ∧ now.IsOf solution := by
            cases made
            exact ⟨sameRound, solution, cached, rfl⟩
          obtain ⟨allowed, submitted⟩ := serving.step (by simp [Op.kind]) own
          refine ⟨allowed, fun answer _ => ?_⟩
          change wp reuseMonitor (withTimeout _ _).lift _ _ _
          rw [wp_lift]
          have issues := (submit_issues solution config.chunkSize details.round
            config.minSignedPhaseBlocks).timed (.submit 1800)
          have carries := submit_carries solution config.chunkSize details.round
            config.minSignedPhaseBlocks
          exact wp_mono (issues.serving_pages (by decide) (withTimeout_permitted carries) cached
            sameRound (submitted answer)) fun _ _ _ ends => ends.1
        · rw [skipNotCompetitive, wp_bind, wp_load, followedBy_ok]
          split
          · have skipped : Serving details.round
                { state with lastOutcompetedRound := some details.round } view :=
              ⟨serving.reached, serving.current, serving.cached⟩
            have own (now : Commitment T) (made : now ∈ commitment (some details.round)
                (.metric .submissionSkippedNotCompetitive : Op T)) :
                now.round = details.round ∧
                  ∃ solution, state.cachedSolution = some solution ∧ now.IsOf solution := by
              cases made
            obtain ⟨allowed, later⟩ := skipped.step (by simp [Op.kind]) own
            exact ⟨allowed, fun answer _ => later answer⟩
          · exact serving

theorem Mining.serving (mining : Mining round view) (state : MinerState T) :
    Serving round state view := by
  refine ⟨mining.reached, mining.current, fun made member => ?_⟩
  have earlier := mining.unserved made member
  exact ⟨Nat.le_of_lt earlier, fun same => absurd same (Nat.ne_of_lt earlier)⟩

theorem Serving.mining (serving : Serving round state view)
    (stale : state.cachedSolution.map PagedRawSolution.round ≠ some round) :
    Mining round view := by
  refine ⟨serving.reached, serving.current, fun made member => ?_⟩
  obtain ⟨bound, held⟩ := serving.cached made member
  refine Nat.lt_of_le_of_ne bound fun same => stale ?_
  obtain ⟨solution, found, isOf⟩ := held same
  rw [found, Option.map_some, isOf.round_eq, same]

theorem Mining.step (mining : Mining round view) {op : Op T}
    (other : op.kind ∉ [.receive, .submitCall, .page])
    (inRound : ∀ input, op = .mineSolution input → input.round = round) :
    reuseMonitor.allows view op ∧ ∀ answer, Mining round (reuseMonitor.next view op answer) := by
  simp only [List.mem_cons, List.not_mem_nil, or_false, not_or] at other
  have silent : commitment view.served op = none :=
    commitment_none view.served (by simp [other])
  constructor
  · refine ⟨fun input mines earlier member => ?_, by simp [silent]⟩
    rw [inRound input mines]
    exact Nat.ne_of_lt (mining.unserved earlier member)
  · intro answer
    rw [next_view_of_other view answer other.1, silent]
    exact ⟨mining.reached, mining.current, by simpa using mining.unserved⟩

theorem mining_ask {op : Op T} {rest : Resp op → Task T α} {post : α → Unit → MinerView T → Prop}
    (mining : Mining round view) (other : op.kind ∉ [.receive, .submitCall, .page])
    (inRound : ∀ input, op = .mineSolution input → input.round = round)
    (next : ∀ answer after, Mining round after →
      Stays reuseMonitor (fun _ => Mining round) (rest answer) post () after) :
    Stays reuseMonitor (fun _ => Mining round) (ask op >>= rest) post () view := by
  obtain ⟨allowed, later⟩ := mining.step other inRound
  exact ⟨mining, allowed, fun answer _ => ⟨later answer, next answer _ (later answer)⟩⟩

theorem mineSolution_mining (target : T.TargetPage) (voters : List T.VoterPage)
    (nPages desiredTargets : Nat) (doReduce : Bool) (mining : Mining round view) :
    Stays reuseMonitor (fun _ => Mining round)
      (mineSolution target voters nPages round desiredTargets doReduce) (fun _ _ _ => True) ()
      view := by
  refine mining_ask mining (by simp [Op.kind]) (by rintro input ⟨⟩) fun bound view mining => ?_
  refine mining_ask mining (by simp [Op.kind]) (by rintro input ⟨⟩; rfl) fun mined view mining => ?_
  cases mined with
  | mined solution => exact ⟨mining, trivial⟩
  | minerError | infeasible | joinError => exact mining

theorem mineAndValidate_mining (doReduce : Bool) (snapshot : Snapshot T)
    (mining : Mining details.round view) :
    wp reuseMonitor (mineAndValidate details doReduce) (fun outcome _ after =>
      Mining details.round after ∧ ∀ mined, outcome = .ok mined → mined.round = details.round)
      snapshot view := by
  have unrelated {kinds : List OpKind}
      (silent : ∀ kind ∈ kinds, kind ∉ [.solver, .receive, .submitCall, .page])
      (view : MinerView T) (op : Op T) (member : op.kind ∈ kinds)
      (mining : Mining details.round view) :
      reuseMonitor.allows view op ∧
        ∀ answer, Mining details.round (reuseMonitor.next view op answer) := by
    have apart := silent _ member
    simp only [List.mem_cons, List.not_mem_nil, or_false, not_or] at apart
    refine mining.step (by simp [apart]) ?_
    rintro input rfl
    exact absurd rfl apart.1
  rw [mineAndValidate, wp_bind]
  refine wp_mono (wp_keeping_of_issuing (fetchMissingSnapshots_issues details.atBlock
    details.round snapshot) (unrelated (by decide)) mining) ?_
  rintro (_ | error | _) store view ⟨mining, _⟩
  · rw [followedBy_ok, wp_bind, wp_load, followedBy_ok]
    split
    · exact ⟨mining, by rintro _ ⟨⟩⟩
    · rename_i target voters _
      rw [wp_bind, wp_lift, withTimeout, wp_bind, tokioTimeout]
      refine wp_mono ((mineSolution_mining target voters details.nPages details.desiredTargets
        doReduce mining).timeout _) ?_
      rintro ((_ | error | mined) | error | _) _ view ⟨mining, _⟩
      · exact ⟨mining, by rintro _ ⟨⟩⟩
      · exact ⟨mining, by rintro _ ⟨⟩⟩
      · change wp reuseMonitor (validateSolution mined _ _).lift _ _ _
        rw [wp_lift]
        refine wp_mono (wp_keeping_of_issuing (validateSolution_issues mined details.round
          details.desiredTargets) (unrelated (by decide)) mining) ?_
        rintro outcome _ view ⟨mining, _, checked⟩
        refine ⟨mining, fun accepted returned => ?_⟩
        obtain ⟨rfl, sameRound⟩ := checked accepted returned
        exact sameRound
      · exact ⟨mining, by rintro _ ⟨⟩⟩
      · exact ⟨mining, by rintro _ ⟨⟩⟩
  · exact ⟨mining, by rintro _ ⟨⟩⟩
  · exact ⟨mining, by rintro _ ⟨⟩⟩

theorem refreshCache_serves (doReduce : Bool) (serving : Serving details.round state view) :
    wp reuseMonitor (refreshCache details doReduce) (fun outcome store after =>
      Serving details.round store after ∧ (outcome = .ok () → ∃ solution,
        store.cachedSolution = some solution ∧ solution.round = details.round)) state view := by
  rw [refreshCache, wp_bind, wp_load, followedBy_ok]
  split
  · rename_i stale
    rw [wp_bind, wp_zoom]
    refine wp_mono (mineAndValidate_mining doReduce _ (serving.mining stale)) ?_
    rintro (solution | error | _) snapshot after ⟨mining, mined⟩
    · exact ⟨mining.serving _, fun _ => ⟨solution, rfl, mined solution rfl⟩⟩
    · exact ⟨mining.serving _, by rintro ⟨⟩⟩
    · exact ⟨mining.serving _, by rintro ⟨⟩⟩
  · rename_i cached
    obtain ⟨solution, held, sameRound⟩ := Option.map_eq_some_iff.mp (not_not.mp cached)
    exact ⟨serving, fun _ => ⟨solution, held, sameRound⟩⟩

theorem mineAndSubmit_serves (serving : Serving details.round state view) :
    wp reuseMonitor (mineAndSubmit config details)
      (fun _ store after => Serving details.round store after) state view := by
  rw [mineAndSubmit, wp_bind]
  refine wp_mono (refreshCache_serves config.doReduce serving) ?_
  rintro (_ | error | _) store view ⟨serving, refreshed⟩
  · obtain ⟨solution, cached, sameRound⟩ := refreshed rfl
    rw [followedBy_ok, wp_bind, wp_load, followedBy_ok]
    simp only [cached]
    split
    · rw [wp_lift]
      exact wp_mono ((executeShadyBehavior_issues details.phase).serving (by decide) serving)
        fun _ _ _ ends => ends.1
    · exact submitSolution_serves cached sameRound serving
  · exact serving
  · exact serving

theorem processBlock_serves (serving : Serving details.round state view) :
    wp reuseMonitor (processBlock config details)
      (fun _ store after => Serving details.round store after) state view := by
  refine serving_step ((fetchBalance_issues _).serving (by decide) serving)
    fun balance view serving => ?_
  cases balance with
  | finished => exact serving
  | proceed =>
      have ignored (op : Op T) (member : op.kind ∈ [OpKind.snapshot]) :
          reuseMonitor.Ignores view op := by
        have snapshot := List.mem_singleton.mp member
        have silent : commitment view.served op = none :=
          commitment_none view.served (by simp [snapshot])
        constructor
        · refine ⟨?_, by simp [silent]⟩
          rintro input rfl
          cases snapshot
        · intro answer
          rw [next_view_of_other view answer (by simp [snapshot]), silent]
          simp
      dsimp only
      rw [wp_bind]
      refine wp_mono (wp_checkPhase config.minSignedPhaseBlocks details state ignored) ?_
      rintro (flow | error | _) _ after ⟨rfl, ⟨snapshot, rfl⟩, _⟩
      · have fetched : Serving details.round { state with snapshot } after :=
          ⟨serving.reached, serving.current, serving.cached⟩
        cases flow with
        | finished => exact fetched
        | proceed =>
            refine serving_step ((alreadySubmitted_issues _).serving (by decide) fetched)
              fun submitted view serving => ?_
            cases submitted with
            | true => exact serving
            | false => exact mineAndSubmit_serves serving
      · exact ⟨serving.reached, serving.current, serving.cached⟩
      · exact ⟨serving.reached, serving.current, serving.cached⟩

theorem reuseMonitor_received (view : MinerView T) (message : MinerMessage) :
    reuseMonitor.next view (.minerRecv : Op T) (some message) =
      ⟨view.received ++ [message], view.commitments⟩ := by
  simp [reuseMonitor, receivedByMiner, commitment]

theorem minerTurn_reuses (cached : Cached view.floor state view) :
    wp reuseMonitor (minerTurn config)
      (fun _ store after => Cached after.floor store after) state view := by
  rw [minerTurn, wp_bind, wp_ask]
  refine ⟨⟨by rintro input ⟨⟩, by simp [commitment]⟩, fun message expected => ?_⟩
  rw [followedBy_ok]
  rcases message with _ | details | _
  · simpa [Cached, MinerView.floor, reuseMonitor, receivedByMiner, commitment] using cached
  · have fits : view.floor ≤ details.round := expected details rfl
    rw [reuseMonitor_received]
    have begins : Serving details.round state
        ⟨view.received ++ [.processBlock details], view.commitments⟩ := by
      refine ⟨?_, by simp [MinerView.served, servedRound, MinerMessage.round], cached.later fits⟩
      rw [MinerView.floor, floorOf_append]
      exact Nat.le_max_right _ _
    dsimp only
    rw [wp_bind, wp_attempt]
    refine wp_mono (processBlock_serves begins) ?_
    rintro (_ | error | _) store after serving
    · exact serving.cached.later serving.reached
    · change wp reuseMonitor (if _ then _ else _) _ _ _
      split
      · exact serving.cached.later serving.reached
      · exact serving.cached.later serving.reached
    · exact serving.cached.later serving.reached
  · rw [reuseMonitor_received]
    intro made member
    have earlier : made.round < view.floor + 1 := Nat.lt_succ_of_le (cached made member).1
    have raised : (⟨view.received ++ [.clearSnapshots], view.commitments⟩ : MinerView T).floor =
        view.floor + 1 := floorOf_append _ _
    rw [raised]
    exact ⟨Nat.le_of_lt earlier, fun same => absurd same (Nat.ne_of_lt earlier)⟩

end Miner

section Runs

variable {state : MonitorState T config} {pages nonce : Nat}

theorem reuseMonitor_received_after (view : MinerView T) (trace : MinerTrace T) :
    (reuseMonitor.after view trace).received =
      view.received ++ trace.filterMap receivedByMiner := by
  induction trace generalizing view with
  | nil => simp
  | cons event rest ih =>
      rw [Monitor.after_cons, ih]
      cases found : receivedByMiner event <;> simp [reuseMonitor, found]

theorem commitments_subset_after (view : MinerView T) (trace : MinerTrace T) :
    view.commitments ⊆ (reuseMonitor.after view trace).commitments := by
  induction trace generalizing view with
  | nil => simp
  | cons event rest ih =>
      have kept : view.commitments ⊆ (reuseMonitor.next view event.1 event.2).commitments :=
        List.subset_append_left _ _
      rw [Monitor.after_cons]
      exact List.Subset.trans kept (ih _)

theorem committed {trace before after : MinerTrace T} {op : Op T} {answer : Resp op}
    {made : Commitment T} (split : trace = before ++ ⟨op, answer⟩ :: after)
    (makes : commitment (servedRound (before.filterMap receivedByMiner)) op = some made) :
    made ∈ (reuseMonitor.after ⟨[], []⟩ trace).commitments := by
  rw [split, Monitor.after_append, Monitor.after_cons]
  refine commitments_subset_after _ _ (List.mem_append_right _ ?_)
  rw [MinerView.served, reuseMonitor_received_after, List.nil_append, makes]
  simp

theorem miner_obeys_reuse
    (run : (monitor config).Runs RoundsAscend (monitorStart config pages nonce) state) :
    (monitor config).Obeys .miner reuseMonitor ⟨[], []⟩
      (fun store (view : MinerView T) => Cached view.floor store view) state := by
  have begins : Cached (T := T) 0 (MinerState.initial pages) ⟨[], []⟩ := by
    rintro made ⟨⟩
  refine run.obeys_expecting rfl ?_ ?_ ?_
  · intro store view cached
    exact wp_mono (minerTurn_reuses cached) fun _ _ _ after _ => after
  · intro earlier op answer reached _ given details received
    have inOrder : minerMessages.InOrder earlier := Process.Channel.inOrder_of_runs reached rfl rfl
    have waiting := (minerMessages.receives received given).2.1
    have rising := listener_sends_rising reached
    rw [inOrder, waiting] at rising
    rw [MinerView.floor, reuseMonitor_received_after]
    exact rising _ details [] rfl
  · exact wp_mono (minerTurn_reuses begins) fun _ _ _ after _ => after

def OneSolution (view : MinerView T) : Prop :=
  ∀ round, ∃ solution : PagedRawSolution T, solution.round = round ∧
    ∀ made ∈ view.commitments, made.round = round → made.IsOf solution

theorem reuseMonitor_keeps {view : MinerView T} {op : Op T} (answer : Resp op)
    (allowed : reuseMonitor.allows view op) (one : OneSolution view) :
    OneSolution (reuseMonitor.next view op answer) := by
  intro round
  change ∃ solution : PagedRawSolution T, solution.round = round ∧
    ∀ made ∈ view.commitments ++ (commitment view.served op).toList, made.round = round →
      made.IsOf solution
  cases makes : commitment view.served op with
  | none => simpa using one round
  | some now =>
      by_cases sameRound : now.round = round
      · obtain ⟨solution, isOf, agree⟩ := allowed.2 now makes
        refine ⟨solution, isOf.round_eq.trans sameRound, fun made member same => ?_⟩
        rcases List.mem_append.mp member with earlier | last
        · exact agree made earlier (same.trans sameRound.symm)
        · cases List.mem_singleton.mp last
          exact isOf
      · obtain ⟨solution, ofRound, agree⟩ := one round
        refine ⟨solution, ofRound, fun made member same => ?_⟩
        rcases List.mem_append.mp member with earlier | last
        · exact agree made earlier same
        · cases List.mem_singleton.mp last
          exact absurd same sameRound

/-- A transaction with the page is sent while a block of the round is processed. -/
def SendsPage (trace : MinerTrace T) (round page : Nat) (content : Option T.Solution) : Prop :=
  ∃ before after nonce mortality answer,
    trace = before ++ ⟨.submitAndWatch (.submitPage page content) nonce mortality, answer⟩ :: after ∧
      servedRound (before.filterMap receivedByMiner) = some round

theorem SendsPage.committed {trace : MinerTrace T} {round page : Nat}
    {content : Option T.Solution} (sends : SendsPage trace round page content) :
    .page round page content ∈ (reuseMonitor.after ⟨[], []⟩ trace).commitments := by
  obtain ⟨before, after, _, _, _, split, served⟩ := sends
  exact LeanStakingMiner.committed split (by rw [served]; rfl)

theorem submission_committed {trace : MinerTrace T} {solution : PagedRawSolution T}
    (member : ⟨.submitCalled solution, ()⟩ ∈ trace) :
    .submission solution ∈ (reuseMonitor.after ⟨[], []⟩ trace).commitments := by
  obtain ⟨before, after, split⟩ := List.append_of_mem member
  exact committed split rfl

/-- In every interleaving of the tasks, as long as the rounds of the finalized blocks do not fall,
there is one solution for a round: every solution that the miner submits for the round is this
one, every page that it sends for the round, at once or when it resumes a submission, is a page of
this one, and the solver is not called for the round after any of that. -/
theorem one_solution_for_a_round (config : ProcessConfig) (pages nonce : Nat)
    (state : MonitorState T config)
    (run : (monitor config).Runs RoundsAscend (monitorStart config pages nonce) state) :
    (∀ round, ∃ solution : PagedRawSolution T, solution.round = round ∧
      (∀ submitted : PagedRawSolution T, ⟨.submitCalled submitted, ()⟩ ∈ state.trace .miner →
        submitted.round = round → submitted = solution) ∧
      ∀ page content, SendsPage (state.trace .miner) round page content →
        ∃ own, solution.solutionPages[page]? = some own ∧ content = some own) ∧
    ∀ before after input mined,
      state.trace .miner = before ++ ⟨.mineSolution input, mined⟩ :: after →
        (∀ solution : PagedRawSolution T, ⟨.submitCalled solution, ()⟩ ∈ before →
          solution.round ≠ input.round) ∧
        ∀ page content, ¬SendsPage before input.round page content := by
  have accepts := (miner_obeys_reuse run).accepts
  constructor
  · intro round
    have begins : OneSolution (⟨[], []⟩ : MinerView T) :=
      fun round => ⟨⟨[], ⟨0, 0, 0⟩, round⟩, rfl, by simp⟩
    obtain ⟨solution, ofRound, agree⟩ :=
      accepts.keeps (fun _ _ => reuseMonitor_keeps) begins round
    refine ⟨solution, ofRound, fun submitted member same => ?_, fun page content sends => ?_⟩
    · exact agree _ (submission_committed member) same
    · exact (agree _ sends.committed rfl).2
  · intro before after input mined split
    rw [split] at accepts
    have unserved := accepts.allowed.1 input rfl
    exact ⟨fun solution member => unserved _ (submission_committed member),
      fun page content sends => unserved _ sends.committed rfl⟩

end Runs

def offersSigned (number : Nat) : (op : Op sampleConfig) → Resp op
  | .pages => 2
  | op => servesBlock ⟨number, number⟩ (.signed 20) 7 5 .exitOffPhase op

def minesBlock (number : Nat) : (op : Op sampleConfig) → Resp op
  | .minerRecv => some (.processBlock ⟨number, .signed 20, 2, 7, 2, number⟩)
  | .account _ => .ok (some 1)
  | .storageAtHead => .ok 51
  | .submissionMetadata _ _ | .minimumScore _ => .ok none
  | .voterSnapshotHash _ _ page | .targetSnapshotHash _ _ page => .ok (some (some page))
  | .voterSnapshot _ _ page | .targetSnapshot _ _ page => .ok (some (some page))
  | .pages => 2
  | .mineSolution _ => .mined ⟨[3, 4], ⟨5, 5, 5⟩, 7⟩
  | .sortedScores _ _ => .ok []
  | op => unavailable op

def resumesBlock (number : Nat) : (op : Op sampleConfig) → Resp op
  | .currentPhase _ _ => .ok (some (.signed 20))
  | .atCurrentBlock => .ok 51
  | .submissionMetadata _ _ => .ok (some ⟨⟨5, 5, 5⟩, [true, false]⟩)
  | .accountNonce => .ok 5
  | .submitAndWatch _ _ _ => .ok 0
  | .createSigned _ _ => .ok ()
  | op => minesBlock number op

def resumedLater : MonitorState sampleConfig staleConfig :=
  ((((monitorStart staleConfig 2 5).advances .listener (offersSigned 101) 30).advances .miner
    (minesBlock 101) 57).advances .listener (offersSigned 102) 28).advances .miner
      (resumesBlock 102) 45

set_option maxRecDepth 4000 in
theorem resumedLater_runs :
    (monitor staleConfig).Runs RoundsAscend (monitorStart staleConfig 2 5) resumedLater := by
  apply Process.Runs.play
  · apply Process.Runs.play
    · apply Process.Runs.play
      · apply Process.Runs.refl.play
        repeat refine ⟨by first | trivial | exact ⟨⟨rfl, trivial⟩, unread_ascends rfl⟩ |
          exact ⟨⟨rfl, trivial⟩, read_ascends [] rfl (by simp)⟩ |
          exact ⟨⟨rfl, rfl⟩, unread_ascends rfl⟩, ?_⟩
        trivial
      · repeat refine ⟨by first | trivial | exact ⟨⟨rfl, trivial⟩, unread_ascends rfl⟩ |
          exact ⟨⟨rfl, rfl⟩, unread_ascends rfl⟩, ?_⟩
        trivial
    · repeat refine ⟨by first | trivial | exact ⟨⟨rfl, trivial⟩, unread_ascends rfl⟩ |
        exact ⟨⟨rfl, trivial⟩, read_ascends [7] rfl (by simp)⟩ |
        exact ⟨⟨rfl, rfl⟩, unread_ascends rfl⟩, ?_⟩
      trivial
  · repeat refine ⟨by first | trivial | exact ⟨⟨rfl, trivial⟩, unread_ascends rfl⟩ |
      exact ⟨⟨rfl, rfl⟩, unread_ascends rfl⟩, ?_⟩
    trivial

set_option maxRecDepth 4000 in
theorem one_solution_for_a_round_resumed :
    ⟨.submitCalled ⟨[3, 4], ⟨5, 5, 5⟩, 7⟩, ()⟩ ∈ resumedLater.trace .miner ∧
      SendsPage (resumedLater.trace .miner) 7 1 (some 4) ∧
      ∃ solution : PagedRawSolution sampleConfig, solution.round = 7 ∧
        (∀ submitted : PagedRawSolution sampleConfig,
          ⟨.submitCalled submitted, ()⟩ ∈ resumedLater.trace .miner → submitted.round = 7 →
            submitted = solution) ∧
        ∀ page content, SendsPage (resumedLater.trace .miner) 7 page content →
          ∃ own, solution.solutionPages[page]? = some own ∧ content = some own := by
  have called : (resumedLater.trace .miner)[17]? =
      some ⟨.submitCalled ⟨[3, 4], ⟨5, 5, 5⟩, 7⟩, ()⟩ := rfl
  have sent : resumedLater.trace .miner = (resumedLater.trace .miner).take 34 ++
      ⟨.submitAndWatch (.submitPage 1 (some 4)) 5 (some 21), .ok 0⟩ ::
        (resumedLater.trace .miner).drop 35 := rfl
  exact ⟨List.mem_of_getElem? called, ⟨_, _, _, _, _, sent, rfl⟩,
    (one_solution_for_a_round staleConfig 2 5 resumedLater resumedLater_runs).1 7⟩

end LeanStakingMiner
