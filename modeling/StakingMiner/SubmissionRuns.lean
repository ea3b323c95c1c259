import StakingMiner.SubmissionProtocol

/-!
The transactions of whole runs of the miner task. A call of `process_block` sends nothing until
it submits its cached solution, and from there it follows the protocol of the pallet, so every
transaction of every run does.
-/

namespace LeanStakingMiner

open LeanProgram

variable {T : MinerConfig} {config : ProcessConfig} {details : BlockDetails}
variable {solution : PagedRawSolution T} {view : CallView} {α : Type}

def Unsent (trace : MinerTrace T) : Prop := ∀ event ∈ trace, event.1.kind ∉ .events :: sendingKinds

theorem Unsent.append {first second : MinerTrace T} (unsent : Unsent first)
    (later : Unsent second) : Unsent (first ++ second) := by
  intro event member
  rcases List.mem_append.mp member with earlier | last
  · exact unsent event earlier
  · exact later event last

theorem CallView.next_idle {round : Nat} {op : Op T} (answer : Resp op)
    (other : op.kind ∉ .events :: sendingKinds) (idle : view.awaited = .nothing) :
    (view.next round op answer).awaited = .nothing ∧
      (view.next round op answer).stored = view.stored := by
  unfold CallView.next
  split
  · exact ⟨idle, rfl⟩
  · split
    · exact ⟨idle, rfl⟩
    · exact ⟨idle, rfl⟩
  · simp [Op.kind, Transaction.kind, sendingKinds] at other
  · simp [Op.kind, Transaction.kind, sendingKinds] at other
  · simp [CallView.finalized, idle]
  · simp [Op.kind] at other
  · simp [Op.kind] at other
  · exact ⟨idle, rfl⟩

theorem Unsent.idle {round : Nat} {trace : MinerTrace T} (unsent : Unsent trace) :
    (CallView.after round trace).awaited = .nothing ∧
      (CallView.after round trace).stored = ∅ := by
  suffices ∀ view : CallView, view.awaited = .nothing ∧ view.stored = ∅ →
      (trace.foldl (fun view event => view.next round event.1 event.2) view).awaited = .nothing ∧
        (trace.foldl (fun view event => view.next round event.1 event.2) view).stored = ∅ from
    this _ ⟨rfl, rfl⟩
  induction trace with
  | nil => exact fun _ idle => idle
  | cons event rest ih =>
      rintro view ⟨idle, fresh⟩
      obtain ⟨still, same⟩ := CallView.next_idle event.2 (unsent event (by simp)) idle
      exact ih (fun later member => unsent later (by simp [member])) _ ⟨still, same.trans fresh⟩

def Conforms (config : ProcessConfig) (details : BlockDetails) (state : MinerState T)
    (trace : MinerTrace T) : Prop :=
  Unsent trace ∨ ∃ solution, state.cachedSolution = some solution ∧
    solution.round = details.round ∧
    (signedMonitor config details solution).Accepts .initial trace

section Calls

variable {state : MinerState T} {trace : MinerTrace T}

theorem mineAndValidate_leads (doReduce : Bool) (snapshot : Snapshot T) :
    Leads (kindMonitor miningKinds) (mineAndValidate details doReduce)
      (fun mined _ _ => mined.round = details.round) snapshot () := by
  have kept {kinds : List OpKind} (subset : kinds ⊆ miningKinds) (op : Op T)
      (member : op.kind ∈ kinds) : (kindMonitor miningKinds).Ignores () op :=
    ⟨subset member, fun _ => rfl⟩
  have fetched : Leads (kindMonitor miningKinds)
      (fetchMissingSnapshots details.atBlock details.round : Fetch T Unit) (fun _ _ _ => True)
      snapshot () :=
    wp_mono (wp_of_issuing (fetchMissingSnapshots_issues details.atBlock details.round snapshot)
      (kept (by simp [miningKinds]))) fun _ _ _ _ _ _ => trivial
  refine fetched.bind fun _ store _ _ => ?_
  rw [Leads, wp_bind, wp_load, followedBy_ok]
  split
  · exact leads_panic
  · refine (((mineSolution_issues _ _ _ _ _ doReduce).timed _).leads
      (kept (by simp [miningKinds]))).liftBind fun mined _ _ => ?_
    refine Leads.lift (((validateSolution_issues mined details.round details.desiredTargets).leads
      (kept (by simp [miningKinds]))).mono ?_)
    rintro accepted _ _ ⟨_, _, checked⟩
    obtain ⟨rfl, sameRound⟩ := checked accepted rfl
    exact sameRound

theorem refreshCache_leads (doReduce : Bool) (state : MinerState T) :
    Leads (kindMonitor miningKinds) (refreshCache details doReduce)
      (fun _ store _ => ∃ solution, store.cachedSolution = some solution ∧
        solution.round = details.round) state () := by
  rw [Leads, refreshCache, wp_bind, wp_load, followedBy_ok]
  split
  · have mined : Leads (kindMonitor miningKinds)
        ((mineAndValidate details doReduce).zoom MinerState.snapshotLens)
        (fun solution _ _ => solution.round = details.round) state () :=
      Leads.zoom (mineAndValidate_leads doReduce _)
    refine mined.bind fun solution store _ sameRound => ?_
    exact fun _ _ => ⟨solution, rfl, sameRound⟩
  · rename_i cached
    obtain ⟨solution, held, sameRound⟩ := Option.map_eq_some_iff.mp (not_not.mp cached)
    exact fun _ _ => ⟨solution, held, sameRound⟩

theorem observed_unsent {α σ : Type} {kinds : List OpKind} {program : Miner T σ α} {store : σ}
    {post : Outcome Error α → σ → Prop}
    (issues : wp (kindMonitor kinds) program (fun outcome store _ => post outcome store) store ())
    (silent : ∀ kind ∈ kinds, kind ∉ .events :: sendingKinds) (unsent : Unsent trace) :
    wp (Monitor.observing (Op T) Resp) program
      (fun outcome store after => post outcome store ∧ Unsent after) store trace := by
  refine wp_mono (wp_tracing_of_issuing issues fun _ _ _ => trivial) ?_
  rintro outcome store _ ⟨ends, passed, rfl, listed⟩
  exact ⟨ends, unsent.append fun event member => silent _ (listed event member)⟩

theorem submitSolution_conforms (unsent : Unsent trace)
    (cached : state.cachedSolution = some solution)
    (sameRound : solution.round = details.round) :
    wp (Monitor.observing (Op T) Resp) (submitSolution config details solution)
      (fun _ store after => Conforms config details store after) state trace := by
  have leads : Leads (signedMonitor config details solution) (submitSolution config details solution)
      (fun _ _ _ => True) state (CallView.after details.round trace) :=
    submitSolution_leads unsent.idle.1 unsent.idle.2 state
  have sends := wp_and_of_issuing (submitSolution_issues config details solution state) leads
  refine wp_mono (wp_observing (fun _ _ _ => trivial) sends) ?_
  rintro outcome store _ ⟨passed, rfl, accepts, ⟨_, same⟩, _⟩
  refine Or.inr ⟨solution, same.trans cached, sameRound, ?_⟩
  refine (Monitor.accepts_append _ _ _).mpr ⟨?_, accepts⟩
  refine Monitor.accepts_of_free fun event member _ => callMonitor_free fun sent => ?_
  exact unsent event member (List.mem_cons_of_mem _ sent)

theorem mineAndSubmit_conforms (honest : config.shady = false) (unsent : Unsent trace) :
    wp (Monitor.observing (Op T) Resp) (mineAndSubmit config details)
      (fun _ store after => Conforms config details store after) state trace := by
  have refreshed : Leads (kindMonitor miningKinds) (refreshCache details config.doReduce) _
      state () :=
    refreshCache_leads config.doReduce state
  rw [mineAndSubmit, wp_bind]
  refine wp_mono (observed_unsent refreshed (by simp [miningKinds, sendingKinds]) unsent) ?_
  rintro (_ | error | _) store after ⟨ends, silent⟩
  · obtain ⟨solution, cached, sameRound⟩ := ends () rfl
    rw [followedBy_ok, wp_bind, wp_load, followedBy_ok]
    simp only [cached, honest]
    exact submitSolution_conforms silent cached sameRound
  · exact Or.inl silent
  · exact Or.inl silent

theorem processSignedBlock_conforms (honest : config.shady = false) (unsent : Unsent trace) :
    wp (Monitor.observing (Op T) Resp) (processSignedBlock config details)
      (fun _ store after => Conforms config details store after) state trace := by
  rw [processSignedBlock, wp_bind, wp_lift]
  refine wp_mono (observed_unsent (alreadySubmitted_issues details) (by simp [sendingKinds])
    unsent) ?_
  rintro (submitted | error | _) _ after ⟨_, silent⟩
  · cases submitted with
    | true => exact Or.inl silent
    | false => exact mineAndSubmit_conforms honest silent
  · exact Or.inl silent
  · exact Or.inl silent

theorem processBlock_conforms (honest : config.shady = false) :
    wp (Monitor.observing (Op T) Resp) (processBlock config details)
      (fun _ store after => Conforms config details store after) state [] := by
  have begins : Unsent ([] : MinerTrace T) := by simp [Unsent]
  rw [processBlock, wp_bind, wp_lift]
  refine wp_mono (observed_unsent (fetchBalance_issues details.atBlock) (by simp [sendingKinds])
    begins) ?_
  rintro (balance | error | _) _ trace ⟨_, unsent⟩
  · cases balance with
    | finished => exact Or.inl unsent
    | proceed =>
        have kept (op : Op T) (member : op.kind ∈ [OpKind.snapshot]) :
            (kindMonitor [.snapshot]).Ignores () op := ⟨member, fun _ => rfl⟩
        have checked := wp_mono (wp_checkPhase config.minSignedPhaseBlocks details state kept)
          fun _ _ _ _ => trivial
        rw [followedBy_ok, wp_bind]
        refine wp_mono (observed_unsent checked (by simp [sendingKinds]) unsent) ?_
        rintro (flow | error | _) store after ⟨_, silent⟩
        · cases flow with
          | finished => exact Or.inl silent
          | proceed => exact processSignedBlock_conforms honest silent
        · exact Or.inl silent
        · exact Or.inl silent
  · exact Or.inl unsent
  · exact Or.inl unsent

end Calls

section Runs

variable {env : MinerEnv T} {pages : Nat} {state : MinerState T} {history : MinerTrace T}
variable {blocks : List (ProcessedBlock T)} {block : ProcessedBlock T}

theorem MinerRun.conforms (honest : config.shady = false)
    (reached : MinerRun config env pages state history blocks) (member : block ∈ blocks) :
    Conforms config block.details block.result.store block.result.trace := by
  rw [reached.handled block member]
  exact run_observed env _ (processBlock_conforms honest)

theorem MinerRun.sent (honest : config.shady = false)
    (reached : MinerRun config env pages state history blocks) (member : block ∈ blocks)
    {before after : MinerTrace T} {transaction : Transaction T} {nonce : Nat}
    {mortality : Option Nat} {answer : Read TxHandle}
    (sent : block.result.trace =
      before ++ ⟨.submitAndWatch transaction nonce mortality, answer⟩ :: after) :
    ∃ solution, block.result.store.cachedSolution = some solution ∧
      solution.round = block.details.round ∧
      Fits config block.details solution (CallView.after block.details.round before) transaction ∧
      Timely config (CallView.after block.details.round before).phase transaction mortality := by
  rcases reached.conforms honest member with unsent | ⟨solution, cached, sameRound, accepts⟩
  · have silent := unsent ⟨.submitAndWatch transaction nonce mortality, answer⟩ (by simp [sent])
    cases transaction <;> simp [Op.kind, Transaction.kind, sendingKinds] at silent
  · rw [sent] at accepts
    exact ⟨solution, cached, sameRound, accepts.allowed _ _ _ rfl⟩

end Runs

/-- In every run of the miner task, each transaction of a block fits what that call had seen of
the account's submission. It registers the cached solution where it had read no submission, or
after a bail of the submission it had read was finalised. It adds pages of that solution which
neither the submission of its score nor the page's own transaction showed as stored, and it bails
a submission that is incomplete or beaten. -/
theorem transactions_fit_standing_submission (config : ProcessConfig)
    (honest : config.shady = false) (env : MinerEnv T) (pages : Nat) (state : MinerState T)
    (history : MinerTrace T) (blocks : List (ProcessedBlock T))
    (reached : MinerRun config env pages state history blocks) (block : ProcessedBlock T)
    (member : block ∈ blocks) (before after : MinerTrace T) (transaction : Transaction T)
    (nonce : Nat) (mortality : Option Nat) (answer : Read TxHandle)
    (sent : block.result.trace =
      before ++ ⟨.submitAndWatch transaction nonce mortality, answer⟩ :: after) :
    ∃ solution, block.result.store.cachedSolution = some solution ∧
      solution.round = block.details.round ∧
      Fits config block.details solution (CallView.after block.details.round before)
        transaction := by
  obtain ⟨solution, cached, sameRound, fits, _⟩ := reached.sent honest member sent
  exact ⟨solution, cached, sameRound, fits⟩

def registeringAnswer : (op : Op sampleConfig) → Resp op
  | .account _ => .ok (some 1)
  | .storageAtHead | .atCurrentBlock => .ok 51
  | .currentPhase _ _ => .ok (some (.signed 20))
  | .submissionMetadata _ _ | .minimumScore _ => .ok none
  | .voterSnapshotHash _ _ page | .targetSnapshotHash _ _ page => .ok (some (some page))
  | .voterSnapshot _ _ page | .targetSnapshot _ _ page => .ok (some (some page))
  | .pages => 2
  | .mineSolution _ => .mined ⟨[3, 4], ⟨5, 5, 5⟩, 7⟩
  | .sortedScores _ _ => .ok []
  | .accountNonce | .submitAndWatch _ _ _ | .waitForFinalized _ => .ok 0
  | .createSigned _ _ => .ok ()
  | .waitForSuccess _ => .ok [.ok (.registered 7 1 ⟨5, 5, 5⟩)]
  | op => unavailable op

def registeringBlock : ProcessedBlock sampleConfig :=
  handleBlock resumeConfig ⟨fun _ => registeringAnswer, fun _ _ => false⟩
    ⟨50, .signed 20, 2, 7, 2, 50⟩ (MinerState.initial 2) []

theorem registeringBlock_reached :
    MinerRun resumeConfig ⟨fun _ => registeringAnswer, fun _ _ => false⟩ 2
      registeringBlock.result.store registeringBlock.result.trace [registeringBlock] :=
  MinerRun.processed _ MinerRun.start (by simp)

theorem transactions_fit_standing_submission_page :
    ∃ before after solution, registeringBlock.result.trace = before ++
        ⟨.submitAndWatch (.submitPage 1 (some 4)) 1 (some 21), .ok 0⟩ :: after ∧
      registeringBlock.result.store.cachedSolution = some solution ∧
      Fits resumeConfig registeringBlock.details solution (CallView.after 7 before)
        (.submitPage 1 (some 4)) := by
  have sent : registeringBlock.result.trace[40]? =
      some ⟨.submitAndWatch (.submitPage 1 (some 4)) 1 (some 21), .ok 0⟩ := by rfl
  obtain ⟨before, after, split⟩ := List.append_of_mem (List.mem_of_getElem? sent)
  obtain ⟨solution, cached, _, fits⟩ := transactions_fit_standing_submission resumeConfig rfl _ 2
    _ _ _ registeringBlock_reached registeringBlock (by simp) before after _ 1 (some 21) _ split
  exact ⟨before, after, solution, split, cached, fits⟩

/-- In every run of the miner task, a transaction is sent only when the phase that the call read
last is signed. A registration needs more blocks than the minimum, and it and every page carry a
mortality of one block more than were left at that reading. -/
theorem transactions_sent_in_signed_phase (config : ProcessConfig)
    (honest : config.shady = false) (env : MinerEnv T) (pages : Nat) (state : MinerState T)
    (history : MinerTrace T) (blocks : List (ProcessedBlock T))
    (reached : MinerRun config env pages state history blocks) (block : ProcessedBlock T)
    (member : block ∈ blocks) (before after : MinerTrace T) (transaction : Transaction T)
    (nonce : Nat) (mortality : Option Nat) (answer : Read TxHandle)
    (sent : block.result.trace =
      before ++ ⟨.submitAndWatch transaction nonce mortality, answer⟩ :: after) :
    Timely config (CallView.after block.details.round before).phase transaction mortality := by
  obtain ⟨_, _, _, _, timely⟩ := reached.sent honest member sent
  exact timely

theorem transactions_sent_in_signed_phase_register :
    ∃ before after, registeringBlock.result.trace = before ++
        ⟨.submitAndWatch (.registerScore ⟨5, 5, 5⟩) 0 (some 21), .ok 0⟩ :: after ∧
      Timely resumeConfig (CallView.after 7 before).phase
        (.registerScore ⟨5, 5, 5⟩ : Transaction sampleConfig) (some 21) := by
  have sent : registeringBlock.result.trace[22]? =
      some ⟨.submitAndWatch (.registerScore ⟨5, 5, 5⟩) 0 (some 21), .ok 0⟩ := by rfl
  obtain ⟨before, after, split⟩ := List.append_of_mem (List.mem_of_getElem? sent)
  exact ⟨before, after, split, transactions_sent_in_signed_phase resumeConfig rfl _ 2 _ _ _
    registeringBlock_reached registeringBlock (by simp) before after _ 0 (some 21) _ split⟩

end LeanStakingMiner
