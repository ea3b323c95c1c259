import StakingMiner.PageContents
import StakingMiner.ProgramPartial
import StakingMiner.ResumeBounds
import StakingMiner.StoredPages

/-!
The protocol of the signed pallet as one call of `process_block` follows it. The pallet keeps at
most one submission of an account for a round: registering creates it, pages are added to it, and
bailing removes it. The view below is what the call has seen of that submission and of the phase;
every transaction the call sends has to fit it. A bail is waited for until it is finalised and its
events are not looked at, so a withdrawn submission is one that the call asked to remove.
-/

namespace LeanStakingMiner

open LeanProgram

variable {T : MinerConfig}

inductive Standing where
  | unknown
  | absent
  | present (submission : SubmissionMetadata)
  | withdrawn (submission : SubmissionMetadata)
deriving Repr, DecidableEq

def Standing.read : Option SubmissionMetadata → Standing
  | none => .absent
  | some submission => .present submission

def Standing.withdraw : Standing → Standing
  | .present submission => .withdrawn submission
  | other => other

inductive Awaited where
  | nothing
  | registration (score : ElectionScore)
  | withdrawal
  | page (page : Nat)
deriving Repr, DecidableEq

/-- What a call has seen. `stored` are the pages that their own transactions reported as stored;
a registration starts them afresh. -/
structure CallView where
  phase : Option Phase
  standing : Standing
  awaited : Awaited
  stored : Finset Nat
deriving DecidableEq

namespace CallView

def initial : CallView := ⟨none, .unknown, .nothing, ∅⟩

def finalized (view : CallView) : CallView :=
  match view.awaited with
  | .withdrawal => { view with standing := view.standing.withdraw, awaited := .nothing }
  | _ => view

def confirmed (view : CallView) (events : List (Read ChainEvent)) : CallView :=
  match view.awaited with
  | .registration score =>
      if hasRegistered events then ⟨view.phase, .present ⟨score, []⟩, .nothing, ∅⟩ else view
  | .page page =>
      { view with awaited := .nothing, stored := view.stored ∪ {page} ∩ eventPages events }
  | _ => view

def next (round : Nat) (view : CallView) : (op : Op T) → Resp op → CallView
  | .currentPhase _ _, .ok phase => { view with phase := some (phase.getD .off) }
  | .submissionMetadata _ readRound, .ok submission =>
      if readRound = round then { view with standing := .read submission } else view
  | .submitAndWatch (.registerScore score) _ _, .ok _ =>
      { view with awaited := .registration score }
  | .submitAndWatch .bail _ _, .ok _ => { view with awaited := .withdrawal }
  | .waitForFinalized _, .ok _ => view.finalized
  | .nextFinalized pending, (index, .ok _) =>
      match pending[index % pending.length]? with
      | some (page, _) => { view with awaited := .page page }
      | none => view
  | .waitForSuccess _, .ok events => view.confirmed events
  | _, _ => view

def after (round : Nat) (trace : MinerTrace T) : CallView :=
  trace.foldl (fun view event => view.next round event.1 event.2) initial

end CallView

section Fitting

variable (config : ProcessConfig) (details : BlockDetails) (solution : PagedRawSolution T)

/-- A submission that may be given up: one with pages missing, or one the solution is better than
by the strategy. -/
def GivesWay (submission : SubmissionMetadata) : Prop :=
  submission.pages.all id = false ∨ (submittedPages submission.pages).card ≠ details.nPages ∨
    scorePassesStrategy T solution.score submission.claimedScore config.submissionStrategy = true

/-- No submission was read, or the one that was read gave way and a bail of it is finalised. -/
def Vacant : Standing → Prop
  | .absent => True
  | .withdrawn submission => GivesWay config details solution submission
  | _ => False

def Fits (view : CallView) : Transaction T → Prop
  | .registerScore score => score = solution.score ∧ Vacant config details solution view.standing
  | .submitPage page content =>
      (∃ submission, view.standing = .present submission ∧
        submission.claimedScore = solution.score ∧ page ∉ submittedPages submission.pages) ∧
      page ∉ view.stored ∧ ∃ own, solution.solutionPages[page]? = some own ∧ content = some own
  | .bail =>
      ∃ submission, view.standing = .present submission ∧
        GivesWay config details solution submission
  | _ => False

/-- Sent in a signed phase; what adds to a submission expires with that phase. -/
def Timely : Option Phase → Transaction T → Option Nat → Prop
  | some (.signed blocks), .registerScore _, mortality =>
      config.minSignedPhaseBlocks < blocks ∧ mortality = some ((blocks + 1) % 2 ^ 32)
  | some (.signed blocks), .submitPage _ _, mortality => mortality = some ((blocks + 1) % 2 ^ 32)
  | some (.signed _), .bail, mortality => mortality = none
  | _, _, _ => False

def signedMonitor : Monitor (Op T) Resp CallView where
  expects _ _ _ := True
  allows view op := ∀ transaction nonce mortality,
    op = .submitAndWatch transaction nonce mortality →
      Fits config details solution view transaction ∧
        Timely config view.phase transaction mortality
  next := CallView.next details.round

end Fitting

variable {config : ProcessConfig} {details : BlockDetails} {solution : PagedRawSolution T}
variable {view : CallView} {α β : Type}

@[simp] theorem callMonitor_expects (op : Op T) (answer : Resp op) :
    (signedMonitor config details solution).expects view op answer ↔ True := Iff.rfl

@[simp] theorem callMonitor_allows (op : Op T) :
    (signedMonitor config details solution).allows view op ↔ ∀ transaction nonce mortality,
      op = .submitAndWatch transaction nonce mortality →
        Fits config details solution view transaction ∧
          Timely config view.phase transaction mortality := Iff.rfl

@[simp] theorem callMonitor_next (op : Op T) (answer : Resp op) :
    (signedMonitor config details solution).next view op answer =
      view.next details.round op answer := rfl

def sendingKinds : List OpKind := [.register, .page, .bail, .janitor]

def unseenKinds : List OpKind := [.head, .nonce, .submitCall, .other]

theorem callMonitor_free {op : Op T} (unsent : op.kind ∉ sendingKinds) :
    (signedMonitor config details solution).allows view op := by
  rintro transaction nonce mortality rfl
  cases transaction <;> simp [sendingKinds, Op.kind, Transaction.kind] at unsent

theorem callMonitor_ignores (idle : view.awaited = .nothing) (op : Op T)
    (unseen : op.kind ∈ unseenKinds) : (signedMonitor config details solution).Ignores view op := by
  refine ⟨callMonitor_free ?_, fun answer => ?_⟩
  · intro sent
    simp only [unseenKinds, List.mem_cons, List.not_mem_nil, or_false] at unseen
    rcases unseen with kind | kind | kind | kind <;> simp [sendingKinds, kind] at sent
  · change view.next details.round op answer = view
    unfold CallView.next
    split
    · simp [Op.kind, unseenKinds] at unseen
    · simp [Op.kind, unseenKinds] at unseen
    · simp [Op.kind, Transaction.kind, unseenKinds] at unseen
    · simp [Op.kind, Transaction.kind, unseenKinds] at unseen
    · simp [CallView.finalized, idle]
    · simp [Op.kind, unseenKinds] at unseen
    · simp [Op.kind, unseenKinds] at unseen
    · rfl

section Tasks

variable {γ : Type} {M : Monitor (Op T) Resp γ} {ghost : γ} {task : Task T α}

theorem Issues.leads {kinds : List OpKind} {post : Outcome Error α → Prop}
    (issues : Issues kinds task post)
    (ignored : ∀ op : Op T, op.kind ∈ kinds → M.Ignores ghost op) :
    Leads M task (fun value _ after => after = ghost ∧ post (.ok value)) () ghost := by
  refine issues.keeps ignored ?_
  rintro outcome holds value rfl
  exact ⟨rfl, holds⟩

theorem leads_withTimeout {post : α → Unit → γ → Prop} (error : TimeoutError)
    (leads : Leads M task post () ghost) : Leads M (withTimeout error task) post () ghost :=
  wp_withTimeout leads fun _ _ => by simp

end Tasks

theorem readPhase_leads (reader : PhaseReader) :
    Leads (signedMonitor config details solution) (readPhase reader)
      (fun phase _ after => after = { view with phase := some phase }) () view := by
  simp [Leads, readPhase, CallView.next]

theorem bail_leads {submission : SubmissionMetadata} {blocks : Nat}
    (standing : view.standing = .present submission)
    (givesWay : GivesWay config details solution submission)
    (signed : view.phase = some (.signed blocks)) :
    Leads (signedMonitor config details solution) bail
      (fun _ _ after => after = { view with standing := .withdrawn submission, awaited := .nothing })
      () view := by
  have fits : Fits config details solution view .bail := ⟨submission, standing, givesWay⟩
  have timely : Timely config view.phase (.bail : Transaction T) none := by
    rw [signed]
    rfl
  simp [Leads, bail, submitAndFinalize, CallView.next, CallView.finalized, fits, timely, standing,
    Standing.withdraw]

theorem bailIncomplete_leads {submission : Option SubmissionMetadata} {blocks : Nat}
    (standing : view.standing = .read submission) (signed : view.phase = some (.signed blocks)) :
    Leads (signedMonitor config details solution) (bailIncomplete submission)
      (fun _ _ _ => True) () view := by
  cases submission with
  | none => exact (leads_return _).mpr trivial
  | some submission =>
      unfold bailIncomplete
      simp only
      split
      · exact (leads_return _).mpr trivial
      · rename_i missing
        have givesWay : GivesWay config details solution submission :=
          Or.inl (Bool.eq_false_iff.mpr missing)
        exact (bail_leads standing givesWay signed).mono fun _ _ _ _ => trivial

theorem validateSignedPhaseOrBail_leads (phase : Phase) (read : view.phase = some phase) :
    Leads (signedMonitor config details solution)
      (validateSignedPhaseOrBail phase details.round config.minSignedPhaseBlocks)
      (fun _ _ after => after = view ∧
        ∃ blocks, phase = .signed blocks ∧ config.minSignedPhaseBlocks < blocks) () view := by
  cases phase with
  | signed blocks =>
      unfold validateSignedPhaseOrBail
      simp only
      split
      · simp only [Leads, wp_bind, wp_ask, forall_read, followedBy_ok, wp_rpc_error, wp_rpc_ok,
          followedBy_err, callMonitor_allows, callMonitor_expects, callMonitor_next, CallView.next]
        refine ⟨by simp, by simp, fun head _ => ⟨by simp, by simp, fun submission _ => ?_⟩⟩
        have bailed : Leads (signedMonitor config details solution) (bailIncomplete submission)
            (fun _ _ _ => True) () { view with standing := .read submission } :=
          bailIncomplete_leads rfl read
        rw [if_pos trivial]
        exact (wp_bind _ _).mp (bailed.bind fun _ _ _ _ => leads_fail _)
      · rename_i enough
        exact (leads_return _).mpr ⟨rfl, blocks, rfl, by omega⟩
  | _ => exact leads_fail _

theorem leads_validated {rest : Phase → Task T β} {post : β → Unit → CallView → Prop}
    (next : ∀ blocks, config.minSignedPhaseBlocks < blocks →
      Leads (signedMonitor config details solution) (rest (.signed blocks)) post ()
        { view with phase := some (.signed blocks) }) :
    Leads (signedMonitor config details solution) (do
      let phase ← readPhase .validation
      validateSignedPhaseOrBail phase details.round config.minSignedPhaseBlocks
      rest phase) post () view := by
  refine (readPhase_leads .validation).bind ?_
  rintro phase _ _ rfl
  refine (validateSignedPhaseOrBail_leads phase rfl).bind ?_
  rintro _ _ _ ⟨rfl, blocks, rfl, enough⟩
  exact next blocks enough

theorem revalidate_leads :
    Leads (signedMonitor config details solution)
      (revalidate details.round config.minSignedPhaseBlocks)
      (fun _ _ after => ∃ blocks, config.minSignedPhaseBlocks < blocks ∧
        after = { view with phase := some (.signed blocks) }) () view := by
  refine (readPhase_leads .validation).bind ?_
  rintro phase _ _ rfl
  refine (validateSignedPhaseOrBail_leads phase rfl).mono ?_
  rintro _ _ _ ⟨rfl, blocks, rfl, enough⟩
  exact ⟨blocks, enough, rfl⟩

theorem submitInner_leads {transaction : Transaction T} {blocks : Nat} (nonce : Nat)
    (fits : Fits config details solution view transaction)
    (timely : Timely config view.phase transaction (some ((blocks + 1) % 2 ^ 32))) :
    wp (signedMonitor config details solution) (submitInner transaction nonce blocks)
      (fun outcome _ after =>
        (∀ tx, outcome = .ok tx → after = view.next details.round
          (.submitAndWatch transaction nonce (some ((blocks + 1) % 2 ^ 32))) (.ok tx)) ∧
        ∀ error, outcome = .err error → after = view) () view := by
  simpa [submitInner, CallView.next, fits] using timely

section Registering

variable {blocks : Nat} (vacant : Vacant config details solution view.standing)
  (signed : view.phase = some (.signed blocks)) (enough : config.minSignedPhaseBlocks < blocks)

include vacant signed enough

theorem registerAttempt_leads {retryable : SubxtError → Bool}
    {retry : SubxtError → Task T TxHandle}
    (retries : ∀ error, Leads (signedMonitor config details solution) (retry error)
      (fun _ _ after => after = { view with awaited := .registration solution.score }) () view) :
    Leads (signedMonitor config details solution)
      (registerAttempt retryable solution.score blocks retry)
      (fun _ _ after => after = { view with awaited := .registration solution.score }) () view := by
  have fits : Fits config details solution view (.registerScore solution.score) := ⟨rfl, vacant⟩
  have timely : Timely config view.phase (.registerScore solution.score : Transaction T)
      (some ((blocks + 1) % 2 ^ 32)) := by
    rw [signed]
    exact ⟨enough, rfl⟩
  simp only [Leads, registerAttempt, wp_bind, wp_ask, forall_read, followedBy_ok, wp_rpc_error,
    wp_rpc_ok, followedBy_err, callMonitor_allows, callMonitor_expects, callMonitor_next,
    CallView.next]
  refine ⟨by simp, by simp, fun nonce _ => ?_⟩
  refine (wp_bind _ _).mp (Leads.attemptBind (submitInner_leads nonce fits timely) ?_ ?_)
  · rintro tx _ _ rfl
    exact (leads_return _).mpr rfl
  · rintro error _ _ rfl
    split
    · trivial
    · split
      · exact retries _
      · exact leads_fail _
    · exact leads_fail _

theorem registerLoop_leads (retryable : SubxtError → Bool) (retries : Nat) :
    Leads (signedMonitor config details solution)
      (registerLoop retryable solution.score blocks retries)
      (fun _ _ after => after = { view with awaited := .registration solution.score }) () view := by
  induction retries with
  | zero => exact registerAttempt_leads vacant signed enough fun _ => leads_fail _
  | succ retries ih =>
      refine registerAttempt_leads vacant signed enough fun _ => ?_
      exact ⟨by simp, fun _ _ => ih⟩

theorem registerAndConfirm_leads :
    Leads (signedMonitor config details solution) (registerAndConfirm solution.score blocks)
      (fun _ _ after => after = ⟨view.phase, .present ⟨solution.score, []⟩, .nothing, ∅⟩)
      () view := by
  refine (registerLoop_leads vacant signed enough _ 9).bind ?_
  rintro tx _ _ rfl
  simp only [Leads, wp_bind, wp_ask, forall_read, followedBy_ok, wp_rpc_error, wp_rpc_ok,
    followedBy_err, callMonitor_allows, callMonitor_expects, callMonitor_next, CallView.next]
  refine ⟨by simp, by simp, fun included _ => ⟨by simp, by simp, fun events _ => ?_⟩⟩
  split
  · rename_i registered
    simp [CallView.finalized, CallView.confirmed, CallView.next, registered]
  · exact leads_fail _

end Registering

structure Stands (solution : PagedRawSolution T) (submission : SubmissionMetadata)
    (view : CallView) : Prop where
  standing : view.standing = .present submission
  score : submission.claimedScore = solution.score
  idle : view.awaited = .nothing

structure Addable (solution : PagedRawSolution T) (submission : SubmissionMetadata)
    (stored : Finset Nat) (entries : List (Nat × T.Solution)) : Prop where
  own : PagesOf solution.solutionPages entries
  distinct : (entries.map Prod.fst).Nodup
  missing : ∀ page ∈ entries.map Prod.fst, page ∉ submittedPages submission.pages
  unseen : ∀ page ∈ entries.map Prod.fst, page ∉ stored

structure Batched (solution : PagedRawSolution T) (submission : SubmissionMetadata)
    (stored : Finset Nat) (pages failed : List Nat) (after : CallView) : Prop where
  stands : Stands solution submission after
  named : failed ⊆ pages
  seen : ∀ page ∈ after.stored, page ∈ stored ∨ page ∈ pages ∧ page ∉ failed

section Adding

variable {submission : SubmissionMetadata} {entries : List (Nat × T.Solution)}

theorem Addable.sublist {stored : Finset Nat} {more : List (Nat × T.Solution)}
    (addable : Addable solution submission stored more) (sublist : entries.Sublist more) :
    Addable solution submission stored entries := by
  have pages : (entries.map Prod.fst).Sublist (more.map Prod.fst) := sublist.map _
  exact ⟨addable.own.subset sublist.subset, addable.distinct.sublist pages,
    fun page member => addable.missing page (pages.subset member),
    fun page member => addable.unseen page (pages.subset member)⟩

theorem Stands.inPhase (stands : Stands solution submission view) (phase : Option Phase) :
    Stands solution submission { view with phase } :=
  ⟨stands.standing, stands.score, stands.idle⟩

theorem submitPageTxs_leads (nonce : Nat) (stands : Stands solution submission view)
    (addable : Addable solution submission view.stored entries) :
    Leads (signedMonitor config details solution) (submitPageTxs entries nonce)
      (fun txs _ after => Stands solution submission after ∧ after.stored = view.stored ∧
        txs.map Prod.fst = entries.map Prod.fst) () view := by
  induction entries generalizing nonce view with
  | nil => exact (leads_return _).mpr ⟨stands, rfl, rfl⟩
  | cons entry rest ih =>
      obtain ⟨page, content⟩ := entry
      refine (readPhase_leads .mortality).bind ?_
      rintro phase _ _ rfl
      cases phase with
      | signed blocks =>
          have phased := stands.inPhase (some (.signed blocks))
          have fits : Fits config details solution { view with phase := some (.signed blocks) }
              (.submitPage page (some content)) :=
            ⟨⟨submission, stands.standing, stands.score, addable.missing page (by simp)⟩,
              addable.unseen page (by simp), content, addable.own (page, content) (by simp), rfl⟩
          have sent : Leads (signedMonitor config details solution)
              (submitInner (.submitPage page (some content)) nonce blocks)
              (fun _ _ after => after = { view with phase := some (.signed blocks) }) ()
              { view with phase := some (.signed blocks) } := by
            refine wp_mono (submitInner_leads nonce fits rfl) ?_
            rintro outcome _ after ⟨taken, _⟩ tx returned
            exact taken tx returned
          refine sent.bind ?_
          rintro tx _ _ rfl
          refine (ih (nonce + 1) phased (addable.sublist (by simp))).bind ?_
          rintro txs _ after ⟨still, same, listed⟩
          exact (leads_return _).mpr ⟨still, same, by simp [listed]⟩
      | _ => exact leads_panic

theorem pages_perm_done {pending : List (Nat × TxHandle)} {index page : Nat} {tx : TxHandle}
    (found : pending[index]? = some (page, tx)) :
    (pending.map Prod.fst).Perm (page :: (pending.eraseIdx index).map Prod.fst) := by
  obtain ⟨bound, same⟩ := List.getElem?_eq_some_iff.mp found
  have parted := (List.getElem_cons_eraseIdx_perm bound).map Prod.fst
  rw [same] at parted
  exact parted.symm

structure Awaits (solution : PagedRawSolution T) (submission : SubmissionMetadata)
    (stored failed submitted : Finset Nat) (pages : List Nat) (result : Finset Nat × Finset Nat)
    (after : CallView) : Prop where
  stands : Stands solution submission after
  submitted : submitted ⊆ result.2
  failed : ∀ page ∈ result.1, page ∈ failed ∨ page ∈ pages
  seen : ∀ page ∈ after.stored, page ∈ stored ∨
    page ∈ pages ∧ page ∉ result.1 ∧ page ∈ result.2

section Completions

variable {stored failed submitted : Finset Nat} {pages rest : List Nat} {page : Nat}
variable {result : Finset Nat × Finset Nat} {after : CallView}

theorem Awaits.lost (parted : pages.Perm (page :: rest))
    (ends : Awaits solution submission stored (insert page failed) submitted rest result after) :
    Awaits solution submission stored failed submitted pages result after := by
  refine ⟨ends.stands, ends.submitted, fun other lost => ?_, fun other seen => ?_⟩
  · rw [parted.mem_iff, List.mem_cons]
    rcases ends.failed other lost with early | later
    · rcases Finset.mem_insert.mp early with same | earlier
      · exact .inr (.inl same)
      · exact .inl earlier
    · exact .inr (.inr later)
  · rcases ends.seen other seen with earlier | ⟨later, kept⟩
    · exact .inl earlier
    · exact .inr ⟨parted.mem_iff.mpr (by simp [later]), kept⟩

theorem Awaits.confirmed {events : Finset Nat} (parted : pages.Perm (page :: rest))
    (apart : page ∉ failed) (gone : page ∉ rest)
    (ends : Awaits solution submission (stored ∪ {page} ∩ events) failed (submitted ∪ events) rest
      result after) :
    Awaits solution submission stored failed submitted pages result after := by
  refine ⟨ends.stands, Finset.subset_union_left.trans ends.submitted, fun other lost => ?_,
    fun other seen => ?_⟩
  · rcases ends.failed other lost with earlier | later
    · exact .inl earlier
    · exact .inr (parted.mem_iff.mpr (by simp [later]))
  · rcases ends.seen other seen with earlier | ⟨later, kept⟩
    · rcases Finset.mem_union.mp earlier with earlier | own
      · exact .inl earlier
      · obtain ⟨same, reported⟩ := Finset.mem_inter.mp own
        obtain rfl := Finset.mem_singleton.mp same
        refine .inr ⟨parted.mem_iff.mpr (by simp), fun lost => ?_, ?_⟩
        · exact (ends.failed other lost).elim apart gone
        · exact ends.submitted (Finset.mem_union_right _ reported)
    · exact .inr ⟨parted.mem_iff.mpr (by simp [later]), kept⟩

end Completions

theorem awaitPageTxs_leads (remaining : Nat) {pending : List (Nat × TxHandle)}
    {failed submitted : Finset Nat} (distinct : (pending.map Prod.fst).Nodup)
    (apart : ∀ page ∈ pending.map Prod.fst, page ∉ failed)
    (stands : Stands solution submission view) :
    Leads (signedMonitor config details solution) (awaitPageTxs remaining pending failed submitted)
      (fun result _ after => Awaits solution submission view.stored failed submitted
        (pending.map Prod.fst) result after) () view := by
  induction remaining generalizing pending failed submitted view with
  | zero =>
      exact (leads_return _).mpr ⟨stands, Finset.Subset.refl _, fun _ => Or.inl, fun _ => Or.inl⟩
  | succ remaining ih =>
      simp only [awaitPageTxs, Leads, wp_bind, wp_ask, callMonitor_allows, callMonitor_expects,
        callMonitor_next, followedBy_ok]
      refine ⟨by simp, ?_⟩
      rintro ⟨choice, result⟩ _
      cases found : pending[choice % pending.length]? with
      | none =>
          have same : view.next details.round (.nextFinalized pending : Op T) (choice, result) =
              view := by
            cases result <;> simp [CallView.next, found]
          rw [same]
          exact (leads_return _).mpr
            ⟨stands, Finset.Subset.refl _, fun _ => Or.inl, fun _ => Or.inl⟩
      | some entry =>
          obtain ⟨page, handle⟩ := entry
          have parted := pages_perm_done found
          obtain ⟨gone, distinct⟩ := List.nodup_cons.mp (parted.nodup_iff.mp distinct)
          have early (other : Nat)
              (member : other ∈ (pending.eraseIdx (choice % pending.length)).map Prod.fst) :
              other ∉ failed := apart other (parted.mem_iff.mpr (by simp [member]))
          cases result with
          | error error =>
              have left : ∀ other ∈ (pending.eraseIdx (choice % pending.length)).map Prod.fst,
                  other ∉ insert page failed := by
                intro other member
                have different : other ≠ page := fun same => gone (same ▸ member)
                simp [different, early other member]
              exact (ih distinct left stands).mono fun _ _ _ ends => ends.lost parted
          | ok tx =>
              simp only [wp_bind, wp_ask, forall_read, wp_rpc_error, wp_rpc_ok, followedBy_ok,
                followedBy_err, callMonitor_allows, callMonitor_expects, callMonitor_next,
                CallView.next, CallView.confirmed, found]
              refine ⟨by simp, by simp, fun events _ => ?_⟩
              cases collected : collectStored events submitted with
              | error error => simp
              | ok collection =>
                  obtain rfl := collectStored_eq collected
                  have standing : Stands solution submission { view with
                      awaited := .nothing, stored := view.stored ∪ {page} ∩ eventPages events } :=
                    ⟨stands.standing, stands.score, rfl⟩
                  have once : page ∉ failed := apart page (parted.mem_iff.mpr (by simp))
                  exact (ih distinct early standing).mono fun _ _ _ ends =>
                    ends.confirmed parted once gone

theorem submitPagesBatch_leads (stands : Stands solution submission view)
    (addable : Addable solution submission view.stored entries) :
    Leads (signedMonitor config details solution)
      (submitPagesBatch entries details.round config.minSignedPhaseBlocks)
      (fun result _ after => Batched solution submission view.stored (entries.map Prod.fst)
        result.failedPages after) () view := by
  refine leads_validated fun blocks _ => ?_
  have phased := stands.inPhase (some (.signed blocks))
  simp only [Leads, wp_bind, wp_ask, forall_read, followedBy_ok, wp_rpc_error, wp_rpc_ok,
    followedBy_err, callMonitor_allows, callMonitor_expects, callMonitor_next, CallView.next]
  refine ⟨by simp, by simp, fun nonce _ => ?_⟩
  refine (wp_bind _ _).mp ((submitPageTxs_leads nonce phased addable).bind ?_)
  rintro txs _ sending ⟨still, same, listed⟩
  have distinct : (txs.map Prod.fst).Nodup := listed ▸ addable.distinct
  refine (awaitPageTxs_leads txs.length distinct (by simp) still).bind ?_
  rintro ⟨failed, submitted⟩ _ after ends
  refine ⟨by simp, ?_⟩
  rintro ⟨order, _, members⟩ _
  refine (leads_return _).mpr ⟨ends.stands, fun page member => ?_, fun page seen => ?_⟩
  · rcases Finset.mem_union.mp ((members page).mp member) with lost | missing
    · have sent : page ∈ txs.map Prod.fst := (ends.failed page lost).resolve_left (by simp)
      rwa [listed] at sent
    · exact List.mem_toFinset.mp (Finset.mem_sdiff.mp missing).1
  · rcases ends.seen page seen with earlier | ⟨sent, kept, counted⟩
    · exact .inl (same ▸ earlier)
    · refine .inr ⟨listed ▸ sent, fun reported => ?_⟩
      rcases Finset.mem_union.mp ((members page).mp reported) with lost | missing
      · exact kept lost
      · exact (Finset.mem_sdiff.mp missing).2 counted

theorem Batched.followed {stored : Finset Nat} {pages more failed : List Nat}
    {between after : CallView} (distinct : (pages ++ more).Nodup)
    (first : Batched solution submission stored pages [] between)
    (second : Batched solution submission between.stored more failed after) :
    Batched solution submission stored (pages ++ more) failed after := by
  refine ⟨second.stands, fun page member => List.mem_append_right _ (second.named member),
    fun page seen => ?_⟩
  rcases second.seen page seen with earlier | ⟨later, kept⟩
  · rcases first.seen page earlier with before | ⟨sent, _⟩
    · exact .inl before
    · refine .inr ⟨List.mem_append_left _ sent, fun lost => ?_⟩
      exact (List.disjoint_of_nodup_append distinct) sent (second.named lost)
  · exact .inr ⟨List.mem_append_right _ later, kept⟩

theorem Batched.widen {stored : Finset Nat} {pages more failed : List Nat} {after : CallView}
    (batched : Batched solution submission stored pages failed after) :
    Batched solution submission stored (pages ++ more) failed after := by
  refine ⟨batched.stands, fun page member => List.mem_append_left _ (batched.named member),
    fun page seen => ?_⟩
  rcases batched.seen page seen with earlier | ⟨sent, kept⟩
  · exact .inl earlier
  · exact .inr ⟨List.mem_append_left _ sent, kept⟩

theorem Addable.later {stored : Finset Nat} {failed : List Nat} {chunk rest : List (Nat × T.Solution)}
    (addable : Addable solution submission stored (chunk ++ rest)) {after : CallView}
    (batched : Batched solution submission stored (chunk.map Prod.fst) failed after) :
    Addable solution submission after.stored rest := by
  have kept := addable.sublist (List.sublist_append_right chunk rest)
  refine ⟨kept.own, kept.distinct, kept.missing, fun page member seen => ?_⟩
  rcases batched.seen page seen with earlier | ⟨sent, _⟩
  · exact kept.unseen page member earlier
  · have distinct := addable.distinct
    rw [List.map_append] at distinct
    exact (List.disjoint_of_nodup_append distinct) sent member

theorem submitChunks_leads (totalPages : Nat) {remaining : List (List (Nat × T.Solution))}
    (submitted : Finset Nat) (stands : Stands solution submission view)
    (addable : Addable solution submission view.stored remaining.flatten) :
    Leads (signedMonitor config details solution)
      (submitChunks totalPages details.round config.minSignedPhaseBlocks remaining submitted)
      (fun failed _ after => Batched solution submission view.stored
        (remaining.flatten.map Prod.fst) failed after) () view := by
  induction remaining generalizing submitted view with
  | nil => exact (leads_return _).mpr ⟨stands, by simp, fun _ => Or.inl⟩
  | cons chunk rest ih =>
      have distinct := addable.distinct
      rw [List.flatten_cons, List.map_append] at distinct ⊢
      refine leads_validated fun blocks _ => ?_
      have phased := stands.inPhase (some (.signed blocks))
      refine (submitPagesBatch_leads phased (addable.sublist (by simp))).bind
        fun result _ after sent => ?_
      split
      · rename_i successful
        rw [SubmissionResult.allSuccessful, List.isEmpty_iff] at successful
        rw [successful] at sent
        change Leads _ (if _ then _ else _) _ _ _
        split
        · exact (leads_return _).mpr sent.widen
        · refine (ih _ sent.stands (addable.later sent)).mono fun failed _ last ends => ?_
          exact sent.followed distinct ends
      · exact (leads_return _).mpr sent.widen

theorem innerSubmitPages_leads (chunkSize : Nat) (stands : Stands solution submission view)
    (addable : Addable solution submission view.stored entries) :
    Leads (signedMonitor config details solution)
      (innerSubmitPages entries chunkSize details.round config.minSignedPhaseBlocks)
      (fun failed _ after => Batched solution submission view.stored (entries.map Prod.fst)
        failed after) () view := by
  unfold innerSubmitPages
  split
  · refine (submitPagesBatch_leads stands addable).bind fun result _ after sent => ?_
    split
    · rename_i successful
      rw [SubmissionResult.allSuccessful, List.isEmpty_iff] at successful
      exact (leads_return _).mpr (successful ▸ sent)
    · exact (leads_return _).mpr sent
  · rename_i positive
    have whole := chunks_flatten (Nat.pos_of_ne_zero positive) entries
    simp only [innerSubmitPagesChunked, positive, ↓reduceIte]
    rw [← whole] at addable
    refine (submitChunks_leads _ ∅ stands addable).mono fun failed _ after ends => ?_
    rwa [whole] at ends

theorem retryFailedPages_leads {failed : List Nat} (chunkSize : Nat) (distinct : failed.Nodup)
    (inside : ∀ page ∈ failed, page < solution.solutionPages.length)
    (empty : submittedPages submission.pages = ∅) (unseen : ∀ page ∈ failed, page ∉ view.stored)
    (stands : Stands solution submission view) :
    Leads (signedMonitor config details solution) (retryFailedPages solution.solutionPages failed
      chunkSize details.round config.minSignedPhaseBlocks) (fun _ _ _ => True) () view := by
  obtain ⟨solutions, taken, listed, own⟩ := takePages_owned distinct inside fun _ _ => rfl
  unfold retryFailedPages
  rw [taken]
  refine revalidate_leads.bind ?_
  rintro _ _ _ ⟨blocks, _, rfl⟩
  have phased := stands.inPhase (some (.signed blocks))
  have addable : Addable solution submission view.stored solutions :=
    ⟨own, listed ▸ distinct, fun _ _ => by simp [empty], listed ▸ unseen⟩
  refine (innerSubmitPages_leads chunkSize phased addable).bind fun still _ after _ => ?_
  split
  · exact ⟨by simp, fun _ _ _ _ => trivial⟩
  · exact revalidate_leads.bind fun _ _ _ _ => leads_fail _

theorem submitAllPages_leads (chunkSize : Nat) (empty : submittedPages submission.pages = ∅)
    (fresh : view.stored = ∅) (stands : Stands solution submission view) :
    Leads (signedMonitor config details solution) (submitAllPages solution.solutionPages chunkSize
      details.round config.minSignedPhaseBlocks) (fun _ _ _ => True) () view := by
  have listed := enumeratePages_fst solution.solutionPages
  have addable : Addable solution submission view.stored (enumeratePages solution.solutionPages) :=
    ⟨enumeratePages_owned _, listed ▸ List.nodup_range, fun _ _ => by simp [empty],
      fun _ _ => by simp [fresh]⟩
  have sends : Leads (signedMonitor config details solution) (innerSubmitPages
      (enumeratePages solution.solutionPages) chunkSize details.round config.minSignedPhaseBlocks)
      (fun failed _ after => Batched solution submission view.stored _ failed after) () view :=
    innerSubmitPages_leads chunkSize stands addable
  refine wp_seq ((firstAttempt_reported solution.solutionPages chunkSize details.round
    config.minSignedPhaseBlocks).and sends) ?_ (fun _ _ _ _ _ => by simp) (fun _ _ _ _ => by simp)
  rintro failed _ after ⟨reported, sent⟩
  obtain ⟨distinct, inside⟩ := reported failed rfl
  have batched := sent failed rfl
  split
  · exact ⟨by simp, fun _ _ _ _ => trivial⟩
  · refine retryFailedPages_leads chunkSize distinct inside empty ?_ batched.stands
    intro page member seen
    rcases batched.seen page seen with earlier | ⟨_, kept⟩
    · simp [fresh] at earlier
    · exact kept member

end Adding

theorem submit_leads (chunkSize : Nat) (vacant : Vacant config details solution view.standing) :
    Leads (signedMonitor config details solution)
      (submit solution chunkSize details.round config.minSignedPhaseBlocks)
      (fun _ _ _ => True) () view := by
  refine leads_validated fun blocks enough => ?_
  have registered : Leads (signedMonitor config details solution)
      (registerAndConfirm solution.score blocks) (fun _ _ after => after =
        ⟨some (.signed blocks), .present ⟨solution.score, []⟩, .nothing, ∅⟩) ()
      { view with phase := some (.signed blocks) } := registerAndConfirm_leads vacant rfl enough
  refine registered.bind ?_
  rintro _ _ _ rfl
  refine revalidate_leads.bind ?_
  rintro _ _ _ ⟨left, _, rfl⟩
  have stands : Stands solution ⟨solution.score, []⟩
      ⟨some (.signed left), .present ⟨solution.score, []⟩, .nothing, ∅⟩ := ⟨rfl, rfl, rfl⟩
  exact submitAllPages_leads chunkSize rfl rfl stands

theorem signedPhase_leads :
    Leads (signedMonitor config details solution) signedPhase
      (fun signed _ after => ∃ phase, signed = phase.isSigned ∧
        after = { view with phase := some phase }) () view := by
  refine (readPhase_leads .validation).bind ?_
  rintro phase _ _ rfl
  exact (leads_return _).mpr ⟨phase, rfl, rfl⟩

theorem bailIfSigned_leads {submission : SubmissionMetadata}
    (standing : view.standing = .present submission)
    (givesWay : GivesWay config details solution submission) :
    Leads (signedMonitor config details solution) bailIfSigned
      (fun flow _ after => flow = .proceed →
        Vacant config details solution after.standing ∧ after.awaited = .nothing) () view := by
  refine (leads_withTimeout _ signedPhase_leads).bind ?_
  rintro _ _ _ ⟨phase, rfl, rfl⟩
  cases phase with
  | signed blocks =>
      have bailed : Leads (signedMonitor config details solution) bail
          (fun _ _ after => after =
            ⟨some (.signed blocks), .withdrawn submission, .nothing, view.stored⟩) ()
          { view with phase := some (.signed blocks) } := bail_leads standing givesWay rfl
      refine (leads_withTimeout _ bailed).bind ?_
      rintro _ _ _ rfl
      exact (leads_return _).mpr fun _ => ⟨givesWay, rfl⟩
  | _ => exact (leads_return _).mpr (by simp)

theorem missingSolutions_leads {γ : Type} {M : Monitor (Op T) Resp γ} {ghost : γ}
    (solutionPages : List T.Solution) (pages : List Nat) :
    Leads M (missingSolutions solutionPages pages) (fun entries _ after => after = ghost ∧
      PagesOf solutionPages entries ∧ entries.map Prod.fst = pages) () ghost := by
  induction pages with
  | nil => exact (leads_return _).mpr ⟨rfl, by simp [PagesOf], rfl⟩
  | cons page rest ih =>
      unfold missingSolutions
      split
      · exact leads_panic
      · rename_i content found
        refine ih.bind ?_
        rintro entries _ _ ⟨rfl, own, rfl⟩
        refine (leads_return _).mpr ⟨rfl, ?_, rfl⟩
        intro entry member
        rcases List.mem_cons.mp member with rfl | later
        · exact found
        · exact own entry later

theorem resumeSubmission_leads {submission : SubmissionMetadata} (nPages : Nat)
    (stands : Stands solution submission view) (fresh : view.stored = ∅) :
    Leads (signedMonitor config details solution)
      (resumeSubmission config details.round
        ⟨submission.claimedScore, submittedPages submission.pages, nPages⟩ solution)
      (fun _ _ _ => True) () view := by
  refine (missingSolutions_leads _ _).bind ?_
  rintro entries _ view ⟨rfl, own, listed⟩
  have addable : Addable solution submission view.stored entries := by
    refine ⟨own, listed ▸ (List.nodup_range.filter _), fun page member => ?_, by simp [fresh]⟩
    rw [listed] at member
    simpa using (List.mem_filter.mp member).2
  have sent : Leads (signedMonitor config details solution) (do
      let _ ← innerSubmitPages entries config.chunkSize details.round config.minSignedPhaseBlocks
      pure ()) (fun _ _ _ => True) () view :=
    (innerSubmitPages_leads config.chunkSize stands addable).bind fun _ _ _ _ =>
      (leads_return _).mpr trivial
  exact (leads_withTimeout _ sent).bind fun _ _ _ _ => ⟨by simp, fun _ _ _ _ => trivial⟩

theorem handleExisting_leads {metadata : Option SubmissionMetadata}
    (standing : view.standing = .read metadata) (idle : view.awaited = .nothing)
    (fresh : view.stored = ∅) :
    Leads (signedMonitor config details solution) (handleExisting config details.round solution
      (currentSubmission details.nPages metadata))
      (fun flow _ after => flow = .proceed →
        Vacant config details solution after.standing ∧ after.awaited = .nothing) () view := by
  cases metadata with
  | none =>
      refine (leads_return _).mpr fun _ => ⟨?_, idle⟩
      rw [standing]
      trivial
  | some submission =>
      unfold currentSubmission
      simp only
      split
      · unfold handleExisting
        simp only
        split
        · rename_i better
          exact bailIfSigned_leads standing (Or.inr (Or.inr better))
        · exact (leads_return _).mpr (by simp)
      · rename_i incomplete
        unfold handleExisting
        simp only
        split
        · rename_i same
          refine (resumeSubmission_leads details.nPages ⟨standing, same, idle⟩ fresh).bind ?_
          exact fun _ _ _ _ => (leads_return _).mpr (by simp)
        · exact bailIfSigned_leads standing (Or.inr (Or.inl incomplete))

theorem existingSubmission_leads :
    Leads (signedMonitor config details solution) (existingSubmission details)
      (fun found _ after => ∃ metadata, found.2 = currentSubmission details.nPages metadata ∧
        after = { view with standing := .read metadata }) () view := by
  refine leads_withTimeout _ ?_
  simp [Leads, getSubmission, CallView.next]
  exact fun metadata => ⟨metadata, rfl, rfl⟩

theorem competeAndSubmit_leads (vacant : Vacant config details solution view.standing)
    (idle : view.awaited = .nothing) (head : AtBlock) (state : MinerState T) :
    Leads (signedMonitor config details solution)
      (competeAndSubmit config details.round solution head) (fun _ _ _ => True) state view := by
  refine ((checkCompetitive_issues config head details.round solution.score).leads
    fun op other => callMonitor_ignores idle op (by simp_all [unseenKinds])).liftBind ?_
  rintro competitive _ ⟨rfl, _⟩
  split
  · refine ⟨by simp, fun _ _ => ?_⟩
    exact Leads.lift (leads_withTimeout _ (submit_leads config.chunkSize vacant))
  · unfold skipNotCompetitive
    rw [Leads, wp_bind, wp_load, followedBy_ok]
    split
    · exact ⟨by simp, fun _ _ _ _ => trivial⟩
    · exact fun _ _ => trivial

theorem submitSolution_leads (idle : view.awaited = .nothing) (fresh : view.stored = ∅)
    (state : MinerState T) :
    Leads (signedMonitor config details solution) (submitSolution config details solution)
      (fun _ _ _ => True) state view := by
  refine ((fetchMinimumScore_issues details.atBlock).leads
    fun op other => callMonitor_ignores idle op (by simp_all [unseenKinds])).liftBind ?_
  rintro minimum view ⟨rfl, _⟩
  split
  · exact leads_fail _
  · exact leads_panic
  · refine existingSubmission_leads.liftBind ?_
    rintro ⟨head, _⟩ _ ⟨metadata, rfl, rfl⟩
    have handled : Leads (signedMonitor config details solution) (handleExisting config
        details.round solution (currentSubmission details.nPages metadata)) (fun flow _ after =>
          flow = .proceed →
            Vacant config details solution after.standing ∧ after.awaited = .nothing) ()
        { view with standing := .read metadata } := handleExisting_leads rfl idle fresh
    refine handled.liftBind fun flow after passed => ?_
    cases flow with
    | finished => exact (leads_return _).mpr trivial
    | proceed =>
        obtain ⟨vacant, free⟩ := passed rfl
        exact competeAndSubmit_leads vacant free head _

end LeanStakingMiner
