import StakingMiner.ChainLogic
import StakingMiner.SubmitCore

/-!
What each function of the submission code can do: the kinds of operations it issues
and the shape of its result. Later results cite these instead of unfolding the code.
-/

namespace LeanStakingMiner

open LeanProgram

variable {T : MinerConfig}

theorem readPhase_issues (reader : PhaseReader) :
    Issues [.head, .phase] (readPhase reader : Task T Phase) (· ≠ .panic) := by
  simp [Issues, readPhase, Op.kind]

theorem submitAndFinalize_issues (transaction : Transaction T) :
    Issues [.other, .nonce, transaction.kind] (submitAndFinalize transaction) (· ≠ .panic) := by
  simp [Issues, submitAndFinalize, Op.kind]

theorem bail_issues : Issues [.other, .nonce, .bail] (bail : Task T Unit) (· ≠ .panic) := by
  refine Issues.bind (submitAndFinalize_issues .bail) ?_ (by simp) (by simp)
  intro _ _
  simp [Issues]

theorem bailIncomplete_issues (submission : Option SubmissionMetadata) :
    Issues [.other, .nonce, .bail] (bailIncomplete submission : Task T Unit) (· ≠ .panic) := by
  cases submission with
  | none => simp [Issues, bailIncomplete]
  | some submission =>
      simp only [bailIncomplete]
      split
      · simp [Issues]
      · exact bail_issues

theorem validateSignedPhaseOrBail_issues (phase : Phase) (round minBlocks : Nat) :
    Issues [.head, .submission, .other, .nonce, .bail]
      (validateSignedPhaseOrBail phase round minBlocks : Task T Unit)
      (fun outcome => outcome ≠ .panic ∧
        (outcome = .ok () → ∃ blocks, phase = .signed blocks ∧ minBlocks < blocks)) := by
  cases phase with
  | signed blocks =>
      simp only [validateSignedPhaseOrBail]
      split
      · simp [Issues, Op.kind]
        intro submission
        have inner : Issues [.head, .submission, .other, .nonce, .bail]
            (bailIncomplete submission : Task T Unit) (· ≠ .panic) :=
          (bailIncomplete_issues submission).mono (by simp) (fun _ holds => holds)
        refine wp_mono inner ?_
        rintro (value | error | _) ⟨⟩ ⟨⟩ holds
        · simp
        · simp
        · exact absurd rfl holds
      · rename_i enough
        simp only [Issues, wp_return]
        exact ⟨by simp, fun _ => ⟨blocks, rfl, by omega⟩⟩
  | _ => simp [Issues, validateSignedPhaseOrBail]

theorem submitInner_issues (transaction : Transaction T) (nonce blocks : Nat) :
    Issues [.other, transaction.kind] (submitInner transaction nonce blocks) (· ≠ .panic) := by
  simp [Issues, submitInner, Op.kind]

theorem submitPageTxs_issues (pages : List (Nat × T.Solution)) (nonce : Nat) :
    Issues [.head, .phase, .other, .page] (submitPageTxs pages nonce)
      (fun outcome => ∀ txs, outcome = .ok txs → txs.map Prod.fst = pages.map Prod.fst) := by
  induction pages generalizing nonce with
  | nil => simp [Issues, submitPageTxs]
  | cons entry rest ih =>
      obtain ⟨page, solution⟩ := entry
      simp only [submitPageTxs]
      refine ((readPhase_issues .mortality).mono (by simp) fun _ holds => holds).bind ?_
        (by simp) (by simp)
      intro phase _
      cases phase with
      | signed blocks =>
          refine ((submitInner_issues _ nonce blocks).mono (by simp [Transaction.kind])
            fun _ holds => holds).bind ?_ (by simp) (by simp)
          intro tx _
          refine (ih (nonce + 1)).bind ?_ (by simp) (by simp)
          intro txs same
          simpa [Issues] using same
      | _ => simp [Issues, getSignedPhaseBlocksRemaining]

theorem pages_eraseIdx (pending : List (Nat × TxHandle)) (index : Nat) :
    ((pending.eraseIdx index).map Prod.fst).toFinset ⊆ (pending.map Prod.fst).toFinset := by
  intro page member
  simp only [List.mem_toFinset, List.mem_map] at member ⊢
  obtain ⟨entry, found, same⟩ := member
  exact ⟨entry, List.mem_of_mem_eraseIdx found, same⟩

theorem awaitPageTxs_issues (remaining : Nat) (pending : List (Nat × TxHandle))
    (failed submitted : Finset Nat) :
    Issues [.other, .events] (awaitPageTxs remaining pending failed submitted : Task T _)
      (fun outcome => outcome ≠ .panic ∧ ∀ result, outcome = .ok result →
        result.1 ⊆ failed ∪ (pending.map Prod.fst).toFinset) := by
  induction remaining generalizing pending failed submitted with
  | zero => simp [Issues, awaitPageTxs]
  | succ remaining ih =>
      simp only [awaitPageTxs, Issues, wp_bind, wp_ask]
      refine ⟨by simp [Op.kind], ?_⟩
      rintro ⟨choice, result⟩ _
      have fewer := pages_eraseIdx pending (choice % pending.length)
      simp only [followedBy_ok]
      split
      · simp
      · simp only [wp_bind, wp_ask, forall_read, kindMonitor_allows, Op.kind, wp_rpc_error,
          wp_rpc_ok, followedBy_ok, followedBy_err]
        refine ⟨by simp, by simp, fun events _ => ?_⟩
        cases collected : collectStored events submitted with
        | error error => simp
        | ok stored =>
            simp only [wp_rpc_ok, followedBy_ok]
            refine wp_mono (ih _ failed stored) ?_
            rintro outcome _ _ ⟨calm, within⟩
            refine ⟨calm, fun result finished => (within result finished).trans ?_⟩
            exact Finset.union_subset_union_right fewer
      · rename_i page handle _ found _
        have waited : page ∈ (pending.map Prod.fst).toFinset := by
          simp only [List.mem_toFinset, List.mem_map]
          exact ⟨_, List.mem_of_getElem? found, rfl⟩
        refine wp_mono (ih _ (insert page failed) submitted) ?_
        rintro outcome _ _ ⟨calm, within⟩
        refine ⟨calm, fun result finished => (within result finished).trans ?_⟩
        rw [Finset.insert_union]
        refine Finset.insert_subset (Finset.mem_union_right _ waited) ?_
        exact Finset.union_subset_union_right fewer

def Reported (pages failed : List Nat) : Prop := failed.Nodup ∧ failed ⊆ pages

theorem submitPagesBatch_issues (pages : List (Nat × T.Solution)) (round minBlocks : Nat) :
    Issues [.head, .phase, .submission, .other, .nonce, .bail, .page, .events]
      (submitPagesBatch pages round minBlocks) (fun outcome =>
        ∀ result, outcome = .ok result → Reported (pages.map Prod.fst) result.failedPages) := by
  unfold submitPagesBatch
  refine ((readPhase_issues .validation).mono (by simp) fun _ holds => holds).bind ?_
    (by simp) (by simp)
  intro phase _
  refine ((validateSignedPhaseOrBail_issues phase round minBlocks).mono (by simp)
    fun _ holds => holds).bind ?_ (by simp) (by simp)
  intro _ _
  simp only [Issues, wp_bind, wp_ask, forall_read, kindMonitor_next, wp_rpc_error, wp_rpc_ok,
    followedBy_ok, followedBy_err, kindMonitor_allows, Op.kind]
  refine ⟨by simp, by simp, fun nonce _ => ?_⟩
  refine wp_mono ((submitPageTxs_issues pages nonce).mono (by simp) fun _ holds => holds) ?_
  rintro (txs | error | _) _ _ named
  · have same := named txs rfl
    simp only [followedBy_ok, wp_bind]
    refine wp_mono ((awaitPageTxs_issues txs.length txs ∅ ∅).mono (by simp) fun _ holds => holds) ?_
    rintro (⟨failed, submitted⟩ | error | _) _ _ ⟨_, within⟩
    · have waiting := within _ rfl
      simp only [followedBy_ok, wp_bind, wp_ask, wp_return, kindMonitor_allows, Op.kind]
      refine ⟨by simp, ?_⟩
      rintro ⟨order, nodup, members⟩ _ result finished
      simp only [Outcome.ok.injEq] at finished
      subst result
      refine ⟨nodup, fun page member => ?_⟩
      rcases Finset.mem_union.mp ((members page).mp member) with lost | missing
      · simpa [same] using waiting lost
      · simpa using (Finset.mem_sdiff.mp missing).1
    · simp
    · simp
  · simp
  · simp

theorem mem_chunksFrom {α : Type} (size fuel : Nat) (elements chunk : List α)
    (member : chunk ∈ chunksFrom size fuel elements) : chunk ⊆ elements := by
  induction fuel generalizing elements with
  | zero => simp [chunksFrom] at member
  | succ fuel ih =>
      cases elements with
      | nil => simp [chunksFrom] at member
      | cons first rest =>
          simp only [chunksFrom, List.mem_cons] at member
          rcases member with same | later
          · subst chunk
            exact List.take_subset _ _
          · exact List.Subset.trans (ih _ later) (List.drop_subset _ _)

theorem submitChunks_issues (totalPages round minBlocks : Nat)
    (pages : List Nat) (remaining : List (List (Nat × T.Solution))) (submitted : Finset Nat)
    (within : ∀ chunk ∈ remaining, chunk.map Prod.fst ⊆ pages) :
    Issues [.head, .phase, .submission, .other, .nonce, .bail, .page, .events]
      (submitChunks totalPages round minBlocks remaining submitted)
      (fun outcome => ∀ failed, outcome = .ok failed → Reported pages failed) := by
  induction remaining generalizing submitted with
  | nil => simp [Issues, submitChunks, Reported]
  | cons chunk rest ih =>
      simp only [submitChunks]
      refine ((readPhase_issues .validation).mono (by simp) fun _ holds => holds).bind ?_
        (by simp) (by simp)
      intro phase _
      refine ((validateSignedPhaseOrBail_issues phase round minBlocks).mono (by simp)
        fun _ holds => holds).bind ?_ (by simp) (by simp)
      intro _ _
      refine (submitPagesBatch_issues chunk round minBlocks).bind ?_ (by simp) (by simp)
      intro result reported
      obtain ⟨nodup, named⟩ := reported result rfl
      split
      · split
        · simp [Issues, Reported]
        · exact ih _ fun other member => within other (by simp [member])
      · simpa [Issues, Reported, nodup] using List.Subset.trans named (within chunk (by simp))

theorem innerSubmitPages_issues (pages : List (Nat × T.Solution))
    (chunkSize round minBlocks : Nat) :
    Issues [.head, .phase, .submission, .other, .nonce, .bail, .page, .events]
      (innerSubmitPages pages chunkSize round minBlocks)
      (fun outcome => ∀ failed, outcome = .ok failed → Reported (pages.map Prod.fst) failed) := by
  unfold innerSubmitPages
  split
  · refine (submitPagesBatch_issues pages round minBlocks).bind ?_ (by simp) (by simp)
    intro result reported
    obtain ⟨nodup, named⟩ := reported result rfl
    split
    · simp [Issues, Reported]
    · simpa [Issues, Reported, nodup] using named
  · rename_i positive
    simp only [innerSubmitPagesChunked, positive, ↓reduceIte]
    refine submitChunks_issues _ round minBlocks _ _ ∅ ?_
    intro chunk member
    exact List.map_subset _ (mem_chunksFrom _ _ _ _ member)

theorem registerAttempt_issues {retryable : SubxtError → Bool} {score : ElectionScore}
    {blocks : Nat} {retry : SubxtError → Task T TxHandle}
    (retries : ∀ error, Issues [.nonce, .other, .register] (retry error) (· ≠ .panic)) :
    Issues [.nonce, .other, .register] (registerAttempt retryable score blocks retry)
      (· ≠ .panic) := by
  simp [registerAttempt, Issues, Op.kind]
  intro nonce
  have inner : Issues [.nonce, .other, .register]
      (submitInner (.registerScore score : Transaction T) nonce blocks) (· ≠ .panic) :=
    (submitInner_issues _ nonce blocks).mono (by simp [Transaction.kind]) (fun _ holds => holds)
  refine wp_mono inner ?_
  rintro (tx | error | _) ⟨⟩ ⟨⟩ holds
  · simp [caught]
  · simp only [caught, followedBy_ok]
    split
    · simp
    · split
      · exact retries _
      · simp
    · simp
  · exact absurd rfl holds

theorem registerLoop_issues (retryable : SubxtError → Bool) (score : ElectionScore)
    (blocks retries : Nat) :
    Issues [.nonce, .other, .register] (registerLoop retryable score blocks retries : Task T _)
      (· ≠ .panic) := by
  induction retries with
  | zero => exact registerAttempt_issues fun error => by simp [Issues]
  | succ retries ih =>
      refine registerAttempt_issues fun error => ?_
      simp only [Issues, wp_bind, wp_ask]
      exact ⟨by simp [Op.kind], fun _ _ => ih⟩

theorem registerAndConfirm_issues (score : ElectionScore) (blocks : Nat) :
    Issues [.nonce, .other, .register, .events] (registerAndConfirm score blocks : Task T Unit)
      (· ≠ .panic) := by
  refine ((registerLoop_issues _ score blocks 9).mono (by simp) fun _ holds => holds).bind ?_
    (by simp) (by simp)
  intro tx _
  simp [Issues, Op.kind]
  intro events
  split <;> simp [Op.kind]

theorem revalidate_issues (round minBlocks : Nat) :
    Issues [.head, .phase, .submission, .other, .nonce, .bail]
      (revalidate round minBlocks : Task T Unit) (· ≠ .panic) := by
  refine ((readPhase_issues .validation).mono (by simp) fun _ holds => holds).bind ?_
    (by simp) (by simp)
  intro phase _
  exact (validateSignedPhaseOrBail_issues phase round minBlocks).mono (by simp)
    fun _ holds => holds.1

theorem takePages_issues (failedPages : List Nat) (solutionPages : List T.Solution)
    (inside : ∀ page ∈ failedPages, page < solutionPages.length) :
    Issues [] (takePages failedPages solutionPages) (fun outcome =>
      ∃ solutions, outcome = .ok solutions ∧ solutions.map Prod.fst = failedPages) := by
  induction failedPages generalizing solutionPages with
  | nil => simp [Issues, takePages]
  | cons page rest ih =>
      have bound : page < solutionPages.length := inside page (by simp)
      have found : solutionPages[page]? = some solutionPages[page] := List.getElem?_eq_getElem bound
      simp only [takePages, found]
      refine (ih _ ?_).bind ?_ (by simp) (by simp)
      · intro other member
        simpa using inside other (by simp [member])
      · rintro others ⟨solutions, same, pages⟩
        simp only [Outcome.ok.injEq] at same
        subst others
        simp [Issues, pages]

theorem enumeratePages_fst (solutionPages : List T.Solution) :
    (enumeratePages solutionPages).map Prod.fst = List.range solutionPages.length := by
  simp [enumeratePages, List.range_eq_range', Function.comp_def]

theorem firstAttempt_reported (solutionPages : List T.Solution) (chunkSize round minBlocks : Nat) :
    Issues [.head, .phase, .submission, .other, .nonce, .bail, .page, .events]
      (innerSubmitPages (enumeratePages solutionPages) chunkSize round minBlocks)
      (fun outcome => ∀ failed, outcome = .ok failed →
        failed.Nodup ∧ ∀ page ∈ failed, page < solutionPages.length) := by
  refine (innerSubmitPages_issues _ chunkSize round minBlocks).mono (List.Subset.refl _) ?_
  intro outcome reported failed finished
  obtain ⟨distinct, named⟩ := reported failed finished
  rw [enumeratePages_fst] at named
  exact ⟨distinct, fun page member => List.mem_range.mp (named member)⟩

theorem enumeratePages_length (solutionPages : List T.Solution) :
    (enumeratePages solutionPages).length = solutionPages.length := by
  simp [enumeratePages]

end LeanStakingMiner
