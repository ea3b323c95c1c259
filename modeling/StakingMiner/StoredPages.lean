import StakingMiner.SubmitLogic

/-!
Which pages a submission has stored. A page is stored once a `Stored` event for it has
been seen; the monitor below collects these pages along the run.
-/

namespace LeanStakingMiner

open LeanProgram

variable {T : MinerConfig} {stored : Finset Nat}

def eventPages : List (Read ChainEvent) → Finset Nat
  | [] => ∅
  | .ok (.stored _ _ page) :: rest => insert page (eventPages rest)
  | _ :: rest => eventPages rest

def storedIn : (op : Op T) → Resp op → Finset Nat
  | .waitForSuccess _, .ok events => eventPages events
  | _, _ => ∅

def storedPages : MinerTrace T → Finset Nat
  | [] => ∅
  | ⟨op, answer⟩ :: rest => storedIn op answer ∪ storedPages rest

def storedMonitor : Monitor (Op T) Resp (Finset Nat) where
  expects _ _ _ := True
  allows _ _ := True
  next stored op answer := stored ∪ storedIn op answer

@[simp] theorem storedMonitor_allows (op : Op T) : storedMonitor.allows stored op ↔ True := Iff.rfl

@[simp] theorem storedMonitor_expects (op : Op T) (answer : Resp op) :
    storedMonitor.expects stored op answer ↔ True := Iff.rfl

@[simp] theorem storedMonitor_next (op : Op T) (answer : Resp op) :
    storedMonitor.next stored op answer = stored ∪ storedIn op answer := rfl

theorem storedMonitor_permissive (stored : Finset Nat) (op : Op T) :
    storedMonitor.allows stored op := trivial

theorem storedMonitor_expected (stored : Finset Nat) (trace : MinerTrace T) :
    storedMonitor.Expected stored trace := by
  induction trace generalizing stored with
  | nil => trivial
  | cons event rest ih => exact ⟨trivial, ih _⟩

theorem storedMonitor_after (stored : Finset Nat) (trace : MinerTrace T) :
    storedMonitor.after stored trace = stored ∪ storedPages trace := by
  induction trace generalizing stored with
  | nil => simp [storedPages]
  | cons event rest ih =>
      rw [Monitor.after_cons, ih]
      exact Finset.union_assoc _ _ _

theorem storedMonitor_ignores (op : Op T) (quiet : op.kind ≠ .events) :
    storedMonitor.Ignores stored op := by
  refine ⟨trivial, fun answer => ?_⟩
  cases op <;> first | exact absurd rfl quiet | exact Finset.union_empty stored

theorem storedMonitor_quiet {kinds : List OpKind} (quiet : .events ∉ kinds) (op : Op T)
    (member : op.kind ∈ kinds) : storedMonitor.Ignores stored op := by
  refine storedMonitor_ignores op ?_
  intro same
  rw [same] at member
  exact quiet member

theorem collectStored_eq {events : List (Read ChainEvent)} {submitted collected : Finset Nat}
    (checked : collectStored events submitted = .ok collected) :
    collected = submitted ∪ eventPages events := by
  induction events generalizing submitted with
  | nil =>
      simp only [collectStored, Except.ok.injEq] at checked
      simp [eventPages, checked]
  | cons event rest ih =>
      rcases event with error | (_ | ⟨_, _, page⟩ | _)
      · simp [collectStored] at checked
      · exact ih checked
      · rw [ih checked]
        simp [eventPages, Finset.insert_union, Finset.union_insert]
      · exact ih checked

theorem awaitPageTxs_stored (stored : Finset Nat) (remaining : Nat)
    (pending : List (Nat × TxHandle)) (failed submitted : Finset Nat) (seen : submitted ⊆ stored) :
    wp (storedMonitor (T := T)) (awaitPageTxs remaining pending failed submitted)
      (fun outcome _ after => stored ⊆ after ∧ ∀ result, outcome = .ok result →
        result.2 ⊆ after) () stored := by
  induction remaining generalizing pending failed submitted stored with
  | zero => simp [awaitPageTxs, seen]
  | succ remaining ih =>
      simp only [awaitPageTxs, wp_bind, wp_ask, followedBy_ok]
      refine ⟨trivial, ?_⟩
      rintro ⟨choice, result⟩ _
      simp only [storedMonitor_next, storedIn, Finset.union_empty]
      split
      · simp [seen]
      · simp only [wp_bind, wp_ask, forall_read, storedMonitor_next, storedIn, wp_rpc_error,
          wp_rpc_ok, followedBy_ok, followedBy_err, Finset.union_empty]
        refine ⟨trivial, by simp, ?_⟩
        intro events _
        cases collected : collectStored events submitted with
        | error error => simp
        | ok collection =>
            have same := collectStored_eq collected
            have inside : collection ⊆ stored ∪ eventPages events :=
              same ▸ Finset.union_subset_union_left seen
            simp only [wp_rpc_ok, followedBy_ok]
            refine wp_mono (ih (stored ∪ eventPages events) _ failed collection inside) ?_
            rintro outcome _ after ⟨grows, reported⟩
            exact ⟨Finset.subset_union_left.trans grows, reported⟩
      · exact ih stored _ _ submitted seen

theorem submitPagesBatch_stored (stored : Finset Nat) (pages : List (Nat × T.Solution))
    (round minBlocks : Nat) :
    wp storedMonitor (submitPagesBatch pages round minBlocks)
      (fun outcome _ after => stored ⊆ after ∧ ∀ result, outcome = .ok result →
        ∀ page ∈ pages.map Prod.fst, page ∈ after ∨ page ∈ result.failedPages) () stored := by
  unfold submitPagesBatch
  refine (readPhase_issues .validation).seq (storedMonitor_quiet (by simp)) ?_ (by simp) (by simp)
  intro phase _
  refine (validateSignedPhaseOrBail_issues phase round minBlocks).seq
    (storedMonitor_quiet (by simp)) ?_ (by simp) (by simp)
  intro _ _
  simp only [wp_bind, wp_ask, forall_read, storedMonitor_next, storedIn, wp_rpc_error, wp_rpc_ok,
    followedBy_ok, followedBy_err, Finset.union_empty, storedMonitor_allows, true_and]
  refine ⟨by simp, fun nonce _ => ?_⟩
  refine (submitPageTxs_issues pages nonce).keeps (storedMonitor_quiet (by simp)) ?_
  rintro (txs | error | _) _
  · simp only [followedBy_ok, wp_bind]
    refine wp_mono (awaitPageTxs_stored stored txs.length txs ∅ ∅ (Finset.empty_subset _)) ?_
    rintro (⟨failed, submitted⟩ | error | _) _ after ⟨grows, reported⟩
    · have collected := reported _ rfl
      simp only [followedBy_ok, wp_bind, wp_ask, storedMonitor_next, storedIn,
        Finset.union_empty, wp_return]
      refine ⟨trivial, ?_⟩
      rintro ⟨order, nodup, members⟩ _
      refine ⟨grows, ?_⟩
      intro result finished page member
      simp only [Outcome.ok.injEq] at finished
      subst result
      by_cases saw : page ∈ submitted
      · exact Or.inl (collected saw)
      · refine Or.inr ((members page).mpr (Finset.mem_union_right _ ?_))
        exact Finset.mem_sdiff.mpr ⟨List.mem_toFinset.mpr member, saw⟩
    · exact ⟨grows, by simp⟩
    · exact ⟨grows, by simp⟩
  · simp
  · simp

theorem chunksFrom_nil {α : Type} (size fuel : Nat) : chunksFrom size fuel ([] : List α) = [] := by
  cases fuel <;> rfl

theorem chunks_single {α : Type} {size : Nat} {elements : List α} (nonempty : elements ≠ [])
    (small : elements.length ≤ size) : chunks size elements = [elements] := by
  cases elements with
  | nil => contradiction
  | cons first rest =>
      simp only [chunks, List.length_cons, chunksFrom]
      rw [List.take_of_length_le small, List.drop_eq_nil_of_le small, chunksFrom_nil]

theorem reportBatch_stored (stored : Finset Nat) (pages : List (Nat × T.Solution))
    (round minBlocks : Nat) {report : SubmissionResult → Task T (List Nat)}
    (reports : ∀ result, report result = pure result.failedPages) :
    wp storedMonitor (submitPagesBatch pages round minBlocks >>= report)
      (fun outcome _ after => stored ⊆ after ∧ ∀ failed, outcome = .ok failed →
        ∀ page ∈ pages.map Prod.fst, page ∈ after ∨ page ∈ failed) () stored := by
  refine wp_seq (submitPagesBatch_stored stored pages round minBlocks) ?_ (by simp) (by simp)
  rintro result _ after ⟨grows, reported⟩
  rw [reports, wp_return]
  refine ⟨grows, ?_⟩
  rintro _ ⟨⟩
  exact reported result rfl

theorem innerSubmitPages_stored (stored : Finset Nat) (pages : List (Nat × T.Solution))
    (chunkSize round minBlocks : Nat) (oneBatch : chunkSize = 0 ∨ pages.length ≤ chunkSize) :
    wp storedMonitor (innerSubmitPages pages chunkSize round minBlocks)
      (fun outcome _ after => stored ⊆ after ∧ ∀ failed, outcome = .ok failed →
        ∀ page ∈ pages.map Prod.fst, page ∈ after ∨ page ∈ failed) () stored := by
  unfold innerSubmitPages
  split
  · refine reportBatch_stored stored pages round minBlocks ?_
    rintro ⟨_ | _, submitted⟩ <;> rfl
  · rename_i positive
    have small : pages.length ≤ chunkSize := by omega
    simp only [innerSubmitPagesChunked, positive, ↓reduceIte]
    by_cases empty : pages = []
    · subst pages
      simp [chunks, chunksFrom_nil, submitChunks]
    · rw [chunks_single empty small]
      simp only [submitChunks]
      refine (readPhase_issues .validation).seq (storedMonitor_quiet (by simp)) ?_
        (by simp) (by simp)
      intro phase _
      refine (validateSignedPhaseOrBail_issues phase round minBlocks).seq
        (storedMonitor_quiet (by simp)) ?_ (by simp) (by simp)
      intro _ _
      refine reportBatch_stored stored pages round minBlocks ?_
      rintro ⟨_ | _, submitted⟩
      · simp [SubmissionResult.allSuccessful]
      · rfl

theorem retryFailedPages_stored (solutionPages : List T.Solution) (failed : List Nat)
    (chunkSize round minBlocks : Nat) (oneBatch : chunkSize = 0 ∨ failed.length ≤ chunkSize)
    (inside : ∀ page ∈ failed, page < solutionPages.length) :
    wp storedMonitor (retryFailedPages solutionPages failed chunkSize round minBlocks)
      (fun outcome _ after => outcome = .ok () → stored ⊆ after ∧ ∀ page ∈ failed, page ∈ after)
      () stored := by
  unfold retryFailedPages
  refine (revalidate_issues round minBlocks).seq (storedMonitor_quiet (by simp)) ?_
    (by simp) (by simp)
  intro _ _
  refine (takePages_issues failed solutionPages inside).seq (storedMonitor_quiet (by simp)) ?_
    (by simp) (by simp)
  rintro solutions ⟨taken, same, named⟩
  simp only [Outcome.ok.injEq] at same
  subst same
  have sameLength : solutions.length = failed.length := by
    simpa using congrArg List.length named
  refine wp_seq (innerSubmitPages_stored stored solutions chunkSize round minBlocks
    (by simpa [sameLength] using oneBatch)) ?_ (by simp) (by simp)
  rintro remaining _ after ⟨grows, reported⟩
  have accounted := reported _ rfl
  rw [named] at accounted
  cases remaining with
  | nil =>
      simp only [List.isEmpty_nil, ↓reduceIte, wp_ask, storedMonitor_next, storedIn,
        Finset.union_empty]
      refine ⟨trivial, fun _ _ _ => ⟨grows, fun page member => ?_⟩⟩
      simpa using accounted page member
  | cons page rest =>
      simp only [List.isEmpty_cons, Bool.false_eq_true, ↓reduceIte]
      refine (revalidate_issues round minBlocks).seq (storedMonitor_quiet (by simp)) ?_
        (by simp) (by simp)
      simp

theorem submitAllPages_stored (solutionPages : List T.Solution) (chunkSize round minBlocks : Nat)
    (oneBatch : chunkSize = 0 ∨ solutionPages.length ≤ chunkSize) :
    wp storedMonitor (submitAllPages solutionPages chunkSize round minBlocks)
      (fun outcome _ after => outcome = .ok () → ∀ page < solutionPages.length, page ∈ after)
      () stored := by
  unfold submitAllPages
  refine wp_seq ((firstAttempt_reported solutionPages chunkSize round minBlocks).and
    (innerSubmitPages_stored stored (enumeratePages solutionPages) chunkSize round minBlocks
      (by simpa [enumeratePages_length] using oneBatch))) ?_ (by simp) (by simp)
  rintro failed _ after ⟨reported, grows, accounts⟩
  obtain ⟨nodup, inside⟩ := reported _ rfl
  have accounted := accounts _ rfl
  rw [enumeratePages_fst] at accounted
  cases failed with
  | nil =>
      simp only [List.isEmpty_nil, ↓reduceIte, wp_ask, storedMonitor_next, storedIn,
        Finset.union_empty]
      refine ⟨trivial, fun _ _ _ page bound => ?_⟩
      simpa using accounted page (List.mem_range.mpr bound)
  | cons first rest =>
      have few : (first :: rest).length ≤ solutionPages.length := by
        have bounded : (first :: rest).toFinset ⊆ Finset.range solutionPages.length := by
          intro page member
          exact Finset.mem_range.mpr (inside page (List.mem_toFinset.mp member))
        have counted := Finset.card_le_card bounded
        rwa [List.toFinset_card_of_nodup nodup, Finset.card_range] at counted
      simp only [List.isEmpty_cons, Bool.false_eq_true, ↓reduceIte]
      refine wp_mono (retryFailedPages_stored solutionPages (first :: rest) chunkSize round
        minBlocks (by omega) inside) ?_
      rintro outcome _ final finished succeeded page bound
      obtain ⟨kept, retried⟩ := finished succeeded
      rcases accounted page (List.mem_range.mpr bound) with earlier | lost
      · exact kept earlier
      · exact retried page lost

theorem submit_stored (solution : PagedRawSolution T) (chunkSize round minBlocks : Nat)
    (oneBatch : chunkSize = 0 ∨ solution.solutionPages.length ≤ chunkSize) :
    wp storedMonitor (submit solution chunkSize round minBlocks)
      (fun outcome _ after => outcome = .ok () →
        ∀ page < solution.solutionPages.length, page ∈ after) () stored := by
  have step {α : Type} (task : Task T α) (rest : α → Task T Unit)
      (later : ∀ value stored, wp storedMonitor (rest value) (fun outcome _ after =>
        outcome = .ok () → ∀ page < solution.solutionPages.length, page ∈ after) () stored)
      (stored : Finset Nat) :
      wp storedMonitor (task >>= rest) (fun outcome _ after =>
        outcome = .ok () → ∀ page < solution.solutionPages.length, page ∈ after) () stored :=
    wp_seq (wp_trivial storedMonitor_permissive task () stored)
      (fun value _ after _ => later value after) (by simp) (by simp)
  unfold submit
  refine step _ _ (fun _ => step _ _ fun _ => step _ _ fun _ => step _ _ fun _ =>
    step _ _ fun _ stored => ?_) stored
  exact submitAllPages_stored solution.solutionPages chunkSize round minBlocks oneBatch

end LeanStakingMiner
