import StakingMiner.MinerLogic
import StakingMiner.StoredPages

/-!
Submissions of which only some pages are stored. A scripted node answers every call,
keeps the signed phase open and loses the watches of the page transactions sent while
`loses` holds of their number; it respects what subxt guarantees about transactions.
-/

namespace LeanStakingMiner

open LeanProgram

variable {T : MinerConfig}

structure NodeLog (T : MinerConfig) where
  sent : List (Transaction T)
  stored : Finset Nat

def sentBy : (op : Op T) → Resp op → List (Transaction T)
  | .submitAndWatch transaction _ _, .ok _ => [transaction]
  | _, _ => []

def NodeLog.next (log : NodeLog T) (op : Op T) (answer : Resp op) : NodeLog T :=
  ⟨log.sent ++ sentBy op answer, log.stored ∪ storedIn op answer⟩

/-- What subxt guarantees of transactions: a handle counts the transactions submitted
before it, finalization keeps the handle, and the events of a transaction name a page
only if the transaction submitted that page. -/
def subxtMonitor : Monitor (Op T) Resp (NodeLog T) where
  expects log op answer :=
    match op, answer with
    | .submitAndWatch _ _ _, .ok tx => tx = log.sent.length
    | .waitForFinalized tx, .ok inBlock => inBlock = tx
    | .nextFinalized pending, (choice, .ok inBlock) =>
        ∃ page, pending[choice % pending.length]? = some (page, inBlock)
    | .waitForSuccess tx, .ok events =>
        ∀ page ∈ eventPages events, ∃ solution, log.sent[tx]? = some (.submitPage page solution)
    | _, _ => True
  allows _ _ := True
  next := NodeLog.next

@[simp] theorem subxtMonitor_next (log : NodeLog T) (op : Op T) (answer : Resp op) :
    subxtMonitor.next log op answer = log.next op answer := rfl

theorem subxtMonitor_after_stored (log : NodeLog T) (trace : MinerTrace T) :
    (subxtMonitor.after log trace).stored = log.stored ∪ storedPages trace := by
  induction trace generalizing log with
  | nil => simp [storedPages]
  | cons event rest ih =>
      rw [Monitor.after_cons, ih]
      exact Finset.union_assoc _ _ _

def ExtrinsicEvents (trace : MinerTrace T) : Prop := subxtMonitor.Expected ⟨[], ∅⟩ trace

def transactionEvents : Option (Transaction T) → List (Read ChainEvent)
  | some (.submitPage page _) => [.ok (.stored 0 0 page)]
  | some (.registerScore score) => [.ok (.registered 0 0 score)]
  | _ => []

def node (blocks : Nat) (loses : Nat → Bool) (log : NodeLog T) : (op : Op T) → Resp op
  | .storageAtHead | .atCurrentBlock => .ok 0
  | .currentPhase _ _ => .ok (some (.signed blocks))
  | .accountNonce => .ok 0
  | .createSigned _ _ => .ok ()
  | .submitAndWatch _ _ _ => .ok log.sent.length
  | .waitForFinalized tx => .ok tx
  | .nextFinalized [] => (0, .error .backendError)
  | .nextFinalized ((_, tx) :: _) =>
      (0, if loses log.sent.length then .error .transactionProgressError else .ok tx)
  | .waitForSuccess tx => .ok (transactionEvents log.sent[tx]?)
  | op => unavailable op

def nodeEnv (blocks : Nat) (loses : Nat → Bool) : MinerEnv T :=
  subxtMonitor.play ⟨[], ∅⟩ (node blocks loses)

theorem node_expected (blocks : Nat) (loses : Nat → Bool) (log : NodeLog T) (op : Op T) :
    subxtMonitor.expects log op (node blocks loses log op) := by
  cases op with
  | submitAndWatch _ _ _ => exact rfl
  | waitForFinalized tx => exact rfl
  | nextFinalized pending =>
      cases pending with
      | nil => trivial
      | cons first rest =>
          obtain ⟨page, tx⟩ := first
          cases lost : loses log.sent.length with
          | true => simp [subxtMonitor, node, lost]
          | false => simp [subxtMonitor, node, lost]
  | waitForSuccess tx =>
      intro page member
      unfold transactionEvents at member
      split at member
      · rename_i named solution found
        refine ⟨solution, ?_⟩
        simp only [eventPages, insert_empty_eq, Finset.mem_singleton] at member
        rw [member, found]
      · simp [eventPages] at member
      · simp [eventPages] at member
  | _ => trivial

section Scripted

variable {σ : Type} {script : NodeLog T → (op : Op T) → Resp op}
variable {blocks round minBlocks : Nat} {loses : Nat → Bool} {log : NodeLog T}

@[simp high] theorem wp_scripted_ask (op : Op T) {store : σ}
    {post : Outcome Error (Resp op) → σ → NodeLog T → Prop} :
    wp (α := no_index (Resp op)) (subxtMonitor.scripted script) (ask op) post store log ↔
      post (.ok (script log op)) store (log.next op (script log op)) := by
  constructor
  · rintro ⟨_, answered⟩
    exact answered _ rfl
  · rintro holds
    refine ⟨trivial, ?_⟩
    rintro _ rfl
    exact holds

@[simp] theorem node_readPhase (reader : PhaseReader)
    {post : Outcome Error Phase → Unit → NodeLog T → Prop} :
    wp (subxtMonitor.scripted (node blocks loses)) (readPhase reader) post () log ↔
      post (.ok (.signed blocks)) () log := by
  simp [readPhase, node, NodeLog.next, sentBy, storedIn]

theorem node_validate (enough : minBlocks < blocks)
    {post : Outcome Error Unit → Unit → NodeLog T → Prop} :
    wp (subxtMonitor.scripted (node blocks loses))
      (validateSignedPhaseOrBail (.signed blocks) round minBlocks) post () log ↔
      post (.ok ()) () log := by
  have more : ¬blocks ≤ minBlocks := by omega
  simp [validateSignedPhaseOrBail, more]

theorem node_revalidate (enough : minBlocks < blocks)
    {post : Outcome Error Unit → Unit → NodeLog T → Prop} :
    wp (subxtMonitor.scripted (node blocks loses)) (revalidate round minBlocks) post () log ↔
      post (.ok ()) () log := by
  simp [revalidate, node_validate enough]

@[simp] theorem node_submitInner (transaction : Transaction T) (nonce remaining : Nat)
    {post : Outcome Error TxHandle → Unit → NodeLog T → Prop} :
    wp (subxtMonitor.scripted (node blocks loses)) (submitInner transaction nonce remaining)
      post () log ↔ post (.ok log.sent.length) () ⟨log.sent ++ [transaction], log.stored⟩ := by
  simp [submitInner, node, NodeLog.next, sentBy, storedIn]

@[simp] theorem node_registerAndConfirm (score : ElectionScore) (remaining : Nat)
    {post : Outcome Error Unit → Unit → NodeLog T → Prop} :
    wp (subxtMonitor.scripted (node blocks loses)) (registerAndConfirm score remaining)
      post () log ↔ post (.ok ()) () ⟨log.sent ++ [Transaction.registerScore score], log.stored⟩ := by
  simp [registerAndConfirm, registerLoop, registerAttempt, node, NodeLog.next, sentBy, storedIn,
    caught, transactionEvents, hasRegistered, eventPages]

def pageTransaction (entry : Nat × T.Solution) : Transaction T :=
  .submitPage entry.1 (some entry.2)

def Handles (sent : List (Transaction T)) (txs : List (Nat × TxHandle)) : Prop :=
  ∀ entry ∈ txs, ∃ solution, sent[entry.2]? = some (.submitPage entry.1 solution)

theorem node_submitPageTxs (pages : List (Nat × T.Solution)) (nonce : Nat) (log : NodeLog T) :
    wp (subxtMonitor.scripted (node blocks loses)) (submitPageTxs pages nonce)
      (fun outcome _ after => after = ⟨log.sent ++ pages.map pageTransaction, log.stored⟩ ∧
        ∃ txs, outcome = .ok txs ∧ txs.map Prod.fst = pages.map Prod.fst ∧
          Handles after.sent txs) () log := by
  induction pages generalizing nonce log with
  | nil => simp [submitPageTxs, Handles]
  | cons entry rest ih =>
      obtain ⟨page, solution⟩ := entry
      simp only [submitPageTxs, wp_bind, node_readPhase, followedBy_ok,
        getSignedPhaseBlocksRemaining, wp_return, node_submitInner]
      refine wp_mono (ih (nonce + 1)
        ⟨log.sent ++ [Transaction.submitPage page (some solution)], log.stored⟩) ?_
      rintro outcome _ after ⟨extended, txs, rfl, named, handles⟩
      simp only [followedBy_ok, wp_return]
      refine ⟨by simp [extended, pageTransaction], _, rfl, by simp [named], ?_⟩
      intro other member
      rcases List.mem_cons.mp member with rfl | later
      · exact ⟨some solution, by simp [extended]⟩
      · exact handles other later

theorem node_awaitPageTxs_lost (log : NodeLog T) (pending : List (Nat × TxHandle))
    (failed submitted : Finset Nat) (lost : loses log.sent.length = true) :
    wp (subxtMonitor.scripted (node blocks loses))
      (awaitPageTxs pending.length pending failed submitted)
      (fun outcome _ after => after = log ∧
        outcome = .ok (failed ∪ (pending.map Prod.fst).toFinset, submitted)) () log := by
  induction pending generalizing failed with
  | nil => simp [awaitPageTxs]
  | cons entry rest ih =>
      have later := ih (insert entry.1 failed)
      simpa [awaitPageTxs, node, NodeLog.next, sentBy, storedIn, lost, Finset.insert_union,
        Finset.union_insert] using later

theorem node_awaitPageTxs_kept (log : NodeLog T) (pending : List (Nat × TxHandle))
    (failed submitted : Finset Nat) (kept : loses log.sent.length = false)
    (handles : Handles log.sent pending) :
    wp (subxtMonitor.scripted (node blocks loses))
      (awaitPageTxs pending.length pending failed submitted)
      (fun outcome _ after =>
        after = ⟨log.sent, log.stored ∪ (pending.map Prod.fst).toFinset⟩ ∧
        outcome = .ok (failed, submitted ∪ (pending.map Prod.fst).toFinset)) () log := by
  induction pending generalizing submitted log with
  | nil => simp [awaitPageTxs]
  | cons entry rest ih =>
      obtain ⟨solution, found⟩ := handles entry (by simp)
      have later := ih ⟨log.sent, log.stored ∪ {entry.1}⟩ (insert entry.1 submitted) kept
        fun other member => handles other (by simp [member])
      simpa [awaitPageTxs, node, NodeLog.next, sentBy, storedIn, eventPages, kept, found,
        transactionEvents, collectStored, Finset.insert_union, Finset.union_insert] using later

theorem node_submitPagesBatch (pages : List (Nat × T.Solution)) (enough : minBlocks < blocks)
    (failed submitted stored : Finset Nat)
    (awaited : ∀ txs, txs.map Prod.fst = pages.map Prod.fst →
      Handles (log.sent ++ pages.map pageTransaction) txs →
      wp (subxtMonitor.scripted (node blocks loses)) (awaitPageTxs txs.length txs ∅ ∅)
        (fun outcome _ after => after = ⟨log.sent ++ pages.map pageTransaction, stored⟩ ∧
          outcome = .ok (failed, submitted))
        () ⟨log.sent ++ pages.map pageTransaction, log.stored⟩) :
    wp (subxtMonitor.scripted (node blocks loses)) (submitPagesBatch pages round minBlocks)
      (fun outcome _ after => after = ⟨log.sent ++ pages.map pageTransaction, stored⟩ ∧
        ∃ result, outcome = .ok result ∧ result.failedPages.Nodup ∧
          ∀ page, page ∈ result.failedPages ↔
            page ∈ failed ∪ ((pages.map Prod.fst).toFinset \ submitted)) () log := by
  simp only [submitPagesBatch, wp_bind, node_readPhase, followedBy_ok, node_validate enough,
    wp_scripted_ask, node, NodeLog.next, sentBy, storedIn, List.append_nil, Finset.union_empty,
    wp_rpc_ok]
  refine wp_mono (node_submitPageTxs pages 0 log) ?_
  rintro outcome _ after ⟨rfl, txs, rfl, named, handles⟩
  simp only [followedBy_ok, wp_bind]
  refine wp_mono (awaited txs named handles) ?_
  rintro _ _ _ ⟨rfl, rfl⟩
  simp only [followedBy_ok, wp_bind, wp_scripted_ask, wp_return, node, unavailable, NodeLog.next,
    sentBy, storedIn, List.append_nil, Finset.union_empty]
  exact ⟨trivial, _, rfl, by simp, by simp⟩

theorem node_submitPagesBatch_lost (pages : List (Nat × T.Solution)) (enough : minBlocks < blocks)
    (lost : loses (log.sent.length + pages.length) = true) :
    wp (subxtMonitor.scripted (node blocks loses)) (submitPagesBatch pages round minBlocks)
      (fun outcome _ after => after = ⟨log.sent ++ pages.map pageTransaction, log.stored⟩ ∧
        ∃ result, outcome = .ok result ∧ result.failedPages.Nodup ∧
          ∀ page, page ∈ result.failedPages ↔ page ∈ pages.map Prod.fst) () log := by
  refine wp_mono (node_submitPagesBatch pages enough (pages.map Prod.fst).toFinset ∅ log.stored
    ?_) ?_
  · intro txs named _
    rw [← named]
    simpa using node_awaitPageTxs_lost ⟨log.sent ++ pages.map pageTransaction, log.stored⟩ txs ∅ ∅
      (by simpa using lost)
  · rintro outcome _ after ⟨extended, result, finished, nodup, members⟩
    exact ⟨extended, result, finished, nodup, fun page => by simp [members page]⟩

theorem node_submitPagesBatch_kept (pages : List (Nat × T.Solution)) (enough : minBlocks < blocks)
    (kept : loses (log.sent.length + pages.length) = false) :
    wp (subxtMonitor.scripted (node blocks loses)) (submitPagesBatch pages round minBlocks)
      (fun outcome _ after => after = ⟨log.sent ++ pages.map pageTransaction,
          log.stored ∪ (pages.map Prod.fst).toFinset⟩ ∧
        ∃ result, outcome = .ok result ∧ result.failedPages = []) () log := by
  refine wp_mono (node_submitPagesBatch pages enough ∅ (pages.map Prod.fst).toFinset
    (log.stored ∪ (pages.map Prod.fst).toFinset) ?_) ?_
  · intro txs named handles
    rw [← named]
    simpa using node_awaitPageTxs_kept ⟨log.sent ++ pages.map pageTransaction, log.stored⟩ txs ∅ ∅
      (by simpa using kept) handles
  · rintro outcome _ after ⟨extended, result, finished, _, members⟩
    refine ⟨extended, result, finished, List.eq_nil_iff_forall_not_mem.mpr fun page member => ?_⟩
    simpa using (members page).mp member

def firstBatch (chunkSize : Nat) (pages : List (Nat × T.Solution)) : List (Nat × T.Solution) :=
  if chunkSize = 0 then pages else pages.take chunkSize

theorem node_innerSubmitPages_lost (pages : List (Nat × T.Solution)) (chunkSize : Nat)
    (enough : minBlocks < blocks) (nonempty : pages ≠ [])
    (lost : loses (log.sent.length + (firstBatch chunkSize pages).length) = true) :
    wp (subxtMonitor.scripted (node blocks loses))
      (innerSubmitPages pages chunkSize round minBlocks)
      (fun outcome _ after =>
        after = ⟨log.sent ++ (firstBatch chunkSize pages).map pageTransaction, log.stored⟩ ∧
        ∃ failed, outcome = .ok failed ∧ failed.Nodup ∧
          ∀ page, page ∈ failed ↔ page ∈ (firstBatch chunkSize pages).map Prod.fst) () log := by
  obtain ⟨first, rest, rfl⟩ := List.exists_cons_of_ne_nil nonempty
  by_cases concurrent : chunkSize = 0
  · subst chunkSize
    simp only [innerSubmitPages, ↓reduceIte, innerSubmitPagesConcurrent]
    refine wp_seq (node_submitPagesBatch_lost (first :: rest) enough lost) ?_ (by simp) (by simp)
    rintro ⟨failed, submitted⟩ _ _ ⟨rfl, result, same, nodup, members⟩
    simp only [Outcome.ok.injEq] at same
    subst same
    cases failed with
    | nil => simpa using members first.1
    | cons page others =>
        simp only [SubmissionResult.allSuccessful, List.isEmpty_cons, Bool.false_eq_true,
          ↓reduceIte, wp_return]
        exact ⟨rfl, _, rfl, nodup, members⟩
  · have batch : firstBatch chunkSize (first :: rest) = (first :: rest).take chunkSize := by
      simp [firstBatch, concurrent]
    rw [batch] at lost ⊢
    simp only [innerSubmitPages, concurrent, ↓reduceIte, innerSubmitPagesChunked, chunks,
      List.length_cons, chunksFrom, submitChunks, wp_bind, node_readPhase, followedBy_ok,
      node_validate enough]
    refine wp_mono (node_submitPagesBatch_lost _ enough lost) ?_
    rintro _ _ _ ⟨rfl, ⟨failed, submitted⟩, rfl, nodup, members⟩
    have sent : first ∈ (first :: rest).take chunkSize := by
      obtain ⟨size, rfl⟩ := Nat.exists_eq_succ_of_ne_zero concurrent
      simp
    cases failed with
    | nil => simpa using (members first.1).mpr (List.mem_map_of_mem sent)
    | cons page others =>
        simp only [followedBy_ok, SubmissionResult.allSuccessful, List.isEmpty_cons,
          Bool.false_eq_true, ↓reduceIte, wp_return]
        exact ⟨trivial, _, rfl, nodup, members⟩

theorem node_innerSubmitPages_kept (pages : List (Nat × T.Solution)) (chunkSize : Nat)
    (enough : minBlocks < blocks) (nonempty : pages ≠ []) (small : pages.length ≤ chunkSize)
    (kept : loses (log.sent.length + pages.length) = false) :
    wp (subxtMonitor.scripted (node blocks loses))
      (innerSubmitPages pages chunkSize round minBlocks)
      (fun outcome _ after => outcome = .ok [] ∧
        after.stored = log.stored ∪ (pages.map Prod.fst).toFinset) () log := by
  have positive : chunkSize ≠ 0 := by
    have some := List.length_pos_iff.mpr nonempty
    omega
  simp only [innerSubmitPages, positive, ↓reduceIte, innerSubmitPagesChunked,
    chunks_single nonempty small, submitChunks, wp_bind, node_readPhase, followedBy_ok,
    node_validate enough]
  refine wp_mono (node_submitPagesBatch_kept pages enough kept) ?_
  rintro _ _ _ ⟨rfl, ⟨failed, submitted⟩, rfl, empty⟩
  simp only at empty
  subst failed
  simp [SubmissionResult.allSuccessful]

theorem firstBatch_enumeratePages (solutionPages : List T.Solution) (chunkSize : Nat)
    (positive : 0 < chunkSize) (several : chunkSize < solutionPages.length) :
    (firstBatch chunkSize (enumeratePages solutionPages)).map Prod.fst = List.range chunkSize := by
  have nonzero : chunkSize ≠ 0 := by omega
  simp only [firstBatch, nonzero, ↓reduceIte, List.map_take, enumeratePages_fst, List.take_range]
  rw [Nat.min_eq_left (by omega)]

theorem node_retryFailedPages (solutionPages : List T.Solution) (failed : List Nat)
    (chunkSize : Nat) (enough : minBlocks < blocks) (nonempty : failed ≠ [])
    (small : failed.length ≤ chunkSize) (inside : ∀ page ∈ failed, page < solutionPages.length)
    (kept : loses (log.sent.length + failed.length) = false) :
    wp (subxtMonitor.scripted (node blocks loses))
      (retryFailedPages solutionPages failed chunkSize round minBlocks)
      (fun outcome _ after => outcome = .ok () ∧ after.stored = log.stored ∪ failed.toFinset)
      () log := by
  simp only [retryFailedPages, wp_bind, node_revalidate enough, followedBy_ok]
  refine (takePages_issues failed solutionPages inside).keeps (by simp) ?_
  rintro _ ⟨solutions, rfl, named⟩
  have retried : solutions.length = failed.length := by
    rw [← named, List.length_map]
  have again : solutions ≠ [] := by
    intro empty
    rw [empty, List.map_nil] at named
    exact nonempty named.symm
  simp only [followedBy_ok, wp_bind]
  refine wp_mono (node_innerSubmitPages_kept solutions chunkSize enough again (by omega)
    (by rw [retried, kept])) ?_
  rintro _ _ after ⟨rfl, stored⟩
  rw [named] at stored
  simp only [followedBy_ok, List.isEmpty_nil, ↓reduceIte, wp_scripted_ask, NodeLog.next, storedIn,
    node, unavailable, stored, Finset.union_empty, true_and]

theorem node_submit (solution : PagedRawSolution T) (chunkSize round minBlocks : Nat)
    (positive : 0 < chunkSize) (several : chunkSize < solution.solutionPages.length) :
    wp (subxtMonitor.scripted (node (minBlocks + 1) (· ≤ 1 + chunkSize)))
      (submit solution chunkSize round minBlocks)
      (fun outcome _ after => outcome = .ok () ∧ after.stored = Finset.range chunkSize)
      () ⟨[], ∅⟩ := by
  have enough : minBlocks < minBlocks + 1 := by omega
  have sentFirst := firstBatch_enumeratePages solution.solutionPages chunkSize positive several
  have firstLength : (firstBatch chunkSize (enumeratePages solution.solutionPages)).length =
      chunkSize := by
    simpa using congrArg List.length sentFirst
  have nonempty : enumeratePages solution.solutionPages ≠ [] := by
    rw [← List.length_pos_iff, enumeratePages_length]
    omega
  simp only [submit, wp_bind, followedBy_ok, node_readPhase, node_validate enough,
    getSignedPhaseBlocksRemaining, wp_return, node_registerAndConfirm, node_revalidate enough,
    submitAllPages]
  refine wp_mono (node_innerSubmitPages_lost _ chunkSize enough nonempty (by simp [firstLength])) ?_
  rintro _ _ _ ⟨rfl, failed, rfl, nodup, members⟩
  rw [sentFirst] at members
  have failedLength : failed.length = chunkSize := by
    have same : failed.Perm (List.range chunkSize) :=
      (List.perm_ext_iff_of_nodup nodup List.nodup_range).mpr members
    simpa using same.length_eq
  have some : failed ≠ [] := by
    rw [← List.length_pos_iff]
    omega
  have inside (page : Nat) (member : page ∈ failed) : page < solution.solutionPages.length := by
    have bound := List.mem_range.mp ((members page).mp member)
    omega
  simp only [followedBy_ok, List.isEmpty_iff, some, ↓reduceIte]
  refine wp_mono (node_retryFailedPages solution.solutionPages failed chunkSize enough some
    (by omega) inside ?_) ?_
  · simp only [List.nil_append, List.length_append, List.length_map, List.length_cons,
      List.length_nil, firstLength, failedLength, decide_eq_false_iff_not]
    omega
  · rintro _ _ after ⟨rfl, stored⟩
    refine ⟨rfl, ?_⟩
    rw [stored, Finset.empty_union]
    ext page
    simp [members page]

end Scripted

theorem submit_lost_chunk (solution : PagedRawSolution T) (chunkSize round minBlocks : Nat)
    (positive : 0 < chunkSize) (several : chunkSize < solution.solutionPages.length) :
    let result := run (nodeEnv (minBlocks + 1) (· ≤ 1 + chunkSize))
      (submit solution chunkSize round minBlocks) () []
    ExtrinsicEvents result.trace ∧ result.outcome = .ok () ∧
      storedPages result.trace = Finset.range chunkSize := by
  intro result
  have finished := run_play [] (node_submit solution chunkSize round minBlocks positive several)
  rw [Monitor.after_nil, subxtMonitor_after_stored, Finset.empty_union] at finished
  exact ⟨expected_play (node_expected _ _) _ _ [], finished⟩

/-- A successful `submit` has seen every page stored exactly when one batch takes all
pages: otherwise a failed chunk keeps the later chunks from being sent, and the retry
that makes the call succeed covers the failed chunk only. -/
theorem submit_stores_every_page_iff (solution : PagedRawSolution T)
    (chunkSize round minBlocks : Nat) :
    (∀ env : MinerEnv T,
      let result := run env (submit solution chunkSize round minBlocks) () []
      ExtrinsicEvents result.trace → result.outcome = .ok () →
        ∀ page < solution.solutionPages.length, page ∈ storedPages result.trace) ↔
      chunkSize = 0 ∨ solution.solutionPages.length ≤ chunkSize := by
  constructor
  · intro stored
    by_contra several
    obtain ⟨expected, succeeded, pages⟩ := submit_lost_chunk solution chunkSize round minBlocks
      (by omega) (by omega)
    have unsent := stored _ expected succeeded chunkSize (by omega)
    rw [pages] at unsent
    simp at unsent
  · intro oneBatch env result _ succeeded page bound
    have holds := (wp_run env [] (submit_stored solution chunkSize round minBlocks oneBatch)
      (storedMonitor_expected ∅ _)).2 succeeded page bound
    rwa [storedMonitor_after, Finset.empty_union] at holds

/-- Two pages in chunks of one: page 0 is lost and retried, page 1 is never sent, and the
submission reports success. -/
theorem submit_skips_the_second_chunk :
    let result := run (nodeEnv 11 (· ≤ 2))
      (submit (⟨[3, 4], ⟨1, 1, 1⟩, 7⟩ : PagedRawSolution sampleConfig) 1 7 10) () []
    ExtrinsicEvents result.trace ∧ result.outcome = .ok () ∧ 1 ∉ storedPages result.trace := by
  obtain ⟨expected, succeeded, pages⟩ := submit_lost_chunk
    (⟨[3, 4], ⟨1, 1, 1⟩, 7⟩ : PagedRawSolution sampleConfig) 1 7 10 (by simp) (by simp)
  refine ⟨expected, succeeded, ?_⟩
  rw [pages]
  decide

theorem storedPages_append (first second : MinerTrace T) :
    storedPages (first ++ second) = storedPages first ∪ storedPages second := by
  induction first with
  | nil => simp [storedPages]
  | cons event rest ih => simp only [List.cons_append, storedPages, ih, Finset.union_assoc]

theorem resumeSubmission_lost (config : ProcessConfig) (round : Nat)
    (submission : IncompleteSubmission) (solution : PagedRawSolution T)
    (missing : submission.getMissingPages ≠ [])
    (inside : ∀ page ∈ submission.getMissingPages, page < solution.solutionPages.length) :
    let result := run (nodeEnv (config.minSignedPhaseBlocks + 1) fun _ => true)
      (resumeSubmission config round submission solution) () []
    ExtrinsicEvents result.trace ∧ result.outcome = .ok () ∧
      ⟨.metric .submissionSuccess, ()⟩ ∈ result.trace ∧ storedPages result.trace = ∅ := by
  intro result
  obtain ⟨solutions, taken, named⟩ := missingSolutions_inside solution.solutionPages _ inside
  have nonempty : solutions ≠ [] := by
    rintro rfl
    exact missing named.symm
  have lost : wp (subxtMonitor.scripted (node (config.minSignedPhaseBlocks + 1) fun _ => true))
      (innerSubmitPages solutions config.chunkSize round config.minSignedPhaseBlocks)
      (fun outcome _ after => (∃ failed, outcome = .ok failed) ∧ after.stored = ∅) () ⟨[], ∅⟩ := by
    refine wp_mono (node_innerSubmitPages_lost solutions config.chunkSize (Nat.lt_succ_self _)
      nonempty rfl) ?_
    rintro _ _ _ ⟨rfl, failed, rfl, _⟩
    exact ⟨⟨failed, rfl⟩, rfl⟩
  obtain ⟨⟨failed, finished⟩, stored⟩ := run_play [] lost
  rw [Monitor.after_nil, subxtMonitor_after_stored, Finset.empty_union] at stored
  have untimed := run_resumeSubmission (nodeEnv (config.minSignedPhaseBlocks + 1) fun _ => true)
    (fun _ _ => rfl) config round submission solution taken
  rw [run_bind] at untimed
  refine ⟨expected_play (node_expected _ _) _ _ [], ?_⟩
  simp only [result, untimed, nodeEnv, Result.andThen, finished]
  refine ⟨rfl, List.mem_append_right _ (List.mem_singleton_self _), ?_⟩
  rw [storedPages_append, stored]
  rfl

/-- The resume branch reports success only with every missing page stored exactly when
it has no page to send: nothing is missing, or an index outside the solution stops it.
The failed pages that the page strategies return are never looked at. -/
theorem resume_stores_missing_pages_iff (config : ProcessConfig) (round : Nat)
    (submission : IncompleteSubmission) (solution : PagedRawSolution T) :
    (∀ env : MinerEnv T,
      let result := run env (resumeSubmission config round submission solution) () []
      ExtrinsicEvents result.trace → result.outcome = .ok () →
        ⟨.metric .submissionSuccess, ()⟩ ∈ result.trace →
        ∀ page ∈ submission.getMissingPages, page ∈ storedPages result.trace) ↔
      submission.getMissingPages = [] ∨
        ∃ page ∈ submission.getMissingPages, solution.solutionPages.length ≤ page := by
  constructor
  · intro stored
    by_contra sends
    rw [not_or] at sends
    obtain ⟨missing, inside⟩ := sends
    have bounds (page : Nat) (member : page ∈ submission.getMissingPages) :
        page < solution.solutionPages.length := by
      by_contra beyond
      exact inside ⟨page, member, by omega⟩
    obtain ⟨expected, succeeded, recorded, none⟩ :=
      resumeSubmission_lost config round submission solution missing bounds
    obtain ⟨page, member⟩ := List.exists_mem_of_ne_nil _ missing
    have seen := stored _ expected succeeded recorded page member
    rw [none] at seen
    simp at seen
  · rintro (nothing | outside) env result _ succeeded _ page member
    · simp [nothing] at member
    · have aborted : result.outcome = .panic := by
        simp only [result, resumeSubmission, missingSolutions_outside _ _ outside]
        rfl
      rw [aborted] at succeeded
      contradiction

/-- Page 1 of two is missing, its transaction is lost, and the resumed submission still
counts as a success. -/
theorem resume_reports_a_lost_page :
    let result := run (nodeEnv 11 fun _ => true) (resumeSubmission
      ⟨.ifLeading, false, 0, 10, false⟩ 7 ⟨⟨1, 1, 1⟩, {0}, 2⟩
      (⟨[3, 4], ⟨1, 1, 1⟩, 7⟩ : PagedRawSolution sampleConfig)) () []
    ExtrinsicEvents result.trace ∧ result.outcome = .ok () ∧
      ⟨.metric .submissionSuccess, ()⟩ ∈ result.trace ∧ 1 ∉ storedPages result.trace := by
  obtain ⟨expected, succeeded, recorded, none⟩ := resumeSubmission_lost
    ⟨.ifLeading, false, 0, 10, false⟩ 7 ⟨⟨1, 1, 1⟩, {0}, 2⟩
    (⟨[3, 4], ⟨1, 1, 1⟩, 7⟩ : PagedRawSolution sampleConfig) (by decide) (by decide)
  refine ⟨expected, succeeded, recorded, ?_⟩
  rw [none]
  decide

end LeanStakingMiner
