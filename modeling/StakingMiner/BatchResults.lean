import Mathlib.Data.Finset.Union
import Mathlib.Data.List.Perm.Basic
import StakingMiner.StoredPages

/-!
The result of a batch of pages. What becomes of the page transactions is given; the node
reports it in any order, and the two sets of the result depend on the pages alone.
-/

namespace LeanStakingMiner

open LeanProgram

variable {T : MinerConfig}

/-- What becomes of each page's transaction: how its watch ends, and what the check for its
success gives once it is finalized. -/
structure BatchOutcomes where
  finalized : Nat → Read TxInBlock
  events : TxInBlock → Read (List (Read ChainEvent))

namespace BatchOutcomes

def stored (outcomes : BatchOutcomes) (page : Nat) : Finset Nat :=
  match outcomes.finalized page with
  | .ok tx =>
      match outcomes.events tx with
      | .ok events => eventPages events
      | .error _ => ∅
  | .error _ => ∅

def dropped (outcomes : BatchOutcomes) (page : Nat) : Bool := !(outcomes.finalized page).isOk

/-- The pallet stores, and says so, only the page that a transaction submits. -/
def OwnPages (outcomes : BatchOutcomes) : Prop := ∀ page, outcomes.stored page ⊆ {page}

variable {outcomes : BatchOutcomes}

theorem stored_of_dropped {page : Nat} (lost : outcomes.dropped page = true) :
    outcomes.stored page = ∅ := by
  unfold dropped at lost
  unfold stored
  cases finalized : outcomes.finalized page with
  | ok tx => simp [finalized, Except.isOk, Except.toBool] at lost
  | error error => rfl

theorem OwnPages.dropped_subset (own : outcomes.OwnPages) (pages : Finset Nat) :
    pages.filter (fun page => outcomes.dropped page = true) ⊆
      pages \ pages.biUnion outcomes.stored := by
  intro page member
  obtain ⟨expected, lost⟩ := Finset.mem_filter.mp member
  refine Finset.mem_sdiff.mpr ⟨expected, fun found => ?_⟩
  obtain ⟨other, _, saw⟩ := Finset.mem_biUnion.mp found
  obtain rfl := Finset.mem_singleton.mp (own other saw)
  rw [stored_of_dropped lost] at saw
  simp at saw

end BatchOutcomes

def nonceRead : (op : Op T) → Resp op → List (Read Nat)
  | .accountNonce, answer => [answer]
  | _, _ => []

def sentWith : (op : Op T) → Resp op → List (Transaction T × Nat)
  | .submitAndWatch transaction nonce _, _ => [(transaction, nonce)]
  | _, _ => []

def nonceReads (trace : MinerTrace T) : List (Read Nat) :=
  trace.flatMap fun event => nonceRead event.1 event.2

def sentTransactions (trace : MinerTrace T) : List (Transaction T × Nat) :=
  trace.flatMap fun event => sentWith event.1 event.2

structure BatchLog (T : MinerConfig) where
  nonces : List (Read Nat)
  sent : List (Transaction T × Nat)

def batchMonitor (outcomes : BatchOutcomes) : Monitor (Op T) Resp (BatchLog T) where
  expects _ op answer :=
    match op, answer with
    | .nextFinalized pending, (choice, result) => ∀ entry,
        pending[choice % pending.length]? = some entry → result = outcomes.finalized entry.1
    | .waitForSuccess tx, events => events = outcomes.events tx
    | _, _ => True
  allows _ _ := True
  next log op answer := ⟨log.nonces ++ nonceRead op answer, log.sent ++ sentWith op answer⟩

/-- The node answers the run as the outcomes say. -/
def Follows (outcomes : BatchOutcomes) (trace : MinerTrace T) : Prop :=
  (batchMonitor outcomes).Expected ⟨[], []⟩ trace

variable {outcomes : BatchOutcomes} {log : BatchLog T}

theorem batchMonitor_after (trace : MinerTrace T) :
    (batchMonitor outcomes).after log trace =
      ⟨log.nonces ++ nonceReads trace, log.sent ++ sentTransactions trace⟩ := by
  induction trace generalizing log with
  | nil => simp [nonceReads, sentTransactions]
  | cons event rest ih =>
      rw [Monitor.after_cons, ih]
      simp [batchMonitor, nonceReads, sentTransactions]

theorem batchMonitor_silent {op : Op T} {answer : Resp op} (unread : nonceRead op answer = [])
    (unsent : sentWith op answer = []) : (batchMonitor outcomes).next log op answer = log := by
  simp [batchMonitor, unread, unsent]

theorem batchMonitor_quiet {kinds : List OpKind}
    (quiet : kinds ⊆ [.head, .phase, .submission, .other, .events]) (op : Op T)
    (member : op.kind ∈ kinds) : (batchMonitor outcomes).Ignores log op := by
  have unsigned := quiet member
  refine ⟨trivial, fun answer => ?_⟩
  cases op with
  | accountNonce => simp [Op.kind] at unsigned
  | submitAndWatch transaction nonce mortality =>
      cases transaction <;> simp [Op.kind, Transaction.kind] at unsigned
  | _ => exact batchMonitor_silent rfl rfl

theorem batchMonitor_unchanged {op : Op T} {answer : Resp op}
    (quiet : op.kind ∈ [OpKind.head, .phase, .submission, .other, .events]) :
    (batchMonitor outcomes).next log op answer = log :=
  (batchMonitor_quiet (List.Subset.refl _) op quiet).2 answer

theorem validateSignedPhaseOrBail_batch (phase : Phase) (round minBlocks : Nat) :
    wp (batchMonitor outcomes) (validateSignedPhaseOrBail phase round minBlocks)
      (fun outcome _ after => outcome = .ok () → after = log) () log := by
  by_cases enough : ∃ blocks, phase = .signed blocks ∧ minBlocks < blocks
  · obtain ⟨blocks, rfl, more⟩ := enough
    rw [validateSignedPhaseOrBail, if_neg (by omega)]
    exact fun _ => rfl
  · refine wp_mono (wp_free_of_issuing (validateSignedPhaseOrBail_issues phase round minBlocks)
      fun _ _ _ => trivial) ?_
    rintro outcome _ after ⟨_, signed⟩ finished
    exact absurd (signed finished) enough

theorem submitInner_batch (transaction : Transaction T) (nonce blocks : Nat) :
    wp (batchMonitor outcomes) (submitInner transaction nonce blocks)
      (fun outcome _ after => ∀ tx, outcome = .ok tx →
        after = ⟨log.nonces, log.sent ++ [(transaction, nonce)]⟩) () log := by
  simp [submitInner, batchMonitor, nonceRead, sentWith]

theorem submitPageTxs_batch (pages : List (Nat × T.Solution)) (nonce : Nat) :
    wp (batchMonitor outcomes) (submitPageTxs pages nonce)
      (fun outcome _ after => ∀ txs, outcome = .ok txs →
        txs.map Prod.fst = pages.map Prod.fst ∧ after = ⟨log.nonces, log.sent ++
          pages.mapIdx fun i entry =>
            (Transaction.submitPage entry.1 (some entry.2), nonce + i)⟩) () log := by
  induction pages generalizing nonce log with
  | nil => simp [submitPageTxs]
  | cons entry rest ih =>
      obtain ⟨page, solution⟩ := entry
      refine (readPhase_issues .mortality).seq (batchMonitor_quiet (by simp)) ?_ (by simp) (by simp)
      intro phase _
      cases phase with
      | signed blocks =>
          change wp _ (submitInner (.submitPage page (some solution)) nonce blocks >>= _) _ _ _
          refine wp_seq (submitInner_batch _ nonce blocks) ?_ (fun _ _ _ _ => by simp)
            (fun _ _ _ => by simp)
          rintro tx _ after sent
          rw [sent tx rfl]
          refine wp_seq (ih (nonce + 1)) ?_ (fun _ _ _ _ => by simp) (fun _ _ _ => by simp)
          rintro txs _ final reported
          obtain ⟨named, rfl⟩ := reported txs rfl
          rintro _ ⟨⟩
          refine ⟨by simp [named], ?_⟩
          simp [List.mapIdx_cons, Nat.add_assoc, Nat.add_comm 1]
      | _ => exact fun txs => by simp

theorem pages_insert {pending : List (Nat × TxHandle)} {index : Nat} {entry : Nat × TxHandle}
    (found : pending[index]? = some entry) :
    (pending.map Prod.fst).toFinset =
      insert entry.1 ((pending.eraseIdx index).map Prod.fst).toFinset := by
  obtain ⟨bound, rfl⟩ := List.getElem?_eq_some_iff.mp found
  have same := (List.getElem_cons_eraseIdx_perm bound).map Prod.fst
  rw [← List.toFinset_eq_of_perm _ _ same, List.map_cons, List.toFinset_cons]

def Collects (outcomes : BatchOutcomes) (pending : List (Nat × TxHandle))
    (failed submitted : Finset Nat) (result : Finset Nat × Finset Nat) : Prop :=
  result.1 = failed ∪ (pending.map Prod.fst).toFinset.filter
      (fun page => outcomes.dropped page = true) ∧
    result.2 = submitted ∪ (pending.map Prod.fst).toFinset.biUnion outcomes.stored

section Collects

variable {pending : List (Nat × TxHandle)} {index : Nat} {entry : Nat × TxHandle}
  {failed submitted : Finset Nat} {result : Finset Nat × Finset Nat}
  (found : pending[index]? = some entry)

include found

theorem Collects.stored (kept : outcomes.dropped entry.1 = false)
    (rest : Collects outcomes (pending.eraseIdx index) failed
      (submitted ∪ outcomes.stored entry.1) result) :
    Collects outcomes pending failed submitted result := by
  obtain ⟨allFailed, allSubmitted⟩ := rest
  rw [Collects, pages_insert found, Finset.filter_insert, if_neg (by simp [kept]),
    Finset.biUnion_insert, allFailed, allSubmitted]
  simp [Finset.union_assoc]

theorem Collects.dropped (lost : outcomes.dropped entry.1 = true)
    (rest : Collects outcomes (pending.eraseIdx index) (insert entry.1 failed) submitted result) :
    Collects outcomes pending failed submitted result := by
  obtain ⟨allFailed, allSubmitted⟩ := rest
  rw [Collects, pages_insert found, Finset.filter_insert, if_pos lost, Finset.biUnion_insert,
    BatchOutcomes.stored_of_dropped lost, allFailed, allSubmitted]
  simp [Finset.insert_union, Finset.union_insert]

end Collects

theorem awaitPageTxs_batch (pending : List (Nat × TxHandle)) (failed submitted : Finset Nat) :
    wp (batchMonitor outcomes) (awaitPageTxs pending.length pending failed submitted)
      (fun outcome _ after => after = log ∧ ∀ result, outcome = .ok result →
        Collects outcomes pending failed submitted result) () log := by
  generalize size : pending.length = remaining
  induction remaining generalizing pending failed submitted with
  | zero =>
      obtain rfl := List.length_eq_zero_iff.mp size
      simp [awaitPageTxs, Collects]
  | succ remaining ih =>
      simp only [awaitPageTxs, wp_bind, wp_ask]
      refine ⟨trivial, ?_⟩
      rintro ⟨choice, result⟩ expected
      rw [batchMonitor_unchanged (by simp [Op.kind]), followedBy_ok]
      have bound : choice % pending.length < pending.length := Nat.mod_lt _ (by omega)
      have shorter : (pending.eraseIdx (choice % pending.length)).length = remaining := by
        rw [List.length_eraseIdx_of_lt bound]
        omega
      split
      · rename_i missing
        exact absurd (List.getElem?_eq_none_iff.mp missing) (Nat.not_le_of_lt bound)
      · rename_i entry tx found finalized
        have reported : outcomes.finalized entry.1 = .ok tx :=
          (expected entry found).symm.trans finalized
        rw [wp_bind, wp_ask]
        refine ⟨trivial, fun answer seen => ?_⟩
        rw [batchMonitor_unchanged (by simp [Op.kind]), followedBy_ok]
        cases answer with
        | error error => exact ⟨rfl, fun _ => by simp⟩
        | ok events =>
            have given : outcomes.events tx = .ok events := Eq.symm seen
            have stored : eventPages events = outcomes.stored entry.1 := by
              simp [BatchOutcomes.stored, reported, given]
            have kept : outcomes.dropped entry.1 = false := by
              simp [BatchOutcomes.dropped, reported, Except.isOk, Except.toBool]
            rw [wp_bind, wp_rpc_ok, followedBy_ok, wp_bind]
            cases decoded : collectStored events submitted with
            | error error => exact ⟨rfl, fun _ => by simp⟩
            | ok collection =>
                rw [wp_rpc_ok, followedBy_ok, collectStored_eq decoded, stored]
                refine wp_mono (ih _ failed _ shorter) ?_
                rintro outcome _ after ⟨same, collected⟩
                exact ⟨same, fun result finished => (collected result finished).stored found kept⟩
      · rename_i page handle error found unfinished
        have reported : outcomes.finalized page = .error error :=
          (expected (page, handle) found).symm.trans unfinished
        have lost : outcomes.dropped page = true := by
          simp [BatchOutcomes.dropped, reported, Except.isOk, Except.toBool]
        refine wp_mono (ih _ (insert page failed) submitted shorter) ?_
        rintro outcome _ after ⟨same, collected⟩
        exact ⟨same, fun result finished => (collected result finished).dropped found lost⟩

theorem submitPagesBatch_batch (pages : List (Nat × T.Solution)) (round minBlocks : Nat) :
    wp (batchMonitor outcomes) (submitPagesBatch pages round minBlocks)
      (fun outcome _ after => ∀ result, outcome = .ok result →
        (∃ nonce, after = ⟨[.ok nonce], pages.mapIdx fun i entry =>
          (.submitPage entry.1 (some entry.2), nonce + i)⟩) ∧
        result.failedPages.Nodup ∧
        (∀ page, page ∈ result.failedPages ↔
          page ∈ (pages.map Prod.fst).toFinset.filter (fun page => outcomes.dropped page = true) ∪
            ((pages.map Prod.fst).toFinset \ result.submittedPages)) ∧
        result.submittedPages = (pages.map Prod.fst).toFinset.biUnion outcomes.stored)
      () ⟨[], []⟩ := by
  refine (readPhase_issues .validation).seq (batchMonitor_quiet (by simp)) ?_ (by simp) (by simp)
  intro phase _
  refine wp_seq (validateSignedPhaseOrBail_batch phase round minBlocks) ?_
    (fun _ _ _ _ => nofun) (fun _ _ _ => nofun)
  rintro _ _ after unsent
  rw [unsent rfl, wp_bind, wp_ask]
  refine ⟨trivial, fun answer _ => ?_⟩
  rw [followedBy_ok]
  cases answer with
  | error error => exact fun _ => nofun
  | ok nonce =>
      rw [wp_bind, wp_rpc_ok, followedBy_ok]
      refine wp_seq (submitPageTxs_batch pages nonce) ?_ (fun _ _ _ _ => nofun) (fun _ _ _ => nofun)
      rintro txs _ sent reported
      obtain ⟨named, rfl⟩ := reported txs rfl
      refine wp_seq (awaitPageTxs_batch txs ∅ ∅) ?_ (fun _ _ _ _ => nofun) (fun _ _ _ => nofun)
      rintro ⟨failed, submitted⟩ _ _ ⟨rfl, collected⟩
      obtain ⟨allFailed, allSubmitted⟩ := collected _ rfl
      rw [wp_bind, wp_ask]
      refine ⟨trivial, ?_⟩
      rintro ⟨order, nodup, members⟩ _
      rw [batchMonitor_unchanged (by simp [Op.kind]), followedBy_ok]
      rintro _ ⟨⟩
      rw [Finset.empty_union, named] at allFailed allSubmitted
      refine ⟨⟨nonce, ?_⟩, nodup, fun page => ?_, allSubmitted⟩
      · simp [batchMonitor, nonceRead, sentWith]
      · rw [← allFailed]
        exact members page

theorem submitPagesBatch_partitions (own : outcomes.OwnPages) {pages : List (Nat × T.Solution)}
    {round minBlocks : Nat} {env : MinerEnv T} {history : MinerTrace T} {result : SubmissionResult}
    (follows : Follows outcomes (run env (submitPagesBatch pages round minBlocks) () history).trace)
    (finished :
      (run env (submitPagesBatch pages round minBlocks) () history).outcome = .ok result) :
    result.failedPages.toFinset = (pages.map Prod.fst).toFinset \ result.submittedPages ∧
      result.submittedPages = (pages.map Prod.fst).toFinset.biUnion outcomes.stored := by
  obtain ⟨_, _, members, submitted⟩ := (wp_run env history
    (submitPagesBatch_batch pages round minBlocks) follows).2 result finished
  refine ⟨?_, submitted⟩
  have missing := own.dropped_subset (pages.map Prod.fst).toFinset
  rw [← submitted] at missing
  rw [← Finset.union_eq_right.mpr missing]
  exact Finset.ext fun page => List.mem_toFinset.trans (members page)

/-- The result of a batch is an exact partition of its pages into those of the Stored events and
the others, and depends on what became of the transactions, not on the order in which they
completed. -/
theorem batch_result_partitions_pages (outcomes : BatchOutcomes) (own : outcomes.OwnPages)
    (pages : List (Nat × T.Solution)) (round minBlocks : Nat) (env : MinerEnv T)
    (history : MinerTrace T) (result : SubmissionResult)
    (follows : Follows outcomes (run env (submitPagesBatch pages round minBlocks) () history).trace)
    (finished :
      (run env (submitPagesBatch pages round minBlocks) () history).outcome = .ok result) :
    let trace := (run env (submitPagesBatch pages round minBlocks) () history).trace
    (∃ nonce, nonceReads trace = [.ok nonce] ∧ sentTransactions trace =
      pages.mapIdx fun i entry => (.submitPage entry.1 (some entry.2), nonce + i)) ∧
    result.failedPages.Nodup ∧
    result.failedPages.toFinset = (pages.map Prod.fst).toFinset \ result.submittedPages ∧
    result.submittedPages = (pages.map Prod.fst).toFinset.biUnion outcomes.stored ∧
    ∀ (other : MinerEnv T) (past : MinerTrace T) (again : SubmissionResult),
      Follows outcomes (run other (submitPagesBatch pages round minBlocks) () past).trace →
      (run other (submitPagesBatch pages round minBlocks) () past).outcome = .ok again →
      again.submittedPages = result.submittedPages ∧
        again.failedPages.toFinset = result.failedPages.toFinset := by
  intro trace
  obtain ⟨⟨nonce, logged⟩, nodup, _⟩ := (wp_run env history
    (submitPagesBatch_batch pages round minBlocks) follows).2 result finished
  rw [batchMonitor_after] at logged
  simp only [List.nil_append, BatchLog.mk.injEq] at logged
  obtain ⟨failed, submitted⟩ := submitPagesBatch_partitions own follows finished
  refine ⟨⟨nonce, logged⟩, nodup, failed, submitted,
    fun other past again followsToo finishedToo => ?_⟩
  obtain ⟨otherFailed, otherSubmitted⟩ := submitPagesBatch_partitions own followsToo finishedToo
  have same : again.submittedPages = result.submittedPages := otherSubmitted.trans submitted.symm
  exact ⟨same, by rw [otherFailed, failed, same]⟩

def sampleOutcomes : BatchOutcomes where
  finalized page := if page = 1 then .error .transactionProgressError else .ok page
  events tx := .ok [.ok (.stored 7 1 tx)]

theorem sampleOutcomes_own : sampleOutcomes.OwnPages := by
  intro page
  by_cases second : page = 1
  · simp [BatchOutcomes.stored, sampleOutcomes, second]
  · simp [BatchOutcomes.stored, sampleOutcomes, second, eventPages]

def batchAnswer : (op : Op sampleConfig) → Resp op
  | .storageAtHead | .atCurrentBlock => .ok 50
  | .currentPhase _ _ => .ok (some (.signed 20))
  | .accountNonce => .ok 3
  | .createSigned _ _ => .ok ()
  | .submitAndWatch _ _ _ => .ok 0
  | .nextFinalized ((page, _) :: _) => (0, sampleOutcomes.finalized page)
  | .waitForSuccess tx => sampleOutcomes.events tx
  | op => unavailable op

def batchRun : Result Unit Error (Op sampleConfig) Resp SubmissionResult :=
  run ⟨fun _ => batchAnswer, fun _ _ => false⟩ (submitPagesBatch [(0, 5), (1, 6)] 7 10) () []

theorem batchRun_follows : Follows sampleOutcomes batchRun.trace := by
  refine ⟨trivial, trivial, trivial, trivial, trivial, trivial, trivial, trivial, trivial, trivial,
    trivial, trivial, trivial, ?_, rfl, ?_, trivial, trivial⟩
  · rintro _ ⟨⟩
    rfl
  · rintro _ ⟨⟩
    rfl

theorem batch_result_partitions_two_pages :
    ∃ result, batchRun.outcome = .ok result ∧
      (∃ nonce, nonceReads batchRun.trace = [.ok nonce] ∧ sentTransactions batchRun.trace =
        [(0, 5), (1, 6)].mapIdx fun i entry => (.submitPage entry.1 (some entry.2), nonce + i)) ∧
      result.failedPages.Nodup ∧
      result.failedPages.toFinset = {0, 1} \ result.submittedPages ∧
      result.submittedPages = {0} :=
  let partition := batch_result_partitions_pages (T := sampleConfig) sampleOutcomes
    sampleOutcomes_own [(0, 5), (1, 6)] 7 10 _ [] _ batchRun_follows rfl
  ⟨_, rfl, partition.1, partition.2.1, partition.2.2.1,
    partition.2.2.2.1.trans (by decide)⟩

end LeanStakingMiner
