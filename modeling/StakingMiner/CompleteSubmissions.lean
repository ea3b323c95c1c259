import StakingMiner.BatchResults
import StakingMiner.PageContents
import StakingMiner.ProgramEnds

/-!
Submissions on a healthy chain. The signed pallet is not part of this repository: what its calls
do to the account's submission is a parameter, with one law for each call that the miner relies
on. While the chain stays in the signed phase, includes what is sent and reports it, in whatever
order it finalizes the pages, `submit` leaves there exactly the mined solution, and resuming
leaves it complete.
-/

namespace LeanStakingMiner

open LeanProgram

variable {T : MinerConfig}

structure StoredSubmission (T : MinerConfig) where
  score : ElectionScore
  pages : Nat → Option T.Solution

def StoredSubmission.metadata (nPages : Nat) (stored : StoredSubmission T) : SubmissionMetadata :=
  ⟨stored.score, (List.range nPages).map fun page => (stored.pages page).isSome⟩

/-- The signed pallet as one account sees it in a round of `nPages` pages. -/
structure SubmissionPallet (T : MinerConfig) (nPages : Nat) where
  dispatch : Transaction T → Option (StoredSubmission T) → Option (StoredSubmission T)
  registers : ∀ score, dispatch (.registerScore score) none = some ⟨score, fun _ => none⟩
  stores : ∀ page < nPages, ∀ content stored, dispatch (.submitPage page (some content))
    (some stored) = some { stored with pages := Function.update stored.pages page (some content) }
  bails : ∀ stored, dispatch .bail (some stored) = none

def SubmissionPallet.execute {nPages : Nat} (pallet : SubmissionPallet T nPages)
    (start : Option (StoredSubmission T)) (sent : List (Transaction T × Nat)) :
    Option (StoredSubmission T) :=
  sent.foldl (fun submission entry => pallet.dispatch entry.1 submission) start

def sentTransaction : Event (Op T) Resp → Option (Transaction T × Nat)
  | ⟨.submitAndWatch transaction nonce _, .ok _⟩ => some (transaction, nonce)
  | _ => none

def ledger (history : MinerTrace T) : List (Transaction T × Nat) :=
  history.filterMap sentTransaction

def followedTransaction : Event (Op T) Resp → Option TxHandle
  | ⟨.waitForFinalized tx, .ok _⟩ => some tx
  | ⟨.nextFinalized _, (_, .ok tx)⟩ => some tx
  | _ => none

/-- Every transaction was followed until it was finalized. -/
def Settled (history : MinerTrace T) : Prop :=
  ∀ tx < (ledger history).length, ∃ event ∈ history, followedTransaction event = some tx

structure ReportOf (transaction : Transaction T) (events : List ChainEvent) : Prop where
  registered : ∀ score, transaction = .registerScore score →
    ∃ round who, .registered round who score ∈ events
  stored : ∀ page, (∃ round who, .stored round who page ∈ events) ↔
    ∃ content, transaction = .submitPage page content

/-- The chain stays in the signed phase with enough blocks, and every call succeeds. A handle
is the position of its transaction; which of the pending ones is finalized next is open. The nonce
counts the transactions of the account once all of them are finalized. -/
structure Healthy (env : MinerEnv T) (firstNonce minBlocks : Nat) : Prop where
  heads : ∀ history, ∃ head, env.answer history .storageAtHead = .ok head
  locates : ∀ history, ∃ head, env.answer history .atCurrentBlock = .ok head
  signed : ∀ history reader head, ∃ blocks, minBlocks < blocks ∧
    env.answer history (.currentPhase reader head) = .ok (some (.signed blocks))
  nonce : ∀ history, Settled history →
    env.answer history .accountNonce = .ok (firstNonce + (ledger history).length)
  signs : ∀ history transaction nonce, env.answer history (.createSigned transaction nonce) = .ok ()
  sends : ∀ history transaction nonce mortality,
    env.answer history (.submitAndWatch transaction nonce mortality) = .ok (ledger history).length
  finalizes : ∀ history tx, env.answer history (.waitForFinalized tx) = .ok tx
  picks : ∀ history pending, pending ≠ [] → ∃ index page tx,
    pending[index % pending.length]? = some (page, tx) ∧
      env.answer history (.nextFinalized pending) = (index, .ok tx)
  reports : ∀ history tx transaction nonce, (ledger history)[tx]? = some (transaction, nonce) →
    ∃ events, env.answer history (.waitForSuccess tx) = .ok (events.map .ok) ∧
      ReportOf transaction events

variable {env : MinerEnv T} {firstNonce minBlocks : Nat} {history after : MinerTrace T}
variable {α β σ : Type} {store : σ} {post : Outcome Error β → σ → MinerTrace T → Prop}

theorem ends_ask {op : Op T} {rest : Resp op → Miner T σ β} :
    Ends env (ask op >>= rest) post store history ↔
      Ends env (rest (env.answer history op)) post store
        (history ++ [⟨op, env.answer history op⟩]) := by
  rw [ends_bind]
  exact ends_perform op

theorem ends_rpc_ok {value : α} {rest : α → Miner T σ β} :
    Ends env (rpc (.ok value) >>= rest) post store history ↔
      Ends env (rest value) post store history := Iff.rfl

structure Sending (history after : MinerTrace T) (sent : List (Transaction T × Nat)) : Prop where
  kept : history ⊆ after
  added : ledger after = ledger history ++ sent

theorem sending_nothing (history : MinerTrace T) : Sending history history [] :=
  ⟨List.Subset.refl _, (List.append_nil _).symm⟩

theorem Sending.event {sent : List (Transaction T × Nat)} (sending : Sending history after sent)
    (event : Event (Op T) Resp) :
    Sending history (after ++ [event]) (sent ++ (sentTransaction event).toList) := by
  refine ⟨fun _ member => List.mem_append_left _ (sending.kept member), ?_⟩
  rw [← List.append_assoc, ← sending.added]
  unfold ledger
  cases found : sentTransaction event <;> simp [found]

theorem Sending.quiet {sent : List (Transaction T × Nat)} {event : Event (Op T) Resp}
    (sending : Sending history after sent) (silent : sentTransaction event = none) :
    Sending history (after ++ [event]) sent := by
  simpa [silent] using sending.event event

theorem Sending.trans {last : MinerTrace T} {first second : List (Transaction T × Nat)}
    (sending : Sending history after first) (more : Sending after last second) :
    Sending history last (first ++ second) :=
  ⟨fun _ member => more.kept (sending.kept member), by rw [more.added, sending.added,
    List.append_assoc]⟩

theorem Settled.unsent (settled : Settled history) (sending : Sending history after []) :
    Settled after := by
  intro tx sent
  rw [sending.added, List.append_nil] at sent
  obtain ⟨event, member, followed⟩ := settled tx sent
  exact ⟨event, sending.kept member, followed⟩

section Sending

variable (healthy : Healthy env firstNonce minBlocks)
include healthy

theorem readPhase_healthy (reader : PhaseReader) (history : MinerTrace T) :
    Ends env (readPhase reader : Task T Phase) (fun outcome _ after =>
      (∃ blocks, minBlocks < blocks ∧ outcome = .ok (.signed blocks)) ∧ Sending history after [])
      () history := by
  obtain ⟨head, located⟩ := healthy.heads history
  obtain ⟨blocks, enough, signed⟩ :=
    healthy.signed (history ++ [⟨.storageAtHead, .ok head⟩]) reader head
  rw [readPhase, ends_ask, located, ends_rpc_ok, ends_ask, signed, ends_rpc_ok, ends_return]
  exact ⟨⟨blocks, enough, rfl⟩, ((sending_nothing history).quiet rfl).quiet rfl⟩

theorem revalidate_healthy (round : Nat) (history : MinerTrace T) :
    Ends env (revalidate round minBlocks : Task T Unit) (fun outcome _ after =>
      outcome = .ok () ∧ Sending history after []) () history := by
  rw [revalidate, ends_bind]
  refine (readPhase_healthy healthy .validation history).mono ?_
  rintro _ _ after ⟨⟨blocks, enough, rfl⟩, sending⟩
  rw [continued_ok, validateSignedPhaseOrBail, if_neg (Nat.not_le.mpr enough), ends_return]
  exact ⟨rfl, sending⟩

theorem submitInner_healthy (transaction : Transaction T) (nonce blocks : Nat)
    (history : MinerTrace T) :
    Ends env (submitInner transaction nonce blocks) (fun outcome _ after =>
      outcome = .ok (ledger history).length ∧ Sending history after [(transaction, nonce)])
      () history := by
  obtain ⟨head, located⟩ := healthy.locates history
  rw [submitInner, ends_ask, located, ends_rpc_ok, ends_ask, healthy.signs, ends_rpc_ok,
    ends_ask, healthy.sends]
  have prepared : Sending history
      (history ++ [⟨.atCurrentBlock, .ok head⟩] ++ [⟨.createSigned transaction nonce, .ok ()⟩]) [] :=
    ((sending_nothing history).quiet rfl).quiet rfl
  refine (ends_return _).mpr ⟨?_, prepared.event _⟩
  rw [prepared.added, List.append_nil]

def pageTransactions (pages : List (Nat × T.Solution)) (nonce : Nat) :
    List (Transaction T × Nat) :=
  (pages.zipIdx nonce).map fun ((page, solution), nonce) => (.submitPage page (some solution), nonce)

def pendingPages (pages : List (Nat × T.Solution)) (first : Nat) : List (Nat × TxHandle) :=
  (pages.zipIdx first).map fun ((page, _), tx) => (page, tx)

omit healthy in
theorem pageTransactions_append (first second : List (Nat × T.Solution)) (nonce : Nat) :
    pageTransactions (first ++ second) nonce =
      pageTransactions first nonce ++ pageTransactions second (nonce + first.length) := by
  simp [pageTransactions, List.zipIdx_append]

theorem submitPageTxs_healthy (pages : List (Nat × T.Solution)) (nonce : Nat)
    (history : MinerTrace T) :
    Ends env (submitPageTxs pages nonce) (fun outcome _ after =>
      outcome = .ok (pendingPages pages (ledger history).length) ∧
        Sending history after (pageTransactions pages nonce)) () history := by
  induction pages generalizing nonce history with
  | nil =>
      rw [submitPageTxs, ends_return]
      exact ⟨rfl, sending_nothing history⟩
  | cons entry rest ih =>
      obtain ⟨page, solution⟩ := entry
      rw [submitPageTxs, ends_bind]
      refine (readPhase_healthy healthy .mortality history).mono ?_
      rintro _ _ read ⟨⟨blocks, _, rfl⟩, reading⟩
      rw [continued_ok, getSignedPhaseBlocksRemaining]
      change Ends env (submitInner _ _ _ >>= _) _ _ _
      rw [ends_bind]
      refine (submitInner_healthy healthy _ nonce blocks read).mono ?_
      rintro _ _ sent ⟨rfl, sending⟩
      rw [continued_ok, ends_bind]
      refine (ih (nonce + 1) sent).mono ?_
      rintro _ _ last ⟨rfl, later⟩
      rw [continued_ok, ends_return]
      have whole := (reading.trans sending).trans later
      have next : (ledger sent).length = (ledger history).length + 1 := by
        simp [sending.added, reading.added]
      refine ⟨?_, whole.kept, whole.added⟩
      rw [next, reading.added, List.append_nil]
      rfl

end Sending

section Awaiting

omit env in
theorem collectStored_ok (events : List ChainEvent) (submitted : Finset Nat) :
    ∃ stored, collectStored (events.map .ok) submitted = .ok stored ∧
      ∀ page, page ∈ stored ↔ page ∈ submitted ∨ ∃ round who, .stored round who page ∈ events := by
  induction events generalizing submitted with
  | nil => exact ⟨submitted, rfl, by simp⟩
  | cons event rest ih =>
      cases event with
      | stored round who page =>
          obtain ⟨stored, collected, members⟩ := ih (insert page submitted)
          refine ⟨stored, collected, fun other => ?_⟩
          rw [members]
          simp only [Finset.mem_insert, List.mem_cons, ChainEvent.stored.injEq]
          constructor
          · rintro ((rfl | earlier) | ⟨round, who, later⟩)
            · exact Or.inr ⟨_, _, Or.inl ⟨rfl, rfl, rfl⟩⟩
            · exact Or.inl earlier
            · exact Or.inr ⟨round, who, Or.inr later⟩
          · rintro (earlier | ⟨round, who, ⟨_, _, rfl⟩ | later⟩)
            · exact Or.inl (Or.inr earlier)
            · exact Or.inl (Or.inl rfl)
            · exact Or.inr ⟨round, who, later⟩
      | _ =>
          obtain ⟨stored, collected, members⟩ := ih submitted
          exact ⟨stored, collected, by simpa using members⟩

def Backed (history : MinerTrace T) (pending : List (Nat × TxHandle)) : Prop :=
  ∀ entry ∈ pending, ∃ content nonce,
    (ledger history)[entry.2]? = some (.submitPage entry.1 content, nonce)

theorem Backed.later {pending fewer : List (Nat × TxHandle)} (backed : Backed history pending)
    (sending : Sending history after []) (subset : fewer ⊆ pending) : Backed after fewer := by
  intro entry member
  rw [sending.added, List.append_nil]
  exact backed entry (subset member)

theorem awaitPageTxs_healthy (healthy : Healthy env firstNonce minBlocks) (remaining : Nat)
    (pending : List (Nat × TxHandle)) (failed submitted : Finset Nat) (history : MinerTrace T)
    (counted : pending.length = remaining) (backed : Backed history pending) :
    Ends env (awaitPageTxs remaining pending failed submitted) (fun outcome _ after =>
      outcome = .ok (failed, submitted ∪ (pending.map Prod.fst).toFinset) ∧
        Sending history after [] ∧
        ∀ entry ∈ pending, ∃ event ∈ after, followedTransaction event = some entry.2)
      () history := by
  induction remaining generalizing pending submitted history with
  | zero =>
      rw [List.length_eq_zero_iff.mp counted, awaitPageTxs, ends_return]
      exact ⟨by simp, sending_nothing history, by simp⟩
  | succ remaining ih =>
      have some : pending ≠ [] := by
        rintro rfl
        simp at counted
      obtain ⟨index, page, tx, found, picked⟩ := healthy.picks history pending some
      obtain ⟨bound, here⟩ := List.getElem?_eq_some_iff.mp found
      have member : (page, tx) ∈ pending := here ▸ List.getElem_mem bound
      have picking : Sending history
          (history ++ [⟨.nextFinalized pending, (index, .ok tx)⟩]) [] :=
        (sending_nothing history).quiet rfl
      obtain ⟨content, nonce, sent⟩ := backed.later picking (List.Subset.refl _) _ member
      obtain ⟨events, reported, report⟩ := healthy.reports _ tx _ nonce sent
      obtain ⟨stored, collected, members⟩ := collectStored_ok events submitted
      have added : stored = insert page submitted := by
        ext other
        rw [members, report.stored, Finset.mem_insert, or_comm]
        simp [eq_comm]
      have waiting : Sending history (_ ++ [⟨.waitForSuccess tx, .ok (events.map .ok)⟩]) [] :=
        picking.quiet rfl
      rw [awaitPageTxs, ends_ask, picked]
      dsimp only
      rw [found]
      dsimp only
      rw [ends_ask, reported, ends_rpc_ok, collected, ends_rpc_ok, added]
      have shorter : (pending.eraseIdx (index % pending.length)).length = remaining := by
        rw [List.length_eraseIdx_of_lt bound, counted, Nat.add_sub_cancel]
      have fewer : Backed _ (pending.eraseIdx (index % pending.length)) :=
        backed.later waiting List.eraseIdx_subset
      refine (ih _ (insert page submitted) _ shorter fewer).mono ?_
      rintro _ _ after ⟨rfl, sending, followed⟩
      refine ⟨?_, waiting.trans sending, ?_⟩
      · rw [pages_insert found, Finset.insert_union, Finset.union_insert]
      · intro entry listed
        rcases List.mem_cons.mp ((List.getElem_cons_eraseIdx_perm bound).mem_iff.mpr listed) with
          rfl | others
        · rw [here]
          exact ⟨⟨.nextFinalized pending, (index, .ok tx)⟩, sending.kept (by simp), rfl⟩
        · exact followed entry others

end Awaiting

section Batches

theorem pendingPages_fst (pages : List (Nat × T.Solution)) (first : Nat) :
    (pendingPages pages first).map Prod.fst = pages.map Prod.fst := by
  induction pages generalizing first with
  | nil => rfl
  | cons entry rest ih =>
      have tail := ih (first + 1)
      simp only [pendingPages, List.zipIdx_cons, List.map_cons] at tail ⊢
      rw [tail]

theorem mem_pendingPages {pages : List (Nat × T.Solution)} {first page tx : Nat} :
    (page, tx) ∈ pendingPages pages first ↔
      ∃ index solution, pages[index]? = some (page, solution) ∧ tx = first + index := by
  simp only [pendingPages, List.mem_map, Prod.exists, List.mem_zipIdx_iff_le_and_getElem?_sub,
    Prod.mk.injEq]
  constructor
  · rintro ⟨_, solution, _, ⟨above, found⟩, rfl, rfl⟩
    exact ⟨_, solution, found, by omega⟩
  · rintro ⟨index, solution, found, rfl⟩
    exact ⟨page, solution, first + index, ⟨by omega, by simpa using found⟩, rfl, rfl⟩

theorem backed_pendingPages {sent : MinerTrace T} {pages : List (Nat × T.Solution)} {nonce : Nat}
    (sending : Sending history sent (pageTransactions pages nonce)) :
    Backed sent (pendingPages pages (ledger history).length) := by
  rintro ⟨page, tx⟩ member
  obtain ⟨index, solution, found, rfl⟩ := mem_pendingPages.mp member
  refine ⟨some solution, nonce + index, ?_⟩
  rw [sending.added, List.getElem?_append_right (Nat.le_add_right _ _), Nat.add_sub_cancel_left]
  simp [pageTransactions, found]

theorem settled_pendingPages {sent : MinerTrace T} {pages : List (Nat × T.Solution)} {nonce : Nat}
    (settled : Settled history) (sending : Sending history sent (pageTransactions pages nonce))
    (awaiting : Sending sent after [])
    (followed : ∀ entry ∈ pendingPages pages (ledger history).length,
      ∃ event ∈ after, followedTransaction event = some entry.2) : Settled after := by
  intro tx below
  by_cases earlier : tx < (ledger history).length
  · obtain ⟨event, member, done⟩ := settled tx earlier
    exact ⟨event, awaiting.kept (sending.kept member), done⟩
  · rw [awaiting.added, sending.added] at below
    simp only [List.append_nil, List.length_append, pageTransactions, List.length_map,
      List.length_zipIdx] at below
    have inside : tx - (ledger history).length < pages.length := by omega
    refine followed (pages[tx - (ledger history).length].1, tx) (mem_pendingPages.mpr ?_)
    exact ⟨_, _, List.getElem?_eq_getElem inside, by omega⟩

theorem submitPagesBatch_healthy (healthy : Healthy env firstNonce minBlocks)
    (pages : List (Nat × T.Solution)) (round : Nat) (history : MinerTrace T)
    (settled : Settled history) :
    Ends env (submitPagesBatch pages round minBlocks) (fun outcome _ after =>
      outcome = .ok ⟨[], (pages.map Prod.fst).toFinset⟩ ∧
        Sending history after (pageTransactions pages (firstNonce + (ledger history).length)) ∧
        Settled after) () history := by
  rw [submitPagesBatch, ends_bind]
  refine (readPhase_healthy healthy .validation history).mono ?_
  rintro _ _ read ⟨⟨blocks, enough, rfl⟩, reading⟩
  rw [continued_ok, validateSignedPhaseOrBail, if_neg (Nat.not_le.mpr enough)]
  change Ends env (ask .accountNonce >>= _) _ _ _
  rw [ends_ask, healthy.nonce read (settled.unsent reading), reading.added, List.append_nil,
    ends_rpc_ok, ends_bind]
  have numbered : Sending history
      (_ ++ [⟨.accountNonce, .ok (firstNonce + (ledger history).length)⟩]) [] := reading.quiet rfl
  refine (submitPageTxs_healthy healthy pages _ _).mono ?_
  rintro _ _ sent ⟨rfl, paging⟩
  have sending := numbered.trans paging
  have first : (ledger (read ++
      [⟨.accountNonce, .ok (firstNonce + (ledger history).length)⟩])).length =
        (ledger history).length := by rw [numbered.added, List.append_nil]
  rw [continued_ok, first, ends_bind]
  refine (awaitPageTxs_healthy healthy _ _ ∅ ∅ sent rfl (backed_pendingPages sending)).mono ?_
  rintro _ _ done ⟨rfl, awaiting, followed⟩
  rw [continued_ok, pendingPages_fst]
  dsimp only
  rw [Finset.empty_union, Finset.empty_union, Finset.sdiff_self, ends_ask, ends_return]
  have whole : Sending history (done ++ [⟨.hashSetIter ∅, env.answer done (.hashSetIter ∅)⟩])
      (pageTransactions pages (firstNonce + (ledger history).length)) := by
    simpa using (sending.trans awaiting).quiet rfl
  refine ⟨?_, whole, ?_⟩
  · have none : (env.answer done (.hashSetIter ∅)).val = [] := by
      refine List.eq_nil_iff_forall_not_mem.mpr fun page member => ?_
      exact Finset.notMem_empty page (((env.answer done (.hashSetIter ∅)).property.2 page).mp member)
    rw [none]
  · refine settled_pendingPages settled sending (awaiting.quiet rfl) fun entry member => ?_
    obtain ⟨event, listed, found⟩ := followed entry member
    exact ⟨event, List.mem_append_left _ listed, found⟩

theorem submitted_chunk {chunk rest : List (Nat × T.Solution)} {submitted : Finset Nat}
    (distinct : ((chunk ++ rest).map Prod.fst).Nodup)
    (apart : Disjoint submitted ((chunk ++ rest).map Prod.fst).toFinset) :
    (submitted ∪ (chunk.map Prod.fst).toFinset).card = submitted.card + chunk.length ∧
      (rest.map Prod.fst).Nodup ∧
      Disjoint (submitted ∪ (chunk.map Prod.fst).toFinset) (rest.map Prod.fst).toFinset := by
  rw [List.map_append] at distinct apart
  obtain ⟨first, second, between⟩ := List.nodup_append'.mp distinct
  rw [List.toFinset_append, Finset.disjoint_union_right] at apart
  refine ⟨?_, second, Finset.disjoint_union_left.mpr ⟨apart.2, ?_⟩⟩
  · rw [Finset.card_union_of_disjoint apart.1, List.toFinset_card_of_nodup first, List.length_map]
  · exact List.disjoint_toFinset_iff_disjoint.mpr between

theorem submitChunks_healthy (healthy : Healthy env firstNonce minBlocks)
    (totalPages round : Nat) (remaining : List (List (Nat × T.Solution)))
    (submitted : Finset Nat) (history : MinerTrace T) (settled : Settled history)
    (distinct : (remaining.flatten.map Prod.fst).Nodup)
    (apart : Disjoint submitted (remaining.flatten.map Prod.fst).toFinset)
    (total : totalPages = submitted.card + remaining.flatten.length) :
    Ends env (submitChunks totalPages round minBlocks remaining submitted) (fun outcome _ after =>
      outcome = .ok [] ∧ Sending history after
        (pageTransactions remaining.flatten (firstNonce + (ledger history).length)) ∧
        Settled after) () history := by
  induction remaining generalizing submitted history with
  | nil =>
      rw [submitChunks, ends_return]
      exact ⟨rfl, sending_nothing history, settled⟩
  | cons chunk rest ih =>
      rw [submitChunks, ends_bind]
      refine (readPhase_healthy healthy .validation history).mono ?_
      rintro _ _ read ⟨⟨blocks, enough, rfl⟩, reading⟩
      rw [continued_ok, validateSignedPhaseOrBail, if_neg (Nat.not_le.mpr enough)]
      change Ends env (submitPagesBatch chunk round minBlocks >>= _) _ _ _
      rw [ends_bind]
      refine (submitPagesBatch_healthy healthy chunk round read (settled.unsent reading)).mono ?_
      rintro _ _ sent ⟨rfl, batch, kept⟩
      have sending := reading.trans batch
      rw [reading.added, List.append_nil, List.nil_append] at sending
      have successful : (⟨[], (chunk.map Prod.fst).toFinset⟩ : SubmissionResult).allSuccessful =
          true := rfl
      rw [continued_ok, if_pos successful]
      dsimp only
      rw [List.flatten_cons] at distinct apart total ⊢
      obtain ⟨counted, distinctRest, apartRest⟩ := submitted_chunk distinct apart
      rw [List.length_append] at total
      split
      · rename_i complete
        have nothing : rest.flatten = [] := List.length_eq_zero_iff.mp (by omega)
        rw [ends_return, nothing, List.append_nil]
        exact ⟨rfl, sending, kept⟩
      · refine (ih _ sent kept distinctRest apartRest (by omega)).mono ?_
        rintro _ _ last ⟨rfl, later, settled⟩
        refine ⟨rfl, ?_, settled⟩
        rw [pageTransactions_append]
        have next : firstNonce + (ledger sent).length =
            firstNonce + (ledger history).length + chunk.length := by
          simp [sending.added, pageTransactions]
          omega
        rw [next] at later
        exact sending.trans later

theorem innerSubmitPages_healthy (healthy : Healthy env firstNonce minBlocks)
    (pages : List (Nat × T.Solution)) (distinct : (pages.map Prod.fst).Nodup)
    (chunkSize round : Nat) (history : MinerTrace T) (settled : Settled history) :
    Ends env (innerSubmitPages pages chunkSize round minBlocks) (fun outcome _ after =>
      outcome = .ok [] ∧
        Sending history after (pageTransactions pages (firstNonce + (ledger history).length)) ∧
        Settled after) () history := by
  unfold innerSubmitPages
  split
  · rw [innerSubmitPagesConcurrent, ends_bind]
    refine (submitPagesBatch_healthy healthy pages round history settled).mono ?_
    rintro _ _ after ⟨rfl, sending, kept⟩
    have successful : (⟨[], (pages.map Prod.fst).toFinset⟩ : SubmissionResult).allSuccessful =
        true := rfl
    rw [continued_ok, if_pos successful, ends_return]
    exact ⟨rfl, sending, kept⟩
  · rename_i positive
    have whole : (chunks chunkSize pages).flatten = pages :=
      chunks_flatten (Nat.pos_of_ne_zero positive) pages
    have chunked := submitChunks_healthy healthy pages.length round (chunks chunkSize pages) ∅ history
      settled (by rwa [whole]) (Finset.disjoint_empty_left _) (by simp [whole])
    rw [whole] at chunked
    rwa [innerSubmitPagesChunked, if_neg positive]

end Batches

/-- From the account's first nonce and the submission it started with: every transaction carried
the account's next nonce and is finalized, and this submission stands. -/
structure OnChain {nPages : Nat} (pallet : SubmissionPallet T nPages) (firstNonce : Nat)
    (start : Option (StoredSubmission T)) (history : MinerTrace T)
    (submission : Option (StoredSubmission T)) : Prop where
  settled : Settled history
  numbered : (ledger history).map Prod.snd = List.range' firstNonce (ledger history).length
  executed : pallet.execute start (ledger history) = submission

def fullSubmission (solution : PagedRawSolution T) : StoredSubmission T :=
  ⟨solution.score, fun page => solution.solutionPages[page]?⟩

variable {nPages : Nat} {pallet : SubmissionPallet T nPages}
variable {start : Option (StoredSubmission T)}

section Executing

variable {submission : Option (StoredSubmission T)} {solutionPages : List T.Solution}

theorem OnChain.unsent (onChain : OnChain pallet firstNonce start history submission)
    (sending : Sending history after []) : OnChain pallet firstNonce start after submission := by
  have same : ledger after = ledger history := by rw [sending.added, List.append_nil]
  refine ⟨onChain.settled.unsent sending, ?_, ?_⟩
  · rw [same]
    exact onChain.numbered
  · rw [same]
    exact onChain.executed

theorem OnChain.executes (onChain : OnChain pallet firstNonce start history submission)
    {sent : List (Transaction T × Nat)} (sending : Sending history after sent)
    (settled : Settled after)
    (numbered : sent.map Prod.snd = List.range' (firstNonce + (ledger history).length) sent.length) :
    OnChain pallet firstNonce start after (pallet.execute submission sent) := by
  refine ⟨settled, ?_, ?_⟩
  · rw [sending.added, List.map_append, onChain.numbered, numbered, List.length_append,
      List.range'_append_1]
  · rw [sending.added, SubmissionPallet.execute, List.foldl_append]
    exact congrArg (pallet.execute · sent) onChain.executed

theorem OnChain.one (onChain : OnChain pallet firstNonce start history submission)
    {transaction : Transaction T}
    (sending : Sending history after [(transaction, firstNonce + (ledger history).length)])
    (followed : ∃ event ∈ after, followedTransaction event = some (ledger history).length) :
    OnChain pallet firstNonce start after (pallet.dispatch transaction submission) := by
  refine onChain.executes sending ?_ rfl
  intro tx below
  rw [sending.added, List.length_append, List.length_singleton] at below
  rcases Nat.lt_succ_iff_lt_or_eq.mp below with earlier | rfl
  · obtain ⟨event, member, done⟩ := onChain.settled tx earlier
    exact ⟨event, sending.kept member, done⟩
  · exact followed

theorem execute_pages {pages : List (Nat × T.Solution)} (owned : PagesOf solutionPages pages)
    (fitting : solutionPages.length ≤ nPages) (nonce : Nat) (stored : StoredSubmission T) :
    pallet.execute (some stored) (pageTransactions pages nonce) =
      some ⟨stored.score, fun page =>
        if page ∈ pages.map Prod.fst then solutionPages[page]? else stored.pages page⟩ := by
  induction pages generalizing nonce stored with
  | nil => simp [pageTransactions, SubmissionPallet.execute]
  | cons entry rest ih =>
      obtain ⟨page, solution⟩ := entry
      have here : solutionPages[page]? = some solution := owned (page, solution) (by simp)
      have inside : page < nPages :=
        (List.getElem?_eq_some_iff.mp here).1.trans_le fitting
      have tail := ih (owned.subset (List.subset_cons_self _ _)) (nonce + 1)
        { stored with pages := Function.update stored.pages page (some solution) }
      have first : pageTransactions ((page, solution) :: rest) nonce =
          (.submitPage page (some solution), nonce) :: pageTransactions rest (nonce + 1) := rfl
      rw [first, SubmissionPallet.execute, List.foldl_cons, pallet.stores page inside]
      refine tail.trans ?_
      congr 2
      funext other
      by_cases same : other = page
      · subst same
        simp [here]
      · exact if_congr (by simp [same]) rfl (Function.update_of_ne same _ _)

theorem OnChain.pages {pages : List (Nat × T.Solution)} {stored : StoredSubmission T}
    (onChain : OnChain pallet firstNonce start history (some stored))
    (owned : PagesOf solutionPages pages) (fitting : solutionPages.length ≤ nPages)
    (sending : Sending history after
      (pageTransactions pages (firstNonce + (ledger history).length)))
    (settled : Settled after) :
    OnChain pallet firstNonce start after (some ⟨stored.score, fun page =>
      if page ∈ pages.map Prod.fst then solutionPages[page]? else stored.pages page⟩) := by
  have numbered := onChain.executes sending settled (by simp [pageTransactions, Function.comp_def])
  rwa [execute_pages owned fitting] at numbered

end Executing

section Submitting

variable (healthy : Healthy env firstNonce minBlocks)
include healthy

theorem registerAttempt_healthy (retryable : SubxtError → Bool) (score : ElectionScore)
    (blocks : Nat) (retry : SubxtError → Task T TxHandle) (settled : Settled history) :
    Ends env (registerAttempt retryable score blocks retry) (fun outcome _ after =>
      outcome = .ok (ledger history).length ∧ Sending history after
        [(.registerScore score, firstNonce + (ledger history).length)]) () history := by
  rw [registerAttempt, ends_ask, healthy.nonce history settled, ends_rpc_ok, ends_bind,
    ends_attempt]
  have numbered : Sending history
      (history ++ [⟨.accountNonce, .ok (firstNonce + (ledger history).length)⟩]) [] :=
    (sending_nothing history).quiet rfl
  refine (submitInner_healthy healthy _ _ blocks _).mono ?_
  rintro _ _ after ⟨rfl, sending⟩
  rw [caught, continued_ok, numbered.added, List.append_nil, ends_return]
  exact ⟨rfl, numbered.trans sending⟩

theorem registerAndConfirm_healthy (score : ElectionScore) (blocks : Nat)
    (onChain : OnChain pallet firstNonce start history none) :
    Ends env (registerAndConfirm score blocks) (fun outcome _ after =>
      outcome = .ok () ∧ OnChain pallet firstNonce start after
        (some ⟨score, fun _ => none⟩)) () history := by
  rw [registerAndConfirm, ends_bind]
  refine (registerAttempt_healthy healthy _ score blocks _ onChain.settled).mono ?_
  rintro _ _ sent ⟨rfl, sending⟩
  rw [continued_ok, ends_ask, healthy.finalizes, ends_rpc_ok]
  have followed : OnChain pallet firstNonce start
      (sent ++ [⟨.waitForFinalized (ledger history).length, .ok (ledger history).length⟩])
      (pallet.dispatch (.registerScore score) none) :=
    onChain.one (sending.quiet rfl)
      ⟨⟨.waitForFinalized (ledger history).length, .ok (ledger history).length⟩, by simp, rfl⟩
  rw [pallet.registers] at followed
  have listed : (ledger (sent ++
      [⟨.waitForFinalized (ledger history).length, .ok (ledger history).length⟩]))[
        (ledger history).length]? =
          some (.registerScore score, firstNonce + (ledger history).length) := by
    rw [(sending.quiet rfl).added]
    simp
  obtain ⟨events, reported, report⟩ := healthy.reports _ _ _ _ listed
  obtain ⟨round, who, registered⟩ := report.registered score rfl
  have confirmed : hasRegistered (events.map .ok) = true := by
    rw [hasRegistered, List.any_eq_true]
    exact ⟨_, List.mem_map_of_mem registered, rfl⟩
  rw [ends_ask, reported, ends_rpc_ok, if_pos confirmed]
  refine (ends_perform _).mpr ⟨rfl, ?_⟩
  exact followed.unsent (((sending_nothing _).quiet rfl).quiet rfl)

theorem submitAllPages_healthy {solution : PagedRawSolution T}
    (fitting : solution.solutionPages.length ≤ nPages) (chunkSize round : Nat)
    (onChain : OnChain pallet firstNonce start history (some ⟨solution.score, fun _ => none⟩)) :
    Ends env (submitAllPages solution.solutionPages chunkSize round minBlocks)
      (fun outcome _ after => outcome = .ok () ∧
        OnChain pallet firstNonce start after (some (fullSubmission solution))) () history := by
  rw [submitAllPages, ends_bind]
  have distinct : ((enumeratePages solution.solutionPages).map Prod.fst).Nodup := by
    rw [enumeratePages_fst]
    exact List.nodup_range
  refine (innerSubmitPages_healthy healthy _ distinct chunkSize round history
    onChain.settled).mono ?_
  rintro _ _ sent ⟨rfl, sending, settled⟩
  rw [continued_ok, if_pos List.isEmpty_nil]
  refine (ends_perform _).mpr ⟨rfl, ?_⟩
  have stored := onChain.pages (enumeratePages_owned _) fitting sending settled
  have full : (fun page => if page ∈ (enumeratePages solution.solutionPages).map Prod.fst then
      solution.solutionPages[page]? else none) = fun page => solution.solutionPages[page]? := by
    funext page
    split
    · rfl
    · rename_i beyond
      rw [enumeratePages_fst, List.mem_range] at beyond
      rw [List.getElem?_eq_none (Nat.not_lt.mp beyond)]
  rw [full] at stored
  exact stored.unsent ((sending_nothing sent).quiet rfl)

theorem submit_healthy {solution : PagedRawSolution T}
    (fitting : solution.solutionPages.length ≤ nPages) (chunkSize round : Nat)
    (onChain : OnChain pallet firstNonce start history none) :
    Ends env (submit solution chunkSize round minBlocks) (fun outcome _ after =>
      outcome = .ok () ∧
        OnChain pallet firstNonce start after (some (fullSubmission solution))) () history := by
  rw [submit, ends_bind]
  refine (readPhase_healthy healthy .validation history).mono ?_
  rintro _ _ read ⟨⟨blocks, enough, rfl⟩, reading⟩
  rw [continued_ok, validateSignedPhaseOrBail, if_neg (Nat.not_le.mpr enough)]
  change Ends env (registerAndConfirm solution.score blocks >>= _) _ _ _
  rw [ends_bind]
  refine (registerAndConfirm_healthy healthy solution.score blocks (onChain.unsent reading)).mono ?_
  rintro _ _ registered ⟨rfl, empty⟩
  rw [continued_ok, ends_bind]
  refine (revalidate_healthy healthy round registered).mono ?_
  rintro _ _ checked ⟨rfl, checking⟩
  rw [continued_ok]
  exact submitAllPages_healthy healthy fitting chunkSize round (empty.unsent checking)

end Submitting

/-- On a healthy chain, where the account's transactions so far are finalized and no submission of
it stands, `submit` returns and leaves a submission with the score and every page of the solution,
whatever the chunk size and the order in which the pages are finalized. -/
theorem submit_completes_on_healthy_chain (healthy : Healthy env firstNonce minBlocks)
    (pallet : SubmissionPallet T nPages) (solution : PagedRawSolution T)
    (fitting : solution.solutionPages.length ≤ nPages) (chunkSize round : Nat)
    (onChain : OnChain pallet firstNonce start history none) :
    let result := run env (submit solution chunkSize round minBlocks) () history
    result.outcome = .ok () ∧ OnChain pallet firstNonce start (history ++ result.trace)
      (some (fullSubmission solution)) :=
  submit_healthy healthy fitting chunkSize round onChain

section Sample

def reportedEvents : Transaction T → List ChainEvent
  | .registerScore score => [.registered 1 0 score]
  | .submitPage page _ => [.stored 1 0 page]
  | _ => []

def sampleDispatch : Transaction sampleConfig → Option (StoredSubmission sampleConfig) →
    Option (StoredSubmission sampleConfig)
  | .registerScore score, none => some ⟨score, fun _ => none⟩
  | .submitPage page content, some stored =>
      some { stored with pages := Function.update stored.pages page content }
  | .bail, some _ => none
  | _, submission => submission

def samplePallet : SubmissionPallet sampleConfig 3 where
  dispatch := sampleDispatch
  registers _ := rfl
  stores _ _ _ _ := rfl
  bails _ := rfl

def healthyAnswer (history : MinerTrace sampleConfig) : (op : Op sampleConfig) → Resp op
  | .storageAtHead | .atCurrentBlock => .ok 7
  | .currentPhase _ _ => .ok (some (.signed 20))
  | .account _ => .ok (some 100)
  | .submissionMetadata _ _ => 
      .ok ((samplePallet.execute none (ledger history)).map (·.metadata 3))
  | .minimumScore _ => .ok none
  | .sortedScores _ _ => .ok []
  | .accountNonce => .ok (4 + (ledger history).length)
  | .createSigned _ _ => .ok ()
  | .submitAndWatch _ _ _ => .ok (ledger history).length
  | .waitForFinalized tx => .ok tx
  | .nextFinalized pending =>
      (pending.length - 1, pending.getLast?.elim (.error .other) fun entry => .ok entry.2)
  | .waitForSuccess tx =>
      (ledger history)[tx]?.elim (.error .other) fun entry => .ok ((reportedEvents entry.1).map .ok)
  | op => unavailable op

def healthyChain : MinerEnv sampleConfig := ⟨healthyAnswer, fun _ _ => false⟩

theorem reportedEvents_report (transaction : Transaction T) :
    ReportOf transaction (reportedEvents transaction) := by
  cases transaction <;> constructor <;> simp [reportedEvents, eq_comm]

theorem healthyChain_healthy : Healthy healthyChain 4 10 where
  heads _ := ⟨7, rfl⟩
  locates _ := ⟨7, rfl⟩
  signed _ _ _ := ⟨20, by decide, rfl⟩
  nonce _ _ := rfl
  signs _ _ _ := rfl
  sends _ _ _ _ := rfl
  finalizes _ _ := rfl
  picks _ pending some := by
    have inside : pending.length - 1 < pending.length :=
      Nat.sub_lt (List.length_pos_iff.mpr some) Nat.one_pos
    refine ⟨pending.length - 1, (pending.getLast some).1, (pending.getLast some).2, ?_, ?_⟩
    · rw [Nat.mod_eq_of_lt inside, ← List.getLast?_eq_getElem?, List.getLast?_eq_some_getLast some]
    · simp [healthyChain, healthyAnswer, List.getLast?_eq_some_getLast some]
  reports history tx transaction nonce sent := by
    refine ⟨reportedEvents transaction, ?_, reportedEvents_report transaction⟩
    simp [healthyChain, healthyAnswer, sent]

def threePages : PagedRawSolution sampleConfig := ⟨[3, 5, 8], ⟨5, 5, 5⟩, 1⟩

theorem submit_completes_on_healthy_chain_chunked :
    OnChain samplePallet 4 none ([] : MinerTrace sampleConfig) none ∧
      let result := run healthyChain (submit threePages 2 1 10) () []
      result.outcome = .ok () ∧
        OnChain samplePallet 4 none result.trace (some (fullSubmission threePages)) := by
  have empty : OnChain samplePallet 4 none ([] : MinerTrace sampleConfig) none :=
    ⟨fun _ below => absurd below (Nat.not_lt_zero _), rfl, rfl⟩
  exact ⟨empty, submit_completes_on_healthy_chain healthyChain_healthy samplePallet threePages
    (Nat.le_refl 3) 2 1 empty⟩

end Sample

end LeanStakingMiner
