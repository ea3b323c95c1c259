import StakingMiner.ProgramEnds
import StakingMiner.SubmitLogic

/-!
What the page transactions of a submission carry. The retry moves pages out of the
solution, so it depends on the failed pages being distinct and inside the solution.
-/

namespace LeanStakingMiner

open LeanProgram

variable {T : MinerConfig} {α : Type} {solutionPages : List T.Solution}

def Carries (solutionPages : List T.Solution) : Op T → Prop
  | .submitAndWatch (.submitPage page content) _ _ =>
      ∃ own, solutionPages[page]? = some own ∧ content = some own
  | _ => True

def contentMonitor (solutionPages : List T.Solution) : Monitor (Op T) Resp Unit :=
  Monitor.issuing Resp (Carries solutionPages)

def PagesOf (solutionPages : List T.Solution) (entries : List (Nat × T.Solution)) : Prop :=
  ∀ entry ∈ entries, solutionPages[entry.1]? = some entry.2

theorem PagesOf.subset {entries more : List (Nat × T.Solution)} (owned : PagesOf solutionPages more)
    (subset : entries ⊆ more) : PagesOf solutionPages entries :=
  fun entry member => owned entry (subset member)

theorem Issues.carries {kinds : List OpKind} {task : Task T α} {post : Outcome Error α → Prop}
    (issues : Issues kinds task post) (unpaged : .page ∉ kinds) :
    (contentMonitor solutionPages).Permits task := by
  refine issues.permits fun _ op member => ?_
  cases op with
  | submitAndWatch transaction nonce mortality =>
      cases transaction with
      | submitPage page content => exact absurd member unpaged
      | _ => trivial
  | _ => trivial

theorem submitPageTxs_carries {pages : List (Nat × T.Solution)} (nonce : Nat)
    (owned : PagesOf solutionPages pages) :
    (contentMonitor solutionPages).Permits (submitPageTxs pages nonce) := by
  induction pages generalizing nonce with
  | nil => exact fun _ _ => trivial
  | cons entry rest ih =>
      obtain ⟨page, solution⟩ := entry
      have own : solutionPages[page]? = some solution := owned (page, solution) (by simp)
      refine ((readPhase_issues .mortality).carries (by simp)).bind fun phase => ?_
      cases phase with
      | signed blocks =>
          have sends : (contentMonitor solutionPages).Permits
              (submitInner (.submitPage page (some solution)) nonce blocks) := by
            refine (ask_permitted fun _ => trivial).bind fun answer =>
              (rpc_permitted answer).bind fun _ => ?_
            refine (ask_permitted fun _ => trivial).bind fun answer =>
              (rpc_permitted answer).bind fun _ => ?_
            have carried : Carries solutionPages (.submitAndWatch
                (.submitPage page (some solution)) nonce (some ((blocks + 1) % 2 ^ 32))) :=
              ⟨solution, own, rfl⟩
            exact (ask_permitted fun _ => carried).bind fun answer => rpc_permitted answer
          refine sends.bind fun tx => ?_
          exact (ih (nonce + 1) (owned.subset (by simp))).bind fun _ _ _ => trivial
      | _ => exact fun _ _ => trivial

theorem submitPagesBatch_carries {pages : List (Nat × T.Solution)} (round minBlocks : Nat)
    (owned : PagesOf solutionPages pages) :
    (contentMonitor solutionPages).Permits (submitPagesBatch pages round minBlocks) := by
  refine ((readPhase_issues .validation).carries (by simp)).bind fun phase => ?_
  refine ((validateSignedPhaseOrBail_issues phase round minBlocks).carries (by simp)).bind
    fun _ => ?_
  refine (ask_permitted fun _ => trivial).bind fun answer => (rpc_permitted answer).bind
    fun nonce => ?_
  refine (submitPageTxs_carries nonce owned).bind fun txs => ?_
  refine ((awaitPageTxs_issues txs.length txs ∅ ∅).carries (by simp)).bind fun result => ?_
  exact (ask_permitted fun _ => trivial).bind fun _ _ _ => trivial

theorem submitChunks_carries (totalPages round minBlocks : Nat)
    {remaining : List (List (Nat × T.Solution))} (submitted : Finset Nat)
    (owned : ∀ chunk ∈ remaining, PagesOf solutionPages chunk) :
    (contentMonitor solutionPages).Permits
      (submitChunks totalPages round minBlocks remaining submitted) := by
  induction remaining generalizing submitted with
  | nil => exact fun _ _ => trivial
  | cons chunk rest ih =>
      refine ((readPhase_issues .validation).carries (by simp)).bind fun phase => ?_
      refine ((validateSignedPhaseOrBail_issues phase round minBlocks).carries (by simp)).bind
        fun _ => ?_
      refine (submitPagesBatch_carries round minBlocks (owned chunk (by simp))).bind
        fun result => ?_
      split
      · change (contentMonitor solutionPages).Permits (if _ then _ else _)
        split
        · exact fun _ _ => trivial
        · exact ih _ fun other member => owned other (by simp [member])
      · exact fun _ _ => trivial

theorem innerSubmitPages_carries {pages : List (Nat × T.Solution)}
    (chunkSize round minBlocks : Nat) (owned : PagesOf solutionPages pages) :
    (contentMonitor solutionPages).Permits
      (innerSubmitPages pages chunkSize round minBlocks) := by
  unfold innerSubmitPages
  split
  · refine (submitPagesBatch_carries round minBlocks owned).bind fun result => ?_
    split
    · exact fun _ _ => trivial
    · exact fun _ _ => trivial
  · rename_i positive
    simp only [innerSubmitPagesChunked, positive, ↓reduceIte]
    refine submitChunks_carries _ round minBlocks ∅ fun chunk member => ?_
    exact owned.subset (mem_chunksFrom _ _ _ _ member)

theorem enumeratePages_owned (solutionPages : List T.Solution) :
    PagesOf solutionPages (enumeratePages solutionPages) := by
  rintro ⟨page, solution⟩ member
  simp only [enumeratePages, List.mem_map, Prod.mk.injEq] at member
  obtain ⟨⟨found, index⟩, listed, rfl, rfl⟩ := member
  exact List.mem_zipIdx_iff_getElem?.mp listed

theorem takePages_owned {failed : List Nat} {remaining : List T.Solution} (distinct : failed.Nodup)
    (inside : ∀ page ∈ failed, page < solutionPages.length)
    (untaken : ∀ page ∈ failed, remaining[page]? = solutionPages[page]?) :
    ∃ solutions, takePages failed remaining = pure solutions ∧
      solutions.map Prod.fst = failed ∧ PagesOf solutionPages solutions := by
  induction failed generalizing remaining with
  | nil => exact ⟨[], rfl, rfl, by simp [PagesOf]⟩
  | cons page rest ih =>
      obtain ⟨once, distinct⟩ := List.nodup_cons.mp distinct
      have bound : page < solutionPages.length := inside page (by simp)
      have found : remaining[page]? = some solutionPages[page] :=
        (untaken page (by simp)).trans (List.getElem?_eq_getElem bound)
      obtain ⟨solutions, taken, listed, owned⟩ := @ih (remaining.set page T.emptySolution) distinct
        (fun other member => inside other (by simp [member])) (by
          intro other member
          have different : page ≠ other := fun same => once (same ▸ member)
          rw [List.getElem?_set_ne different]
          exact untaken other (by simp [member]))
      refine ⟨(page, solutionPages[page]) :: solutions, ?_, by simp [listed], ?_⟩
      · simp only [takePages, found, taken]
        rfl
      · rintro entry member
        rcases List.mem_cons.mp member with rfl | later
        · exact List.getElem?_eq_getElem _
        · exact owned entry later

theorem retryFailedPages_carries {failed : List Nat} (chunkSize round minBlocks : Nat)
    (distinct : failed.Nodup) (inside : ∀ page ∈ failed, page < solutionPages.length) :
    (contentMonitor solutionPages).Permits
      (retryFailedPages solutionPages failed chunkSize round minBlocks) := by
  obtain ⟨solutions, taken, _, owned⟩ := takePages_owned distinct inside fun _ _ => rfl
  unfold retryFailedPages
  rw [taken]
  refine ((revalidate_issues round minBlocks).carries (by simp)).bind fun _ => ?_
  refine (innerSubmitPages_carries chunkSize round minBlocks owned).bind fun stillFailed => ?_
  split
  · exact ask_permitted fun _ => trivial
  · exact ((revalidate_issues round minBlocks).carries (by simp)).bind fun _ _ _ => trivial

theorem submitAllPages_carries (solutionPages : List T.Solution)
    (chunkSize round minBlocks : Nat) :
    (contentMonitor solutionPages).Permits
      (submitAllPages solutionPages chunkSize round minBlocks) := by
  intro store ghost
  have first := innerSubmitPages_carries chunkSize round minBlocks
    (enumeratePages_owned solutionPages) store ghost
  refine wp_seq ((firstAttempt_reported solutionPages chunkSize round minBlocks).and first) ?_
    (fun _ _ _ _ => trivial) (fun _ _ _ => trivial)
  rintro failed _ _ ⟨reported, _⟩
  obtain ⟨distinct, inside⟩ := reported failed rfl
  split
  · exact ⟨trivial, fun _ _ => trivial⟩
  · exact retryFailedPages_carries chunkSize round minBlocks distinct inside _ _

theorem submit_carries (solution : PagedRawSolution T) (chunkSize round minBlocks : Nat) :
    (contentMonitor solution.solutionPages).Permits
      (submit solution chunkSize round minBlocks) := by
  refine ((readPhase_issues .validation).carries (by simp)).bind fun phase => ?_
  refine ((validateSignedPhaseOrBail_issues phase round minBlocks).carries (by simp)).bind
    fun _ => ?_
  cases phase with
  | signed blocks =>
      refine ((registerAndConfirm_issues solution.score blocks).carries (by simp)).bind
        fun _ => ?_
      refine ((revalidate_issues round minBlocks).carries (by simp)).bind fun _ => ?_
      exact submitAllPages_carries solution.solutionPages chunkSize round minBlocks
  | _ => exact fun _ _ => trivial

/-- Every page transaction of a submission carries the mined page, and the pages reported by
the first attempt, which the retry takes out of the solution, are distinct and inside it. -/
theorem page_transactions_carry_their_pages (solution : PagedRawSolution T)
    (chunkSize round minBlocks : Nat) (env : MinerEnv T) (history : MinerTrace T) :
    (∀ event ∈ (run env (submit solution chunkSize round minBlocks) () history).trace,
        Carries solution.solutionPages event.1) ∧
      ∀ seen failed, (run env (innerSubmitPages (enumeratePages solution.solutionPages) chunkSize
          round minBlocks) () seen).outcome = .ok failed →
        failed.Nodup ∧ ∀ page ∈ failed, page < solution.solutionPages.length := by
  constructor
  · exact run_issued env history (submit_carries solution chunkSize round minBlocks () ())
  · intro seen failed finished
    have reported : Ends env (innerSubmitPages _ chunkSize round minBlocks) _ () seen :=
      ends_of_issuing (firstAttempt_reported solution.solutionPages chunkSize round minBlocks)
    exact reported.1 failed finished

end LeanStakingMiner
