import StakingMiner.CompleteSubmissions
import StakingMiner.PageBitfields

/-!
One signed block on a healthy chain. Whatever the account has stored when `process_block` looks,
nothing, an interrupted submission of the cached solution or one of another solution, a complete
submission stands when it returns.
-/

namespace LeanStakingMiner

open LeanProgram

variable {T : MinerConfig}

def StoredSubmission.Complete (nPages : Nat) (stored : StoredSubmission T) : Prop :=
  ∀ page < nPages, (stored.pages page).isSome

/-- An interrupted submission of a solution: a page is missing or the solution's own. -/
def StoredSubmission.PartOf (stored : StoredSubmission T) (solution : PagedRawSolution T) : Prop :=
  ∀ page, stored.pages page = none ∨ stored.pages page = solution.solutionPages[page]?

def currentOf (nPages : Nat) (submission : Option (StoredSubmission T)) : CurrentSubmission :=
  currentSubmission nPages (submission.map (StoredSubmission.metadata nPages))

/-- The reads of `process_block` succeed: the account exists, the pallet reports what is stored,
and the solution is good enough for the minimum score and against the other submissions. -/
structure Welcomes {nPages : Nat} (env : MinerEnv T) (pallet : SubmissionPallet T nPages)
    (firstNonce : Nat) (start : Option (StoredSubmission T)) (details : BlockDetails)
    (solution : PagedRawSolution T) (strategy : SubmissionStrategy) : Prop where
  funded : ∀ history, ∃ balance, env.answer history (.account details.atBlock) = .ok (some balance)
  reported : ∀ history head submission, OnChain pallet firstNonce start history submission →
    env.answer history (.submissionMetadata head details.round) =
      .ok (submission.map (StoredSubmission.metadata details.nPages))
  acceptable : ∀ history, ∃ minimum,
    env.answer history (.minimumScore details.atBlock) = .ok minimum ∧
      meetsMinimumScore T solution.score minimum = true
  competitive : ∀ history head, ∃ scores,
    env.answer history (.sortedScores head details.round) = .ok scores ∧
      ∀ other ∈ scores, scorePassesStrategy T solution.score other.2 strategy = true

variable {env : MinerEnv T} {firstNonce : Nat} {history after : MinerTrace T}
variable {start : Option (StoredSubmission T)}
variable {details : BlockDetails} {solution : PagedRawSolution T}

section Stored

variable {stored : StoredSubmission T} {nPages : Nat}

theorem metadata_bit {page : Nat} : (stored.metadata nPages).pages[page]? =
    if page < nPages then some (stored.pages page).isSome else none := by
  rw [StoredSubmission.metadata, List.getElem?_map]
  split
  · rename_i inside
    rw [List.getElem?_range inside, Option.map_some]
  · rename_i outside
    rw [List.getElem?_eq_none (by simpa using outside), Option.map_none]

theorem metadata_length : (stored.metadata nPages).pages.length = nPages := by
  simp [StoredSubmission.metadata]

theorem isDone_metadata_iff :
    (currentSubmission nPages (some (stored.metadata nPages))).isDone = true ↔
      stored.Complete nPages := by
  have bits : (stored.metadata nPages).pages.all id = true ↔ stored.Complete nPages := by
    simp [StoredSubmission.metadata, StoredSubmission.Complete]
  rw [← bits, all_iff_card, metadata_length, ← currentSubmission_done_iff]
  constructor
  · intro done
    by_contra short
    rw [currentSubmission_of_not_done short] at done
    simp [CurrentSubmission.isDone] at done
  · intro done
    rw [done]
    rfl

theorem mem_missing_metadata {page : Nat} :
    page ∈ (resumed (stored.metadata nPages) nPages).getMissingPages ↔
      page < nPages ∧ stored.pages page = none := by
  rw [mem_missing_iff metadata_length, metadata_bit]
  split
  · rename_i inside
    simp [inside]
  · rename_i outside
    simp [outside]

theorem StoredSubmission.PartOf.filled (part : stored.PartOf solution)
    (count : solution.solutionPages.length = nPages) (page : Nat) :
    (if page ∈ (resumed (stored.metadata nPages) nPages).getMissingPages then
      solution.solutionPages[page]? else stored.pages page) = solution.solutionPages[page]? := by
  split
  · rfl
  · rename_i present
    rcases part page with missing | same
    · have beyond : nPages ≤ page := by
        by_contra inside
        exact present (mem_missing_metadata.mpr ⟨Nat.lt_of_not_le inside, missing⟩)
      rw [missing, List.getElem?_eq_none (count ▸ beyond)]
    · exact same

theorem missingSolutions_owned {solutionPages : List T.Solution} {pages : List Nat}
    (inside : ∀ page ∈ pages, page < solutionPages.length) :
    ∃ solutions, missingSolutions solutionPages pages = pure solutions ∧
      solutions.map Prod.fst = pages ∧ PagesOf solutionPages solutions := by
  obtain ⟨solutions, taken, named⟩ := missingSolutions_inside solutionPages pages inside
  refine ⟨solutions, taken, named, ?_⟩
  induction pages generalizing solutions with
  | nil =>
      rw [List.map_eq_nil_iff.mp named]
      exact fun _ member => absurd member List.not_mem_nil
  | cons page rest ih =>
      have bound : page < solutionPages.length := inside page (by simp)
      obtain ⟨others, found, tail⟩ := missingSolutions_inside solutionPages rest
        fun other member => inside other (by simp [member])
      simp only [missingSolutions, List.getElem?_eq_getElem bound, found] at taken
      obtain rfl : (page, solutionPages[page]) :: others = solutions := Program.pure.inj taken
      rintro entry (_ | ⟨_, later⟩)
      · exact List.getElem?_eq_getElem bound
      · exact ih (fun other member => inside other (by simp [member])) others found tail entry later

end Stored

section Reads

theorem ends_withTimeout {α : Type} {post : Outcome Error α → Unit → MinerTrace T → Prop}
    (quiet : env.Quiet) (error : TimeoutError) (task : Task T α) :
    Ends env (withTimeout error task) post () history ↔ Ends env task post () history := by
  unfold Ends
  rw [run_withTimeout env quiet]

variable {pallet : SubmissionPallet T details.nPages}
variable {minBlocks : Nat} {submission : Option (StoredSubmission T)}
variable {strategy : SubmissionStrategy}
variable (healthy : Healthy env firstNonce minBlocks) (quiet : env.Quiet)
variable (welcomes : Welcomes env pallet firstNonce start details solution strategy)

include quiet welcomes

theorem fetchBalance_healthy (history : MinerTrace T) :
    Ends env (fetchBalance details.atBlock) (fun outcome _ after =>
      outcome = .ok .proceed ∧ Sending history after []) () history := by
  obtain ⟨balance, answered⟩ := welcomes.funded history
  rw [fetchBalance, ends_bind, tokioTimeout, ends_timeout quiet, ends_ask, answered]
  refine (ends_return _).mpr ?_
  rw [inTime, continued_ok, ends_return]
  exact ⟨rfl, (sending_nothing history).quiet rfl⟩

omit quiet in
theorem getSubmission_healthy (onChain : OnChain pallet firstNonce start history submission)
    (head : AtBlock) :
    Ends env (getSubmission head details.round details.nPages) (fun outcome _ after =>
      outcome = .ok (currentOf details.nPages submission) ∧ Sending history after []) () history := by
  rw [getSubmission, ends_ask, welcomes.reported history head submission onChain]
  exact (ends_return _).mpr ⟨rfl, (sending_nothing history).quiet rfl⟩

include healthy

theorem alreadySubmitted_healthy (onChain : OnChain pallet firstNonce start history submission) :
    Ends env (alreadySubmitted details) (fun outcome _ after =>
      outcome = .ok (currentOf details.nPages submission).isDone ∧ Sending history after [])
      () history := by
  obtain ⟨head, located⟩ := healthy.heads history
  have reading : Sending history (history ++ [⟨.storageAtHead, .ok head⟩]) [] :=
    (sending_nothing history).quiet rfl
  rw [alreadySubmitted, ends_withTimeout quiet, ends_ask, located, ends_rpc_ok, hasSubmitted,
    ends_bind]
  refine (getSubmission_healthy welcomes (onChain.unsent reading) head).mono ?_
  rintro _ _ after ⟨rfl, sending⟩
  rw [continued_ok, ends_return]
  exact ⟨rfl, reading.trans sending⟩

theorem existingSubmission_healthy (onChain : OnChain pallet firstNonce start history submission) :
    Ends env (existingSubmission details) (fun outcome _ after =>
      (∃ head, outcome = .ok (head, currentOf details.nPages submission)) ∧
        Sending history after []) () history := by
  obtain ⟨head, located⟩ := healthy.heads history
  have reading : Sending history (history ++ [⟨.storageAtHead, .ok head⟩]) [] :=
    (sending_nothing history).quiet rfl
  rw [existingSubmission, ends_withTimeout quiet, ends_ask, located, ends_rpc_ok, ends_bind]
  refine (getSubmission_healthy welcomes (onChain.unsent reading) head).mono ?_
  rintro _ _ after ⟨rfl, sending⟩
  rw [continued_ok, ends_return]
  exact ⟨⟨head, rfl⟩, reading.trans sending⟩

end Reads

section Replacing

variable {config : ProcessConfig} {pallet : SubmissionPallet T details.nPages}
variable {submission : Option (StoredSubmission T)}
variable (healthy : Healthy env firstNonce config.minSignedPhaseBlocks) (quiet : env.Quiet)
include healthy

theorem submitAndFinalize_healthy (transaction : Transaction T)
    (onChain : OnChain pallet firstNonce start history submission) :
    Ends env (submitAndFinalize transaction) (fun outcome _ after =>
      (∃ tx, outcome = .ok tx) ∧
        OnChain pallet firstNonce start after (pallet.dispatch transaction submission))
      () history := by
  obtain ⟨head, located⟩ := healthy.locates history
  have locating : Sending history (history ++ [⟨.atCurrentBlock, .ok head⟩]) [] :=
    (sending_nothing history).quiet rfl
  have signed : Sending history (history ++ [⟨.atCurrentBlock, .ok head⟩] ++
      [⟨.accountNonce, .ok (firstNonce + (ledger history).length)⟩] ++
      [⟨.createSigned transaction (firstNonce + (ledger history).length), .ok ()⟩]) [] :=
    (locating.quiet rfl).quiet rfl
  rw [submitAndFinalize, ends_ask, located, ends_rpc_ok, ends_ask,
    healthy.nonce _ (onChain.unsent locating).settled, locating.added, List.append_nil,
    ends_rpc_ok, ends_ask, healthy.signs, ends_rpc_ok, ends_ask, healthy.sends, signed.added,
    List.append_nil, ends_rpc_ok, ends_ask, healthy.finalizes]
  refine (ends_return _).mpr ⟨⟨_, rfl⟩, ?_⟩
  exact onChain.one ((signed.event _).quiet rfl)
    ⟨⟨.waitForFinalized (ledger history).length, .ok (ledger history).length⟩, by simp, rfl⟩

include quiet

theorem bailIfSigned_healthy {stored : StoredSubmission T}
    (onChain : OnChain pallet firstNonce start history (some stored)) :
    Ends env (bailIfSigned : Task T Flow) (fun outcome _ after =>
      outcome = .ok .proceed ∧ OnChain pallet firstNonce start after none) () history := by
  rw [bailIfSigned, ends_bind, ends_withTimeout quiet, signedPhase, ends_bind]
  refine (readPhase_healthy healthy .validation history).mono ?_
  rintro _ _ read ⟨⟨blocks, _, rfl⟩, reading⟩
  rw [continued_ok, ends_return, continued_ok]
  change Ends env (withTimeout _ bail >>= _) _ _ _
  rw [ends_bind, ends_withTimeout quiet, bail, ends_bind]
  refine (submitAndFinalize_healthy healthy .bail (onChain.unsent reading)).mono ?_
  rintro _ _ bailed ⟨⟨tx, rfl⟩, gone⟩
  rw [pallet.bails] at gone
  rw [continued_ok, ends_return, continued_ok, ends_return]
  exact ⟨rfl, gone⟩

theorem resumeSubmission_healthy {stored : StoredSubmission T}
    (onChain : OnChain pallet firstNonce start history (some stored))
    (score : stored.score = solution.score)
    (part : stored.PartOf solution) (count : solution.solutionPages.length = details.nPages) :
    Ends env (resumeSubmission config details.round
      (resumed (stored.metadata details.nPages) details.nPages) solution) (fun outcome _ after =>
        outcome = .ok () ∧ OnChain pallet firstNonce start after (some (fullSubmission solution)))
      () history := by
  have inside : ∀ page ∈ (resumed (stored.metadata details.nPages)
      details.nPages).getMissingPages, page < solution.solutionPages.length := by
    intro page missing
    rw [count]
    exact (mem_missing_metadata.mp missing).1
  obtain ⟨solutions, taken, named, owned⟩ := missingSolutions_owned inside
  have distinct : (solutions.map Prod.fst).Nodup := by
    rw [named]
    exact missing_increasing.imp Nat.ne_of_lt
  rw [resumeSubmission, taken, return_bind, ends_bind, ends_withTimeout quiet, ends_bind]
  refine (innerSubmitPages_healthy healthy solutions distinct config.chunkSize details.round history
    onChain.settled).mono ?_
  rintro _ _ sent ⟨rfl, sending, settled⟩
  rw [continued_ok, ends_return, continued_ok]
  have filled := onChain.pages owned count.le sending settled
  rw [named, score, funext (part.filled count)] at filled
  exact (ends_perform _).mpr ⟨rfl, filled.unsent ((sending_nothing sent).quiet rfl)⟩

theorem handleExisting_healthy (onChain : OnChain pallet firstNonce start history submission)
    (short : (currentOf details.nPages submission).isDone = false)
    (part : ∀ stored, submission = some stored → stored.score = solution.score →
      stored.PartOf solution)
    (count : solution.solutionPages.length = details.nPages) :
    Ends env (handleExisting config details.round solution (currentOf details.nPages submission))
      (fun outcome _ after =>
        outcome = .ok .finished ∧
          OnChain pallet firstNonce start after (some (fullSubmission solution)) ∨
          outcome = .ok .proceed ∧ OnChain pallet firstNonce start after none) () history := by
  cases submission with
  | none => exact (ends_return _).mpr (Or.inr ⟨rfl, onChain⟩)
  | some stored =>
      have incomplete : currentOf details.nPages (some stored) =
          .incomplete (resumed (stored.metadata details.nPages) details.nPages) := by
        refine currentSubmission_of_not_done fun done => ?_
        rw [currentOf, Option.map_some, done] at short
        simp [CurrentSubmission.isDone] at short
      rw [incomplete, handleExisting]
      split
      · rename_i same
        rw [ends_bind]
        refine (resumeSubmission_healthy healthy quiet onChain same (part stored rfl same)
          count).mono ?_
        rintro _ _ after ⟨rfl, full⟩
        rw [continued_ok, ends_return]
        exact Or.inl ⟨rfl, full⟩
      · exact (bailIfSigned_healthy healthy quiet onChain).mono fun _ _ _ ended => Or.inr ended

end Replacing

section Blocks

variable {config : ProcessConfig} {pallet : SubmissionPallet T details.nPages}
variable {submission : Option (StoredSubmission T)} {state : MinerState T}
variable (healthy : Healthy env firstNonce config.minSignedPhaseBlocks) (quiet : env.Quiet)
variable (honest : config.shady = false)
variable (welcomes : Welcomes env pallet firstNonce start details solution config.submissionStrategy)
include healthy quiet honest welcomes

variable (count : solution.solutionPages.length = details.nPages)
include count

theorem competeAndSubmit_healthy (head : AtBlock)
    (onChain : OnChain pallet firstNonce start history none) :
    Ends env (competeAndSubmit config details.round solution head) (fun outcome store after =>
      outcome = .ok () ∧ store = state ∧
        OnChain pallet firstNonce start after (some (fullSubmission solution))) state history := by
  obtain ⟨scores, read, passes⟩ := welcomes.competitive history head
  rw [competeAndSubmit, ends_bind, ends_lift, checkCompetitive, honest, if_neg Bool.false_ne_true,
    ends_withTimeout quiet, scoreBetter, ends_ask, read, ends_rpc_ok, ends_return, continued_ok,
    if_pos (List.all_eq_true.mpr passes), ends_ask, ends_lift, ends_withTimeout quiet]
  have comparing : Sending history
      (history ++ [⟨.sortedScores head details.round, .ok scores⟩]) [] :=
    (sending_nothing history).quiet rfl
  have called : Sending history (_ ++ [⟨.submitCalled solution, env.answer
      (history ++ [⟨.sortedScores head details.round, .ok scores⟩]) (.submitCalled solution)⟩]) [] :=
    comparing.quiet rfl
  refine (submit_healthy healthy count.le config.chunkSize details.round
    (onChain.unsent called)).mono ?_
  rintro _ _ after ⟨rfl, full⟩
  exact ⟨rfl, rfl, full⟩

variable (part : ∀ stored, submission = some stored → stored.score = solution.score →
  stored.PartOf solution)
include part

theorem submitSolution_healthy (onChain : OnChain pallet firstNonce start history submission)
    (short : (currentOf details.nPages submission).isDone = false) :
    Ends env (submitSolution config details solution) (fun outcome store after =>
      outcome = .ok () ∧ store = state ∧
        OnChain pallet firstNonce start after (some (fullSubmission solution))) state history := by
  obtain ⟨minimum, floor, meets⟩ := welcomes.acceptable history
  have reading : Sending history (history ++ [⟨.minimumScore details.atBlock, .ok minimum⟩]) [] :=
    (sending_nothing history).quiet rfl
  rw [submitSolution, ends_bind, ends_lift, fetchMinimumScore, ends_ask, floor]
  refine (ends_return _).mpr ?_
  rw [continued_ok, meets]
  split
  · contradiction
  · contradiction
  rw [ends_bind, ends_lift]
  refine (existingSubmission_healthy healthy quiet welcomes (onChain.unsent reading)).mono ?_
  rintro _ _ read ⟨⟨head, rfl⟩, looking⟩
  rw [continued_ok, ends_bind, ends_lift]
  refine (handleExisting_healthy healthy quiet ((onChain.unsent reading).unsent looking) short part
    count).mono ?_
  rintro _ _ handled (⟨rfl, full⟩ | ⟨rfl, gone⟩)
  · rw [continued_ok, ends_return]
    exact ⟨rfl, rfl, full⟩
  · rw [continued_ok]
    exact competeAndSubmit_healthy healthy quiet honest welcomes count head gone

theorem processBlock_healthy (onChain : OnChain pallet firstNonce start history submission)
    (phase : ∃ blocks, details.phase = .signed blocks ∧ config.minSignedPhaseBlocks < blocks)
    (cached : state.cachedSolution = some solution) (round : solution.round = details.round) :
    Ends env (processBlock config details) (fun outcome store after =>
      outcome = .ok () ∧ store = state ∧ ∃ final, OnChain pallet firstNonce start after (some final) ∧
        (final = fullSubmission solution ∨
          submission = some final ∧ final.Complete details.nPages)) state history := by
  obtain ⟨blocks, signed, enough⟩ := phase
  rw [processBlock, ends_bind, ends_lift]
  refine (fetchBalance_healthy quiet welcomes history).mono ?_
  rintro _ _ funded ⟨rfl, funding⟩
  rw [continued_ok]
  dsimp only
  rw [checkPhase, signed]
  dsimp only
  rw [if_neg (Nat.not_le.mpr enough)]
  change Ends env (processSignedBlock config details) _ _ _
  rw [processSignedBlock, ends_bind, ends_lift]
  refine (alreadySubmitted_healthy healthy quiet welcomes (onChain.unsent funding)).mono ?_
  rintro _ _ checked ⟨rfl, checking⟩
  rw [continued_ok]
  have standing := (onChain.unsent funding).unsent checking
  split
  · rename_i done
    cases submission with
    | none => simp [currentOf, currentSubmission, CurrentSubmission.isDone] at done
    | some stored =>
        rw [ends_return]
        exact ⟨rfl, rfl, stored, standing, Or.inr ⟨rfl, isDone_metadata_iff.mp done⟩⟩
  · rename_i short
    have kept : state.cachedSolution.map PagedRawSolution.round = some details.round := by
      rw [cached, Option.map_some, round]
    rw [mineAndSubmit, ends_bind, refreshCache, ends_bind, ends_load, continued_ok,
      if_neg (not_not_intro kept), ends_return, continued_ok, ends_bind, ends_load, continued_ok,
      cached]
    dsimp only
    rw [honest, if_neg Bool.false_ne_true]
    refine (submitSolution_healthy healthy quiet honest welcomes count part standing
      (Bool.eq_false_iff.mpr short)).mono ?_
    rintro _ _ after ⟨rfl, rfl, full⟩
    exact ⟨rfl, rfl, _, full, Or.inl rfl⟩

end Blocks

section Sample

def signedDetails : BlockDetails := ⟨7, .signed 20, 3, 1, 3, 30⟩

def cachedState : MinerState sampleConfig := ⟨Snapshot.new 3, some threePages, none⟩

def leadingConfig : ProcessConfig := ⟨.ifLeading, false, 2, 10, false⟩

theorem healthyChain_welcomes :
    Welcomes healthyChain samplePallet 4 none signedDetails threePages
      leadingConfig.submissionStrategy where
  funded _ := ⟨100, rfl⟩
  reported history _ submission onChain := by
    change Except.ok ((samplePallet.execute none (ledger history)).map _) = _
    rw [onChain.executed]
    rfl
  acceptable _ := ⟨none, rfl, rfl⟩
  competitive _ _ := ⟨[], rfl, by simp⟩

def stoppedEarly : MinerTrace sampleConfig :=
  [⟨.submitAndWatch (.registerScore ⟨5, 5, 5⟩) 4 (some 21), .ok 0⟩, ⟨.waitForFinalized 0, .ok 0⟩,
    ⟨.submitAndWatch (.submitPage 1 (some 5)) 5 (some 21), .ok 1⟩, ⟨.waitForFinalized 1, .ok 1⟩]

def interruptedSubmission : StoredSubmission sampleConfig :=
  ⟨⟨5, 5, 5⟩, Function.update (fun _ => none) 1 (some 5)⟩

theorem stoppedEarly_onChain :
    OnChain samplePallet 4 none stoppedEarly (some interruptedSubmission) := by
  refine ⟨?_, rfl, rfl⟩
  intro tx below
  have listed : tx = 0 ∨ tx = 1 := by
    change tx < 2 at below
    omega
  rcases listed with rfl | rfl
  · exact ⟨⟨.waitForFinalized 0, .ok 0⟩, by simp [stoppedEarly], rfl⟩
  · exact ⟨⟨.waitForFinalized 1, .ok 1⟩, by simp [stoppedEarly], rfl⟩

theorem interruptedSubmission_partOf : interruptedSubmission.PartOf threePages := by
  intro page
  by_cases stored : page = 1
  · subst stored
    exact Or.inr rfl
  · exact Or.inl (by simp [interruptedSubmission, stored])

end Sample

end LeanStakingMiner
