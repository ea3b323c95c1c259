import StakingMiner.JanitorCore
import StakingMiner.ProgramEnds
import StakingMiner.SubmitLogic

/-!
The rounds that `clear_old_rounds_task` scans over a whole sequence of ticks, and the old
submissions it tries to clear.
-/

namespace LeanStakingMiner

open LeanProgram

variable {T : MinerConfig} {env : MinerEnv T}

def Op.scannedRound : Op T → Option Nat
  | .submissionMetadata _ oldRound => some oldRound
  | _ => none

def scannedRounds (trace : MinerTrace T) : List Nat :=
  trace.filterMap fun event => event.1.scannedRound

structure CleanupTick (T : MinerConfig) where
  currentRound : Nat
  before : Option Nat
  history : MinerTrace T
  result : Result (Option Nat) Error (Op T) Resp Nat

def CleanupTick.Succeeded (tick : CleanupTick T) : Prop :=
  ∃ cleanedCount, tick.result.outcome = .ok cleanedCount

def CleanupTick.scanned (tick : CleanupTick T) : List Nat := scannedRounds tick.result.trace

def cleanupTick (env : MinerEnv T) (currentRound : Nat) (last : Option Nat)
    (history : MinerTrace T) : CleanupTick T where
  currentRound := currentRound
  before := last
  history := history
  result := run env (runClearOldRoundsCleanup currentRound) last history

def cleanupContinues : Outcome Error Nat → Bool
  | .ok _ => true
  | .err error => !isCriticalMinerError error
  | .panic => false

/-- The values of `last_scanned_round` between the ticks of `clear_old_rounds_task`, with the
ticks so far. The rounds of the ticks are arbitrary `u32` values, and a critical error ends
the task. -/
inductive CleanupRun (env : MinerEnv T) :
    Option Nat → MinerTrace T → List (CleanupTick T) → Prop
  | start : CleanupRun env none [] []
  | ticked {last history ticks} (currentRound : Nat) : currentRound < 2 ^ 32 →
      CleanupRun env last history ticks →
      (∀ tick ∈ ticks, cleanupContinues tick.result.outcome = true) →
      CleanupRun env (cleanupTick env currentRound last history).result.store
        (history ++ (cleanupTick env currentRound last history).result.trace)
        (ticks ++ [cleanupTick env currentRound last history])

section Scan

variable {atBlock : AtBlock}

def metadataRead (atBlock : AtBlock) (oldRound : Nat) (found : Option SubmissionMetadata) :
    Event (Op T) Resp :=
  ⟨.submissionMetadata atBlock oldRound, .ok found⟩

def cleanupEvents (env : MinerEnv T) (oldRound : Nat) (history : MinerTrace T) :
    Option SubmissionMetadata → MinerTrace T
  | none => []
  | some submission =>
      if submission.pages.count true = 0 then []
      else (run env (clearOldRoundData oldRound (submission.pages.count true)) () history).trace

inductive ScansTo (env : MinerEnv T) (atBlock : AtBlock) :
    MinerTrace T → List Nat → MinerTrace T → Prop
  | done {history} : ScansTo env atBlock history [] history
  | round {history oldRound rest after} (found : Option SubmissionMetadata) :
      env.answer history (.submissionMetadata atBlock oldRound) = .ok found →
      ScansTo env atBlock (history ++ [metadataRead atBlock oldRound found] ++
        cleanupEvents env oldRound (history ++ [metadataRead atBlock oldRound found]) found)
        rest after →
      ScansTo env atBlock history (oldRound :: rest) after

theorem clearOldRoundData_issues (round witnessPages : Nat) :
    Issues [.other, .nonce, .janitor] (clearOldRoundData round witnessPages : Task T Unit)
      (· ≠ .panic) := by
  refine Issues.bind (submitAndFinalize_issues (.clearOldRoundData round witnessPages)) ?_
    (by simp) (by simp)
  intro _ _
  simp [Issues]

theorem scannedRound_eq_none {op : Op T} (other : op.kind ≠ .submission) :
    op.scannedRound = none := by
  cases op with
  | submissionMetadata storage round => exact absurd rfl other
  | _ => rfl

theorem scannedRounds_append (first second : MinerTrace T) :
    scannedRounds (first ++ second) = scannedRounds first ++ scannedRounds second :=
  List.filterMap_append

theorem scannedRounds_cleanup (env : MinerEnv T) (oldRound : Nat) (history : MinerTrace T)
    (found : Option SubmissionMetadata) :
    scannedRounds (cleanupEvents env oldRound history found) = [] := by
  cases found with
  | none => rfl
  | some submission =>
      simp only [cleanupEvents]
      split
      · rfl
      · have issued := run_issued env history (clearOldRoundData_issues (T := T) oldRound
          (submission.pages.count true))
        refine List.filterMap_eq_nil_iff.mpr ?_
        intro event member
        have kind := issued event member
        refine scannedRound_eq_none ?_
        intro read
        simp [read] at kind

theorem ScansTo.extends {rounds : List Nat} {history after : MinerTrace T}
    (scans : ScansTo env atBlock history rounds after) :
    ∃ passed, after = history ++ passed ∧ scannedRounds passed = rounds := by
  induction scans with
  | done => exact ⟨[], by simp, rfl⟩
  | @round history oldRound rest after found read later ih =>
      obtain ⟨passed, extended, scanned⟩ := ih
      refine ⟨metadataRead atBlock oldRound found ::
        (cleanupEvents env oldRound (history ++ [metadataRead atBlock oldRound found]) found ++
          passed), by simp [extended], ?_⟩
      have cleaned := scannedRounds_cleanup env oldRound
        (history ++ [metadataRead atBlock oldRound found]) found
      change oldRound :: scannedRounds (_ ++ passed) = oldRound :: rest
      rw [scannedRounds_append, cleaned, scanned, List.nil_append]

theorem ScansTo.visits {rounds : List Nat} {history after : MinerTrace T}
    (scans : ScansTo env atBlock history rounds after) {round : Nat} (listed : round ∈ rounds) :
    ∃ found earlier later,
      env.answer (history ++ earlier) (.submissionMetadata atBlock round) = .ok found ∧
      after = history ++ earlier ++ [metadataRead atBlock round found] ++
        cleanupEvents env round (history ++ earlier ++ [metadataRead atBlock round found]) found ++
        later := by
  induction scans with
  | done => simp at listed
  | @round history oldRound rest after found read remaining ih =>
      rcases List.mem_cons.mp listed with rfl | member
      · obtain ⟨later, extended, _⟩ := remaining.extends
        refine ⟨found, [], later, ?_, ?_⟩
        · rwa [List.append_nil]
        · rw [List.append_nil]
          exact extended
      · obtain ⟨visited, earlier, later, answered, extended⟩ := ih member
        refine ⟨visited, metadataRead atBlock oldRound found :: (cleanupEvents env oldRound
          (history ++ [metadataRead atBlock oldRound found]) found ++ earlier), later, ?_, ?_⟩
        · simpa using answered
        · simpa using extended

def ScanEnds (env : MinerEnv T) (atBlock : AtBlock) (history : MinerTrace T) (rounds : List Nat)
    (outcome : Outcome Error Nat) (_ : Unit) (after : MinerTrace T) : Prop :=
  outcome ≠ .panic ∧ ∀ cleaned, outcome = .ok cleaned → ScansTo env atBlock history rounds after

theorem cleanRounds_scans (rounds : List Nat) (cleanedCount : Nat) (history : MinerTrace T) :
    Ends env (cleanRounds atBlock rounds cleanedCount) (ScanEnds env atBlock history rounds) ()
      history := by
  induction rounds generalizing cleanedCount history with
  | nil => exact (ends_return _).mpr ⟨by simp, fun _ _ => .done⟩
  | cons oldRound rest ih =>
      refine ends_call.mpr ?_
      cases read : env.answer history (.submissionMetadata atBlock oldRound) with
      | error error => exact (ends_fail _).mpr ⟨by simp, by simp⟩
      | ok found =>
          have continues (count : Nat) : Ends env (cleanRounds atBlock rest count)
              (ScanEnds env atBlock history (oldRound :: rest)) ()
              (history ++ [metadataRead atBlock oldRound found] ++ cleanupEvents env oldRound
                (history ++ [metadataRead atBlock oldRound found]) found) := by
            refine (ih count _).mono ?_
            intro outcome _ after ended
            exact ⟨ended.1, fun cleaned completed =>
              .round found read (ended.2 cleaned completed)⟩
          cases found with
          | none =>
              simp only [cleanupEvents, List.append_nil] at continues
              exact continues cleanedCount
          | some submission =>
              simp only [cleanupEvents] at continues
              change Ends env (if submission.pages.count true = 0 then _ else _) _ _ _
              by_cases pages : submission.pages.count true = 0
              · simp only [if_pos pages, List.append_nil] at continues
                rw [if_pos pages]
                exact continues cleanedCount
              · simp only [if_neg pages] at continues
                rw [if_neg pages]
                refine Ends.attemptSeq ?_ ?_
                · exact (ends_of_issuing (clearOldRoundData_issues oldRound _)).1
                · rintro (error | _)
                  · exact continues cleanedCount
                  · exact continues (cleanedCount + 1)

end Scan

/-- The rounds a tick has to scan, and where a finished scan leaves `last_scanned_round`. -/
def roundsToScan (currentRound : Nat) (last : Option Nat) : List Nat :=
  List.range' (startRound currentRound last) (currentRound - startRound currentRound last)

def scannedUpTo (currentRound : Nat) (last : Option Nat) : Option Nat :=
  if startRound currentRound last < currentRound then some (currentRound - 1) else last

inductive TickEnds (env : MinerEnv T) (currentRound : Nat) (last : Option Nat)
    (history : MinerTrace T) : Outcome Error Nat → Option Nat → MinerTrace T → Prop
  | failed (error : Error) (after : MinerTrace T) :
      TickEnds env currentRound last history (.err error) last after
  | completed (atBlock : AtBlock) (cleaned : Nat) (after : MinerTrace T) :
      env.answer history .storageAtHead = .ok atBlock →
      ScansTo env atBlock (history ++ [⟨.storageAtHead, .ok atBlock⟩])
        (roundsToScan currentRound last) after →
      TickEnds env currentRound last history (.ok cleaned) (scannedUpTo currentRound last) after

theorem runClearOldRoundsCleanup_ends (currentRound : Nat) (last : Option Nat)
    (history : MinerTrace T) :
    Ends env (runClearOldRoundsCleanup currentRound) (TickEnds env currentRound last history) last
      history := by
  refine ends_call.mpr ?_
  cases read : env.answer history .storageAtHead with
  | error error => exact (ends_fail _).mpr (.failed _ _)
  | ok atBlock =>
      change Ends env (if currentRound = 0 ∨ currentRound ≤ startRound currentRound last then _
        else _) _ _ _
      by_cases nothing : currentRound = 0 ∨ currentRound ≤ startRound currentRound last
      -- the early return: there is nothing to scan, and `last_scanned_round` is not written
      · have noRounds : roundsToScan currentRound last = [] := by
          rw [roundsToScan, List.range'_eq_nil_iff]
          omega
        have unmoved : scannedUpTo currentRound last = last := by
          rw [scannedUpTo, if_neg (by omega)]
        rw [if_pos nothing, ends_return]
        have ended : TickEnds env currentRound last history (.ok 0) (scannedUpTo currentRound last)
            (history ++ [⟨.storageAtHead, .ok atBlock⟩]) :=
          .completed atBlock 0 _ read (noRounds ▸ ScansTo.done)
        rwa [unmoved] at ended
      · have moved : scannedUpTo currentRound last = some (currentRound - 1) := by
          rw [scannedUpTo, if_pos (by omega)]
        rw [if_neg nothing, ends_bind, ends_lift]
        refine (cleanRounds_scans _ 0 _).mono ?_
        rintro (cleaned | error | _) _ after ⟨returned, scans⟩
        · refine (ends_bind _ _).mpr ((ends_modify _).mpr ((ends_return _).mpr ?_))
          exact moved ▸ .completed atBlock cleaned after read (scans cleaned rfl)
        · exact .failed _ _
        · exact absurd rfl returned

section Ticks

variable {currentRound : Nat} {last store : Option Nat} {history after : MinerTrace T}
variable {outcome : Outcome Error Nat}

theorem TickEnds.unmoved (ends : TickEnds env currentRound last history outcome store after)
    (failed : ¬∃ cleaned, outcome = .ok cleaned) : store = last := by
  cases ends with
  | failed error after => rfl
  | completed atBlock cleaned after read scans => exact absurd ⟨cleaned, rfl⟩ failed

theorem TickEnds.scans (ends : TickEnds env currentRound last history outcome store after)
    (succeeded : ∃ cleaned, outcome = .ok cleaned) :
    store = scannedUpTo currentRound last ∧
      ∃ atBlock, env.answer history .storageAtHead = .ok atBlock ∧
        ScansTo env atBlock (history ++ [⟨.storageAtHead, .ok atBlock⟩])
          (roundsToScan currentRound last) after := by
  cases ends with
  | failed error after => simp at succeeded
  | completed atBlock cleaned after read scans => exact ⟨rfl, atBlock, read, scans⟩

theorem cleanupTick_ends (env : MinerEnv T) (currentRound : Nat) (last : Option Nat)
    (history : MinerTrace T) :
    TickEnds env currentRound last history
      (cleanupTick env currentRound last history).result.outcome
      (cleanupTick env currentRound last history).result.store
      (history ++ (cleanupTick env currentRound last history).result.trace) :=
  runClearOldRoundsCleanup_ends currentRound last history

theorem cleanupTick_moves (env : MinerEnv T) (currentRound : Nat) (last : Option Nat)
    (history : MinerTrace T) :
    ((cleanupTick env currentRound last history).Succeeded →
      (cleanupTick env currentRound last history).result.store = scannedUpTo currentRound last ∧
      (cleanupTick env currentRound last history).scanned = roundsToScan currentRound last) ∧
    (¬(cleanupTick env currentRound last history).Succeeded →
      (cleanupTick env currentRound last history).result.store = last) := by
  have ends := cleanupTick_ends env currentRound last history
  constructor
  · intro succeeded
    obtain ⟨moved, atBlock, read, scans⟩ := ends.scans succeeded
    obtain ⟨passed, extended, scanned⟩ := scans.extends
    refine ⟨moved, ?_⟩
    rw [List.append_assoc, List.append_cancel_left_eq] at extended
    rw [CleanupTick.scanned, extended]
    exact scanned
  · intro failed
    exact ends.unmoved failed

theorem lastScanned_trans {first second third : Option Nat} (left : first ≤ second)
    (right : second ≤ third) : first ≤ third := by
  cases first <;> cases second <;> cases third <;> simp_all
  omega

theorem mem_roundsToScan {round : Nat} :
    round ∈ roundsToScan currentRound last ↔
      startRound currentRound last ≤ round ∧ round < currentRound := by
  rw [roundsToScan, List.mem_range'_1]
  omega

theorem above_last_of_mem {round : Nat} (scanned : round ∈ roundsToScan currentRound last) :
    ¬some round ≤ last := by
  have bounds := mem_roundsToScan.mp scanned
  cases last with
  | none => simp
  | some passed =>
      simp only [startRound] at bounds
      simp only [Option.some_le_some]
      omega

theorem scannedUpTo_of_mem {round : Nat} (scanned : round ∈ roundsToScan currentRound last) :
    some round ≤ scannedUpTo currentRound last := by
  have bounds := mem_roundsToScan.mp scanned
  rw [scannedUpTo, if_pos (by omega), Option.some_le_some]
  omega

theorem le_scannedUpTo (currentRound : Nat) (last : Option Nat) :
    last ≤ scannedUpTo currentRound last := by
  unfold scannedUpTo
  cases last with
  | none => simp
  | some passed =>
      split
      · rename_i ahead
        simp only [startRound] at ahead
        rw [Option.some_le_some]
        omega
      · simp

theorem le_cleanupTick (env : MinerEnv T) (currentRound : Nat) (last : Option Nat)
    (history : MinerTrace T) : last ≤ (cleanupTick env currentRound last history).result.store := by
  obtain ⟨moved, unmoved⟩ := cleanupTick_moves env currentRound last history
  by_cases succeeded : (cleanupTick env currentRound last history).Succeeded
  · rw [(moved succeeded).1]
    exact le_scannedUpTo currentRound last
  · rw [unmoved succeeded]
    cases last <;> simp

end Ticks

section Runs

variable {last : Option Nat} {history : MinerTrace T} {ticks : List (CleanupTick T)}

theorem CleanupRun.split (reached : CleanupRun env last history ticks)
    {before after : List (CleanupTick T)} {tick : CleanupTick T}
    (ordered : ticks = before ++ tick :: after) :
    ∃ last history, CleanupRun env last history before ∧ tick.currentRound < 2 ^ 32 ∧
      tick = cleanupTick env tick.currentRound last history := by
  induction reached generalizing after with
  | start => simp at ordered
  | @ticked last history ticks currentRound machine earlier continues ih =>
      rcases List.eq_nil_or_concat' after with rfl | ⟨shorter, final, rfl⟩
      · obtain ⟨rfl, same⟩ := List.append_inj' ordered rfl
        obtain rfl := List.singleton_inj.mp same
        exact ⟨last, history, earlier, machine, rfl⟩
      · rw [← List.cons_append, ← List.append_assoc] at ordered
        exact ih (List.append_inj' ordered rfl).1

structure ScanPosition (last : Option Nat) (ticks : List (CleanupTick T)) : Prop where
  bounded : ∀ passed, last = some passed → passed + 1 < 2 ^ 32
  stored : ∀ tick ∈ ticks, tick.result.store ≤ last
  scanned : ∀ tick ∈ ticks, tick.Succeeded → ∀ round ∈ tick.scanned, some round ≤ last

theorem CleanupRun.position (reached : CleanupRun env last history ticks) :
    ScanPosition last ticks := by
  induction reached with
  | start => exact ⟨by simp, by simp, by simp⟩
  | @ticked last history ticks currentRound machine earlier continues ih =>
      have grows := le_cleanupTick env currentRound last history
      obtain ⟨moved, unmoved⟩ := cleanupTick_moves env currentRound last history
      constructor
      · intro passed position
        by_cases succeeded : (cleanupTick env currentRound last history).Succeeded
        · rw [(moved succeeded).1, scannedUpTo] at position
          split at position
          · cases position
            omega
          · exact ih.bounded passed position
        · rw [unmoved succeeded] at position
          exact ih.bounded passed position
      · intro tick member
        rcases List.mem_append.mp member with old | new
        · exact lastScanned_trans (ih.stored tick old) grows
        · obtain rfl := List.mem_singleton.mp new
          generalize (cleanupTick env currentRound last history).result.store = stored
          cases stored <;> simp
      · intro tick member succeeded round scanned
        rcases List.mem_append.mp member with old | new
        · exact lastScanned_trans (ih.scanned tick old succeeded round scanned) grows
        · obtain rfl := List.mem_singleton.mp new
          rw [(moved succeeded).2] at scanned
          rw [(moved succeeded).1]
          exact scannedUpTo_of_mem scanned

def WindowScanned (last : Option Nat) (ticks : List (CleanupTick T)) : Prop :=
  ∀ passed, last = some passed → (∃ tick ∈ ticks, tick.currentRound = passed + 1) ∧
    ∀ round, passed + 1 - clearOldRoundsScanRounds ≤ round → round ≤ passed →
      ∃ tick ∈ ticks, tick.Succeeded ∧ round ∈ tick.scanned

theorem WindowScanned.append (covered : WindowScanned last ticks) (later : CleanupTick T) :
    WindowScanned last (ticks ++ [later]) := by
  intro passed position
  obtain ⟨⟨tick, member, reached⟩, window⟩ := covered passed position
  refine ⟨⟨tick, List.mem_append_left _ member, reached⟩, ?_⟩
  intro round above below
  obtain ⟨scanning, earlier, scanned⟩ := window round above below
  exact ⟨scanning, List.mem_append_left _ earlier, scanned⟩

theorem window_completed (covered : WindowScanned last ticks) {currentRound : Nat}
    (ordered : ∀ tick ∈ ticks, tick.currentRound ≤ currentRound)
    (succeeded : (cleanupTick env currentRound last history).Succeeded) {round : Nat}
    (above : currentRound - clearOldRoundsScanRounds ≤ round) (below : round < currentRound) :
    ∃ tick ∈ ticks ++ [cleanupTick env currentRound last history],
      tick.Succeeded ∧ round ∈ tick.scanned := by
  have scanned := ((cleanupTick_moves env currentRound last history).1 succeeded).2
  by_cases start : startRound currentRound last ≤ round
  · refine ⟨_, List.mem_append_right _ (List.mem_singleton_self _), succeeded, ?_⟩
    rw [scanned]
    exact mem_roundsToScan.mpr ⟨start, below⟩
  · -- the round was passed over because an earlier tick had reached it
    cases last with
    | none =>
        simp only [startRound] at start
        omega
    | some passed =>
        simp only [startRound] at start
        obtain ⟨⟨tick, member, reached⟩, window⟩ := covered passed rfl
        have earlierRound := ordered tick member
        obtain ⟨scanning, earlier, scans⟩ := window round (by omega) (by omega)
        exact ⟨scanning, List.mem_append_left _ earlier, scans⟩

theorem CleanupRun.window (reached : CleanupRun env last history ticks)
    (ordered : (ticks.map (·.currentRound)).Pairwise (· ≤ ·)) : WindowScanned last ticks := by
  induction reached with
  | start => simp [WindowScanned]
  | @ticked last history ticks currentRound machine earlier continues ih =>
      rw [List.map_append, List.pairwise_append] at ordered
      obtain ⟨sorted, _, bounded⟩ := ordered
      have covered := ih sorted
      obtain ⟨moved, unmoved⟩ := cleanupTick_moves env currentRound last history
      by_cases succeeded : (cleanupTick env currentRound last history).Succeeded
      · rw [(moved succeeded).1, scannedUpTo]
        split
        · intro passed position
          cases position
          refine ⟨⟨_, List.mem_append_right _ (List.mem_singleton_self _), ?_⟩, ?_⟩
          · change currentRound = _
            omega
          · intro round above below
            refine window_completed covered ?_ succeeded (by omega) (by omega)
            intro tick member
            exact bounded _ (List.mem_map_of_mem member) _ (List.mem_singleton_self _)
        · exact covered.append _
      · rw [unmoved succeeded]
        exact covered.append _

/-- In every run of the task and for each of its ticks: `last_scanned_round` does not
decrease, `last + 1` stays a `u32`, no round is scanned again by a later tick that returns,
and as long as the rounds of the ticks do not decrease, a tick that returns completes the
window before its round. -/
theorem cleanup_scans_each_round_once (reached : CleanupRun env last history ticks)
    (before after : List (CleanupTick T)) (tick : CleanupTick T)
    (ordered : ticks = before ++ tick :: after) :
    (tick.before ≤ tick.result.store ∧ ∀ earlier ∈ before, earlier.result.store ≤ tick.before) ∧
    (∀ passed, tick.before = some passed → passed + 1 < 2 ^ 32) ∧
    (tick.Succeeded → ∀ earlier ∈ before, earlier.Succeeded →
      ∀ round ∈ earlier.scanned, round ∉ tick.scanned) ∧
    (((before ++ [tick]).map (·.currentRound)).Pairwise (· ≤ ·) → tick.Succeeded →
      ∀ round, tick.currentRound - clearOldRoundsScanRounds ≤ round → round < tick.currentRound →
        ∃ scanning ∈ before ++ [tick], scanning.Succeeded ∧ round ∈ scanning.scanned) := by
  obtain ⟨position, seen, earlierRun, machine, started⟩ := reached.split ordered
  generalize tick.currentRound = currentRound at started machine
  subst started
  have facts := earlierRun.position
  refine ⟨⟨le_cleanupTick env currentRound position seen, facts.stored⟩, facts.bounded, ?_, ?_⟩
  · intro succeeded earlier member completed round scanned again
    rw [((cleanupTick_moves env currentRound position seen).1 succeeded).2] at again
    exact above_last_of_mem again (facts.scanned earlier member completed round scanned)
  · intro sorted succeeded round above below
    rw [List.map_append, List.pairwise_append] at sorted
    obtain ⟨sorted, _, bounded⟩ := sorted
    refine window_completed (earlierRun.window sorted) ?_ succeeded above below
    intro earlier member
    exact bounded _ (List.mem_map_of_mem member) _ (List.mem_singleton_self _)

def ReadsMetadata (env : MinerEnv T) (stored : AtBlock → Nat → Option SubmissionMetadata) : Prop :=
  ∀ history atBlock round found,
    env.answer history (.submissionMetadata atBlock round) = .ok found →
      found = stored atBlock round

/-- The tick read the submission of the round and then went through `clear_old_round_data`
for it, with the number of its stored pages as witness. -/
def Attempted (env : MinerEnv T) (tick : CleanupTick T) (atBlock : AtBlock) (round : Nat)
    (submission : SubmissionMetadata) : Prop :=
  ∃ before after, tick.result.trace =
    before ++ [metadataRead atBlock round (some submission)] ++
      (run env (clearOldRoundData round (submission.pages.count true)) ()
        (tick.history ++ before ++ [metadataRead atBlock round (some submission)])).trace ++ after

/-- A tick that returns tries to clear every submission with stored pages in the part of its
window that no earlier tick has passed. -/
theorem unscanned_submissions_attempted {stored : AtBlock → Nat → Option SubmissionMetadata}
    (reached : CleanupRun env last history ticks) (reads : ReadsMetadata env stored)
    (tick : CleanupTick T) (member : tick ∈ ticks) (succeeded : tick.Succeeded) :
    ∃ atBlock, env.answer tick.history .storageAtHead = .ok atBlock ∧
      ∀ round submission, tick.currentRound - clearOldRoundsScanRounds ≤ round →
        round < tick.currentRound → (∀ passed, tick.before = some passed → passed < round) →
        stored atBlock round = some submission → submission.pages.count true ≠ 0 →
        Attempted env tick atBlock round submission := by
  obtain ⟨before, after, ordered⟩ := List.append_of_mem member
  obtain ⟨position, seen, _, _, started⟩ := reached.split ordered
  generalize tick.currentRound = currentRound at started
  subst started
  have ends := cleanupTick_ends env currentRound position seen
  obtain ⟨_, atBlock, read, scans⟩ := ends.scans succeeded
  refine ⟨atBlock, read, ?_⟩
  intro round submission above below unscanned present pages
  have listed : round ∈ roundsToScan currentRound position := by
    refine mem_roundsToScan.mpr ⟨?_, below⟩
    cases position with
    | none => exact above
    | some passed =>
        have passedRound := unscanned passed rfl
        simp only [startRound]
        exact Nat.max_le.mpr ⟨passedRound, above⟩
  obtain ⟨found, earlier, later, answered, extended⟩ := scans.visits listed
  obtain rfl : found = some submission := (reads _ _ _ _ answered).trans present
  have started : (cleanupTick env currentRound position seen).history = seen := rfl
  refine ⟨⟨.storageAtHead, .ok atBlock⟩ :: earlier, later, ?_⟩
  rw [started]
  simp only [cleanupEvents, if_neg pages, List.append_assoc, List.append_cancel_left_eq] at extended
  simpa using extended

theorem Attempted.scanned {tick : CleanupTick T} {atBlock : AtBlock} {round : Nat}
    {submission : SubmissionMetadata} (attempted : Attempted env tick atBlock round submission) :
    round ∈ tick.scanned := by
  obtain ⟨before, after, trace⟩ := attempted
  refine List.mem_filterMap.mpr ⟨metadataRead atBlock round (some submission), ?_, rfl⟩
  rw [trace]
  simp

end Runs

def unclearedMetadata (_ : AtBlock) : Nat → Option SubmissionMetadata
  | 3 => some ⟨⟨1, 1, 1⟩, [true]⟩
  | 4 => some ⟨⟨1, 1, 1⟩, [false]⟩
  | _ => none

def unclearedAnswer : (op : Op sampleConfig) → Resp op
  | .storageAtHead => .ok 100
  | .submissionMetadata atBlock oldRound => .ok (unclearedMetadata atBlock oldRound)
  | op => unavailable op

def unclearedEnv : MinerEnv sampleConfig := ⟨fun _ op => unclearedAnswer op, fun _ _ => false⟩

def sixthTick : CleanupTick sampleConfig := cleanupTick unclearedEnv 6 none []

def seventhTick : CleanupTick sampleConfig :=
  cleanupTick unclearedEnv 7 (some 5) sixthTick.result.trace

theorem uncleared_run : CleanupRun unclearedEnv (some 6)
    (sixthTick.result.trace ++ seventhTick.result.trace) [sixthTick, seventhTick] := by
  have first : CleanupRun unclearedEnv (some 5) sixthTick.result.trace [sixthTick] :=
    .ticked 6 (by decide) .start (by simp)
  refine .ticked 7 (by decide) first ?_
  intro tick member
  obtain rfl := List.mem_singleton.mp member
  rfl

theorem cleanup_scans_each_round_once_seventh : seventhTick.scanned = [6] ∧
    ∃ scanning ∈ [sixthTick, seventhTick], scanning.Succeeded ∧ 3 ∈ scanning.scanned :=
  ⟨rfl, (cleanup_scans_each_round_once uncleared_run [sixthTick] [] seventhTick rfl).2.2.2
    (by decide) ⟨0, rfl⟩ 3 (by decide) (by decide)⟩

theorem uncleared_reads : ReadsMetadata unclearedEnv unclearedMetadata := by
  intro history atBlock round found answered
  exact (Except.ok.inj answered).symm

theorem unscanned_submissions_attempted_third :
    Attempted unclearedEnv sixthTick 100 3 ⟨⟨1, 1, 1⟩, [true]⟩ := by
  obtain ⟨atBlock, read, attempts⟩ := unscanned_submissions_attempted uncleared_run uncleared_reads
    sixthTick (by simp) ⟨0, rfl⟩
  cases read
  exact attempts 3 _ (by decide) (by decide) (by simp [sixthTick, cleanupTick]) rfl (by decide)

/-- The clearing of round 3 fails at the tick of round 6. The tick of round 7 does not look at
round 3 again, and no tick clears the submission of round 4, which has no pages. -/
theorem failed_cleanup_is_not_retried :
    CleanupRun unclearedEnv (some 6) (sixthTick.result.trace ++ seventhTick.result.trace)
      [sixthTick, seventhTick] ∧
    ReadsMetadata unclearedEnv unclearedMetadata ∧
    (seventhTick.Succeeded ∧ 7 - clearOldRoundsScanRounds ≤ 3 ∧
      unclearedMetadata 100 3 = some ⟨⟨1, 1, 1⟩, [true]⟩ ∧
      ¬Attempted unclearedEnv seventhTick 100 3 ⟨⟨1, 1, 1⟩, [true]⟩) ∧
    (sixthTick.Succeeded ∧ 6 - clearOldRoundsScanRounds ≤ 4 ∧
      unclearedMetadata 100 4 = some ⟨⟨1, 1, 1⟩, [false]⟩ ∧
      ¬Attempted unclearedEnv sixthTick 100 4 ⟨⟨1, 1, 1⟩, [false]⟩) := by
  refine ⟨uncleared_run, uncleared_reads, ⟨⟨0, rfl⟩, by decide, rfl, ?_⟩,
    ⟨⟨0, rfl⟩, by decide, rfl, ?_⟩⟩
  · intro attempted
    have scanned : 3 ∈ [6] := attempted.scanned
    simp at scanned
  · rintro ⟨before, after, trace⟩
    have labels := congrArg (List.map fun event => event.1.scannedRound) trace
    have shape : [none, some 1, some 2, some 3, none, some 4, some 5] =
        before.map (fun event => event.1.scannedRound) ++ some 4 :: none ::
          after.map fun event => event.1.scannedRound := by
      simp only [List.map_append, List.append_assoc] at labels
      exact labels
    simp [List.cons_eq_append_iff] at shape

end LeanStakingMiner
