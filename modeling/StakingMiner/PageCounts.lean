import StakingMiner.ProgramEnds
import StakingMiner.SnapshotRuns

/-!
Page counts under runtime upgrades. The cache keeps the number of pages from the start of
the miner task, each block brings the number that was current when the block was handled,
and a runtime upgrade can change the latter only.
-/

namespace LeanStakingMiner

open LeanProgram

variable {T : MinerConfig} {nPages : Nat} {snapshot : Snapshot T} {trace : MinerTrace T}

def FetchedAt (page : Nat) (target : T.TargetPage) (trace : MinerTrace T) : Prop :=
  ∃ storage round, ⟨.targetSnapshot storage round page, .ok (some (some target))⟩ ∈ trace

structure Snapshot.Sized (nPages : Nat) (trace : MinerTrace T) (snapshot : Snapshot T) : Prop where
  pages : snapshot.nPages = nPages
  inside : ∀ (page : Nat) entry, snapshot.voter[page]? = some entry → page < nPages
  target : ∀ target hash, snapshot.target = some (target, hash) →
    FetchedAt (lastPage nPages) target trace

theorem Snapshot.Sized.mono {longer : MinerTrace T} (sized : snapshot.Sized nPages trace)
    (extended : trace <+: longer) : snapshot.Sized nPages longer := by
  refine ⟨sized.pages, sized.inside, ?_⟩
  intro target hash found
  obtain ⟨storage, round, member⟩ := sized.target target hash found
  exact ⟨storage, round, extended.subset member⟩

theorem Snapshot.sized_new (nPages : Nat) (trace : MinerTrace T) :
    (Snapshot.new nPages).Sized nPages trace := by
  refine ⟨rfl, ?_, ?_⟩
  · simp [Snapshot.new]
  · simp [Snapshot.new]

theorem Snapshot.Sized.clear (sized : snapshot.Sized nPages trace) :
    snapshot.clear.Sized nPages trace := by
  refine ⟨sized.pages, ?_, ?_⟩
  · simp [Snapshot.clear]
  · simp [Snapshot.clear]

def Snapshot.Loaded (snapshot : Snapshot T) (page : Nat) : Prop :=
  ∃ entry, snapshot.voter[page]? = some entry

theorem setVoterPage_sized {page : Nat} (voter : T.VoterPage) (hash : Hash)
    (sized : snapshot.Sized nPages trace) (bound : page < nPages) :
    ∃ updated, snapshot.setVoterPage page voter hash = some updated ∧
      updated.Sized nPages trace ∧ updated.Loaded page ∧
      ∀ other, snapshot.Loaded other → updated.Loaded other := by
  obtain ⟨updated, stored, pages, target, lookup⟩ :=
    setVoterPage_lookup voter hash (sized.pages ▸ bound)
  refine ⟨updated, stored, ⟨pages.trans sized.pages, ?_, ?_⟩, ⟨(voter, hash), ?_⟩, ?_⟩
  · intro other entry found
    rw [lookup other] at found
    by_cases same : page = other
    · omega
    · rw [if_neg same] at found
      exact sized.inside other entry found
  · rw [target]
    exact sized.target
  · exact (lookup page).trans (if_pos rfl)
  · rintro other ⟨entry, found⟩
    by_cases same : page = other
    · exact ⟨_, (lookup other).trans (if_pos same)⟩
    · exact ⟨entry, (lookup other).trans ((if_neg same).trans found)⟩

def traceMonitor : Monitor (Op T) Resp (MinerTrace T) :=
  Monitor.tracing (fun _ _ => True) fun _ _ => True

theorem traceMonitor_permissive (trace : MinerTrace T) (op : Op T) :
    traceMonitor.allows trace op := trivial

theorem Snapshot.Sized.later (sized : snapshot.Sized nPages trace) (event : Event (Op T) Resp) :
    snapshot.Sized nPages (trace ++ [event]) :=
  sized.mono (List.prefix_append trace _)

theorem checkAndUpdateVoterSnapshot_sized (page round : Nat) (storage : AtBlock)
    (sized : snapshot.Sized nPages trace) (bound : page < nPages) :
    wp traceMonitor (checkAndUpdateVoterSnapshot page round storage)
      (fun outcome store after => outcome ≠ .panic ∧ store.Sized nPages after ∧
        (∀ other, snapshot.Loaded other → store.Loaded other) ∧
        (outcome = .ok () → store.Loaded page)) snapshot trace := by
  refine wp_fetch_seq (.voterSnapshotHash storage round page) id trivial
    (fun _ _ => ⟨by simp, sized.later _, fun _ kept => kept, by simp⟩) ?_
  intro hashAnswer hash _ _
  have hashed := sized.later ⟨.voterSnapshotHash storage round page, hashAnswer⟩
  rw [wp_bind, wp_load, followedBy_ok]
  split
  · refine wp_fetch_seq (.voterSnapshot storage round page) id trivial
      (fun _ _ => ⟨by simp, hashed.later _, fun _ kept => kept, by simp⟩) ?_
    intro pageAnswer voter _ _
    obtain ⟨updated, stored, kept, loaded, others⟩ := setVoterPage_sized voter hash
      (hashed.later ⟨.voterSnapshot storage round page, pageAnswer⟩) bound
    simp only [storeVoterPage, wp, stored]
    exact ⟨by simp, kept, others, fun _ => loaded⟩
  · rename_i cached
    refine ⟨by simp, hashed, fun _ kept => kept, fun _ => ?_⟩
    unfold Snapshot.needsVoterPage at cached
    cases found : snapshot.voter[page]? with
    | none => simp [found] at cached
    | some entry => exact ⟨entry, found⟩

theorem checkAndUpdateTargetSnapshot_sized (round : Nat) (storage : AtBlock)
    (sized : snapshot.Sized nPages trace) :
    wp traceMonitor (checkAndUpdateTargetSnapshot (lastPage nPages) round storage)
      (fun outcome store after => outcome ≠ .panic ∧ store.Sized nPages after ∧
        store.voter = snapshot.voter ∧ (outcome = .ok () → ∃ entry, store.target = some entry))
      snapshot trace := by
  refine wp_fetch_seq (.targetSnapshotHash storage round (lastPage nPages)) id trivial
    (fun _ _ => ⟨by simp, sized.later _, rfl, by simp⟩) ?_
  intro hashAnswer hash _ _
  have hashed := sized.later ⟨.targetSnapshotHash storage round (lastPage nPages), hashAnswer⟩
  rw [wp_bind, wp_load, followedBy_ok]
  split
  · refine wp_fetch_seq (.targetSnapshot storage round (lastPage nPages)) id trivial
      (fun _ _ => ⟨by simp, hashed.later _, rfl, by simp⟩) ?_
    rintro pageAnswer target _ rfl
    have paged := hashed.later
      ⟨.targetSnapshot storage round (lastPage nPages), .ok (some (some target))⟩
    rw [wp_modify]
    refine ⟨by simp, ⟨paged.pages, paged.inside, ?_⟩, rfl, fun _ => ⟨_, rfl⟩⟩
    intro stored storedHash found
    simp only [Snapshot.setTargetSnapshot, Option.some.injEq, Prod.mk.injEq] at found
    obtain ⟨rfl, rfl⟩ := found
    exact ⟨storage, round, List.mem_append_right _ (List.mem_singleton_self _)⟩
  · rename_i cached
    refine ⟨by simp, hashed, rfl, fun _ => ?_⟩
    unfold Snapshot.needsTargetSnapshot at cached
    cases found : snapshot.target with
    | none => simp [found] at cached
    | some entry => exact ⟨entry, rfl⟩

theorem fetchVoterPages_sized (round : Nat) (storage : AtBlock) (pages : List Nat)
    (sized : snapshot.Sized nPages trace) (bounds : ∀ page ∈ pages, page < nPages) :
    wp traceMonitor (fetchVoterPages round storage pages)
      (fun outcome store after => outcome ≠ .panic ∧ store.Sized nPages after ∧
        (∀ other, snapshot.Loaded other → store.Loaded other) ∧
        (outcome = .ok () → ∀ page ∈ pages, store.Loaded page)) snapshot trace := by
  induction pages generalizing snapshot trace with
  | nil => exact ⟨by simp, sized, fun _ kept => kept, by simp⟩
  | cons page rest ih =>
      refine wp_seq (checkAndUpdateVoterSnapshot_sized page round storage sized
        (bounds page (by simp))) ?_ ?_ ?_
      · rintro _ store after ⟨_, kept, earlier, loaded⟩
        have inside (other : Nat) (member : other ∈ rest) := bounds other (by simp [member])
        refine wp_mono (ih kept inside) ?_
        rintro outcome final longer ⟨calm, finalKept, later, all⟩
        refine ⟨calm, finalKept, fun other had => later other (earlier other had), ?_⟩
        intro finished other member
        rcases List.mem_cons.mp member with rfl | member
        · exact later other (loaded rfl)
        · exact all finished other member
      · rintro error store after ⟨_, kept, earlier, _⟩
        exact ⟨by simp, kept, earlier, by simp⟩
      · rintro store after ⟨calm, _⟩
        exact absurd rfl calm

theorem fetchVoterPagesLossy_sized (round : Nat) (storage : AtBlock) (pages : List Nat)
    (sized : snapshot.Sized nPages trace) (bounds : ∀ page ∈ pages, page < nPages) :
    wp traceMonitor (fetchVoterPagesLossy round storage pages)
      (fun outcome store after => outcome ≠ .panic ∧ store.Sized nPages after) snapshot trace := by
  induction pages generalizing snapshot trace with
  | nil => exact ⟨by simp, sized⟩
  | cons page rest ih =>
      have inside (other : Nat) (member : other ∈ rest) := bounds other (by simp [member])
      rw [fetchVoterPagesLossy, wp_bind, wp_attempt]
      refine wp_mono (checkAndUpdateVoterSnapshot_sized page round storage sized
        (bounds page (by simp))) ?_
      rintro (_ | error | _) store after ⟨calm, kept, _⟩
      · exact ih kept inside
      · simp only [caught, followedBy_ok]
        split
        · exact ih kept inside
        · exact ih kept inside
        · exact ⟨by simp, kept⟩
      · exact absurd rfl calm

theorem get_sized (sized : snapshot.Sized nPages trace)
    (full : ∀ page < nPages, snapshot.Loaded page) {entry : T.TargetPage × Hash}
    (found : snapshot.target = some entry) :
    ∃ target voters, snapshot.get = some (target, voters) ∧ voters.length = nPages ∧
      FetchedAt (lastPage nPages) target trace := by
  have keys := congrArg List.length (voter_keys sized.inside full)
  refine ⟨entry.1, snapshot.voter.toList.map fun entry => entry.2.1,
    by simp [Snapshot.get, found], ?_, sized.target entry.1 entry.2 found⟩
  simpa using keys

theorem fetchMissingSnapshots_sized (round : Nat) (storage : AtBlock)
    (sized : snapshot.Sized nPages trace) :
    wp traceMonitor (fetchMissingSnapshots storage round)
      (fun outcome store after => outcome ≠ .panic ∧ store.Sized nPages after ∧
        (outcome = .ok () → ∃ target voters, store.get = some (target, voters) ∧
          voters.length = nPages ∧ FetchedAt (lastPage nPages) target after)) snapshot trace := by
  have bounds (page : Nat) (member : page ∈ List.range snapshot.nPages) : page < nPages := by
    rw [← sized.pages]
    exact List.mem_range.mp member
  rw [fetchMissingSnapshots, wp_bind, wp_load, followedBy_ok, wp_bind]
  refine wp_mono (fetchVoterPages_sized round storage _ sized bounds) ?_
  rintro (_ | error | _) store after ⟨calm, kept, _, loaded⟩
  · rw [followedBy_ok, sized.pages]
    refine wp_mono (checkAndUpdateTargetSnapshot_sized round storage kept) ?_
    rintro outcome final longer ⟨stillCalm, finalKept, sameVoters, target⟩
    refine ⟨stillCalm, finalKept, fun finished => ?_⟩
    obtain ⟨entry, found⟩ := target finished
    refine get_sized finalKept ?_ found
    intro page bound
    obtain ⟨entry, loadedEntry⟩ := loaded rfl page (by simpa [sized.pages] using bound)
    exact ⟨entry, by rw [sameVoters, loadedEntry]⟩
  · exact ⟨by simp, kept, by simp⟩
  · exact absurd rfl calm

theorem fetchMissingSnapshotsLossy_sized (round : Nat) (storage : AtBlock)
    (sized : snapshot.Sized nPages trace) :
    wp traceMonitor (fetchMissingSnapshotsLossy storage round)
      (fun _ store after => store.Sized nPages after) snapshot trace := by
  have bounds (page : Nat) (member : page ∈ List.range snapshot.nPages) : page < nPages := by
    rw [← sized.pages]
    exact List.mem_range.mp member
  rw [fetchMissingSnapshotsLossy, wp_bind, wp_load, followedBy_ok, wp_bind]
  refine wp_mono (fetchVoterPagesLossy_sized round storage _ sized bounds) ?_
  rintro (_ | error | _) store after ⟨_, kept⟩
  · rw [followedBy_ok, wp_bind, wp_attempt, sized.pages]
    refine wp_mono (checkAndUpdateTargetSnapshot_sized round storage kept) ?_
    rintro (_ | error | _) final longer ⟨_, finalKept, _⟩
    · exact finalKept
    · exact finalKept
    · exact finalKept
  · exact kept
  · exact kept

theorem mineAndValidate_sized (details : BlockDetails) (doReduce : Bool)
    (sized : snapshot.Sized nPages trace) :
    wp traceMonitor (mineAndValidate details doReduce)
      (fun _ store after => store.Sized nPages after) snapshot trace := by
  refine wp_seq (fetchMissingSnapshots_sized details.round details.atBlock sized) ?_
    (fun _ _ _ kept => kept.2.1) (fun _ _ kept => kept.2.1)
  rintro _ store after ⟨_, kept, _⟩
  rw [wp_bind, wp_load, followedBy_ok]
  split
  · exact kept
  · refine wp_tracing_lift_seq traceMonitor_permissive ?_ (fun _ _ => kept.mono) (fun _ => kept.mono)
    intro solution longer extended
    rw [wp_lift]
    refine wp_mono (wp_tracing_extends (wp_trivial traceMonitor_permissive _ () longer)) ?_
    rintro outcome _ final ⟨_, more⟩
    exact kept.mono (extended.trans more)

theorem refreshCache_sized (details : BlockDetails) (doReduce : Bool) (state : MinerState T)
    (sized : state.snapshot.Sized nPages trace) :
    wp traceMonitor (refreshCache details doReduce)
      (fun _ store after => store.snapshot.Sized nPages after) state trace := by
  rw [refreshCache, wp_bind, wp_load, followedBy_ok]
  split
  · rw [wp_bind, wp_zoom]
    refine wp_mono (mineAndValidate_sized details doReduce sized) ?_
    rintro (solution | error | _) store after kept
    · exact kept
    · exact kept
    · exact kept
  · exact sized

theorem mineAndSubmit_sized (config : ProcessConfig) (details : BlockDetails)
    (state : MinerState T) (sized : state.snapshot.Sized nPages trace) :
    wp traceMonitor (mineAndSubmit config details)
      (fun _ store after => store.snapshot.Sized nPages after) state trace := by
  refine wp_seq (refreshCache_sized details config.doReduce state sized) ?_
    (fun _ _ _ kept => kept) (fun _ _ kept => kept)
  intro _ store after kept
  rw [wp_bind, wp_load, followedBy_ok]
  split
  · exact kept
  · split
    · rw [wp_lift]
      refine wp_mono (wp_tracing_extends (wp_trivial traceMonitor_permissive _ () after)) ?_
      rintro outcome _ longer ⟨_, extended⟩
      exact kept.mono extended
    · refine wp_mono (wp_tracing_extends (submitSolution_store traceMonitor_permissive config
        details _ store after)) ?_
      rintro outcome final longer ⟨⟨same, _⟩, extended⟩
      rw [same]
      exact kept.mono extended

theorem processBlock_sized (config : ProcessConfig) (details : BlockDetails)
    (state : MinerState T) (sized : state.snapshot.Sized nPages trace) :
    wp traceMonitor (processBlock config details)
      (fun _ store after => store.snapshot.Sized nPages after) state trace := by
  refine wp_tracing_lift_seq traceMonitor_permissive ?_ (fun _ _ => sized.mono) (fun _ => sized.mono)
  intro balance after extended
  have kept := sized.mono extended
  cases balance with
  | finished => exact kept
  | proceed =>
      have checked : wp traceMonitor (checkPhase config.minSignedPhaseBlocks details)
          (fun _ store after => store.snapshot.Sized nPages after) state after := by
        unfold checkPhase
        split
        · rw [wp_bind, wp_zoom]
          refine wp_mono (fetchMissingSnapshotsLossy_sized details.round details.atBlock kept) ?_
          rintro (_ | error | _) store longer fetched
          · exact fetched
          · exact fetched
          · exact fetched
        · split
          · exact kept
          · exact kept
        · exact kept
      refine wp_seq checked ?_ (fun _ _ _ kept => kept) (fun _ _ kept => kept)
      intro flow store longer kept
      cases flow with
      | finished => exact kept
      | proceed =>
          refine wp_tracing_lift_seq traceMonitor_permissive ?_ (fun _ _ => kept.mono)
            (fun _ => kept.mono)
          intro submitted final more
          split
          · exact kept.mono more
          · exact mineAndSubmit_sized config details store (kept.mono more)

theorem traceMonitor_expected (start trace : MinerTrace T) : traceMonitor.Expected start trace := by
  induction trace generalizing start with
  | nil => trivial
  | cons event rest ih => exact ⟨trivial, ih _⟩

theorem MinerRun.sized {config : ProcessConfig} {env : MinerEnv T} {state : MinerState T}
    {history : MinerTrace T} {blocks : List (ProcessedBlock T)}
    (reached : MinerRun config env nPages state history blocks) :
    state.snapshot.Sized nPages history := by
  induction reached with
  | start => exact Snapshot.sized_new nPages []
  | cleared _ ih => exact ih.clear
  | processed details _ _ ih =>
      rename_i state history blocks _ _
      have kept := (wp_run env history (processBlock_sized config details _ ih)
        (traceMonitor_expected _ _)).2
      rwa [traceMonitor, tracing_after] at kept

/-- The solver is given the target page and the voter pages that the cache holds, the
latter cut at what `Pages` allows at that moment. -/
def TakenFrom (snapshot : Snapshot T) (details : BlockDetails) (voters : List T.VoterPage)
    (input : MineInput T) : Prop :=
  snapshot.get = some (input.allTargets, voters) ∧ input.pages = details.nPages ∧
    ∃ bound, input.voterPages = voters.take bound

def minesFrom (snapshot : Snapshot T) (details : BlockDetails) (voters : List T.VoterPage) :
    Op T → Prop
  | .mineSolution input => TakenFrom snapshot details voters input
  | _ => True

theorem mineSolution_takes {target : T.TargetPage} {voters : List T.VoterPage}
    (details : BlockDetails) (doReduce : Bool) (found : snapshot.get = some (target, voters)) :
    (Monitor.issuing Resp (minesFrom snapshot details voters)).Permits
      (mineSolution target voters details.nPages details.round details.desiredTargets doReduce) := by
  refine Monitor.Permits.bind (ask_permitted fun _ => trivial) fun bound => ?_
  refine Monitor.Permits.bind (ask_permitted fun _ => ⟨found, rfl, bound, rfl⟩) fun mined => ?_
  cases mined with
  | _ => exact fun _ _ => trivial

def mineFetched (details : BlockDetails) (doReduce : Bool) : Fetch T (PagedRawSolution T) := do
  let snapshot ← Program.load
  match snapshot.get with
  | none => Program.panic
  | some (targetSnapshot, voterSnapshot) => do
      let solution ← (withTimeout (.mining 600) (mineSolution targetSnapshot voterSnapshot
        details.nPages details.round details.desiredTargets doReduce)).lift
      (validateSolution solution details.round details.desiredTargets).lift

theorem mineAndValidate_eq (details : BlockDetails) (doReduce : Bool) :
    (mineAndValidate details doReduce : Fetch T (PagedRawSolution T)) =
      fetchMissingSnapshots details.atBlock details.round >>= fun _ =>
        mineFetched details doReduce := rfl

theorem mineFetched_takes {target : T.TargetPage} {voters : List T.VoterPage}
    (details : BlockDetails) (doReduce : Bool) (found : snapshot.get = some (target, voters)) :
    wp (Monitor.issuing Resp (minesFrom snapshot details voters)) (mineFetched details doReduce)
      (fun _ store _ => store = snapshot) snapshot () := by
  have mines : (Monitor.issuing Resp (minesFrom snapshot details voters)).Permits
      (withTimeout (.mining 600) (mineSolution target voters details.nPages details.round
        details.desiredTargets doReduce)) := by
    refine Monitor.Permits.bind ((mineSolution_takes details doReduce found).timeout _) ?_
    intro result
    rcases result with _ | _ | _
    · exact fun _ _ => trivial
    · exact fun _ _ => trivial
    · exact fun _ _ => trivial
  have validates (solution : PagedRawSolution T) :
      (Monitor.issuing Resp (minesFrom snapshot details voters)).Permits
        (validateSolution solution details.round details.desiredTargets) := by
    unfold validateSolution
    split
    · exact fun _ _ => trivial
    · refine Monitor.Permits.bind (ask_permitted fun _ => trivial) fun bound => ?_
      split
      · exact fun _ _ => trivial
      · split
        · exact fun _ _ => trivial
        · exact fun _ _ => trivial
  rw [mineFetched, wp_bind, wp_load, followedBy_ok, found]
  rw [wp_bind, wp_lift]
  refine wp_mono (mines () ()) ?_
  rintro (solution | error | _) _ _ _
  · rw [followedBy_ok, wp_lift]
    exact wp_mono (validates solution () ()) fun _ _ _ _ => rfl
  · rfl
  · rfl

theorem mineAndValidate_passes (env : MinerEnv T) (details : BlockDetails) (doReduce : Bool)
    (history : MinerTrace T) (sized : snapshot.Sized nPages history) {input : MineInput T}
    {answer : MineResult T}
    (calls : ⟨.mineSolution input, answer⟩ ∈
      (run env (mineAndValidate details doReduce) snapshot history).trace) :
    ∃ voters, voters.length = nPages ∧
      TakenFrom (run env (mineAndValidate details doReduce) snapshot history).store details voters
        input ∧
      FetchedAt (lastPage nPages) input.allTargets
        (history ++ (run env (mineAndValidate details doReduce) snapshot history).trace) := by
  have fetch := (wp_run env history (fetchMissingSnapshots_sized details.round details.atBlock sized)
    (traceMonitor_expected _ _)).2
  have silent := run_issued env history
    (fetchMissingSnapshots_issues details.atBlock details.round snapshot)
  rw [mineAndValidate_eq, run_bind] at calls ⊢
  generalize run env (fetchMissingSnapshots details.atBlock details.round) snapshot history = first
    at fetch silent calls ⊢
  rw [traceMonitor, tracing_after] at fetch
  obtain ⟨outcome, store, fetching⟩ := first
  have unmined : ⟨.mineSolution input, answer⟩ ∉ fetching := by
    intro member
    have kind := silent _ member
    simp [Op.kind] at kind
  cases outcome with
  | panic => exact absurd calls unmined
  | err error => exact absurd calls unmined
  | ok _ =>
      obtain ⟨target, voters, found, count, fetchedAt⟩ := fetch.2.2 rfl
      have takes := mineFetched_takes details doReduce found
      have later : ⟨.mineSolution input, answer⟩ ∈
          (run env (mineFetched details doReduce) store (history ++ fetching)).trace :=
        (List.mem_append.mp calls).resolve_left unmined
      have taken : TakenFrom store details voters input :=
        run_issued env (history ++ fetching) takes _ later
      have kept : Ends env (mineFetched details doReduce)
          (fun _ after _ => after = store) store (history ++ fetching) :=
        (ends_of_issuing takes).mono fun _ _ _ ended => ended.1
      have same : target = input.allTargets := by
        have both := found.symm.trans taken.1
        simp only [Option.some.injEq, Prod.mk.injEq] at both
        exact both.1
      refine ⟨voters, count, ?_, ?_⟩
      · change TakenFrom (run env (mineFetched details doReduce) store (history ++ fetching)).store
          details voters input
        rw [show _ = store from kept]
        exact taken
      · obtain ⟨storage, round, member⟩ := fetchedAt
        refine ⟨storage, round, ?_⟩
        rw [← same]
        change _ ∈ history ++ (fetching ++ _)
        rw [← List.append_assoc]
        exact List.mem_append_left _ member

/-- Whenever `mine_and_validate` calls the solver, the voter pages it passes are as many as
the block's page count, and the target page was read at the last page of that count, if and
only if the block's page count is the one the miner task started with. -/
theorem mined_page_counts_agree_iff (config : ProcessConfig) (env : MinerEnv T) (pages : Nat)
    (positive : 1 ≤ pages) (fits : pages < 2 ^ 32) (state : MinerState T) (history : MinerTrace T)
    (blocks : List (ProcessedBlock T)) (reached : MinerRun config env pages state history blocks)
    (details : BlockDetails) (doReduce : Bool) (earlier : MinerTrace T) (input : MineInput T)
    (answer : MineResult T)
    (calls : ⟨.mineSolution input, answer⟩ ∈
      (run env (mineAndValidate details doReduce) state.snapshot (history ++ earlier)).trace) :
    let call := run env (mineAndValidate details doReduce) state.snapshot (history ++ earlier)
    ∃ voters, TakenFrom call.store details voters input ∧
      ((voters.length = input.pages ∧
          FetchedAt (input.pages - 1) input.allTargets (history ++ earlier ++ call.trace)) ↔
        details.nPages = pages) := by
  intro call
  have sized := reached.sized.mono (List.prefix_append history earlier)
  obtain ⟨voters, count, taken, fetchedAt⟩ :=
    mineAndValidate_passes env details doReduce (history ++ earlier) sized calls
  refine ⟨voters, taken, ?_⟩
  have passed : input.pages = details.nPages := taken.2.1
  constructor
  · rintro ⟨agrees, _⟩
    omega
  · intro agrees
    have last : input.pages - 1 = lastPage pages := by
      rw [lastPage_eq positive fits]
      omega
    rw [last]
    exact ⟨by omega, fetchedAt⟩

theorem mined_page_counts_agree_iff_unchanged :
    let env : MinerEnv sampleConfig := ⟨fun _ => sampleAnswer, fun _ _ => false⟩
    let call := run env (mineAndValidate ⟨50, .signed 20, 2, 7, 3, 50⟩ false)
      (MinerState.initial 2 : MinerState sampleConfig).snapshot []
    ∃ voters, TakenFrom call.store ⟨50, .signed 20, 2, 7, 3, 50⟩ voters
        ⟨3, 701, [70, 71], 2, false, 7⟩ ∧
      ((voters.length = 2 ∧ FetchedAt (T := sampleConfig) 1 701 call.trace) ↔ 2 = 2) := by
  intro env call
  exact mined_page_counts_agree_iff ⟨.always, false, 0, 10, false⟩ env 2 (by decide) (by decide) _ []
    [] MinerRun.start ⟨50, .signed 20, 2, 7, 3, 50⟩ false [] ⟨3, 701, [70, 71], 2, false, 7⟩
    (.minerError "") (List.mem_of_getElem? (i := 7) rfl)

def upgradedEnv : MinerEnv sampleConfig where
  answer _ op := match op with
    | .pages => 4
    | op => sampleAnswer op
  fired _ _ := false

def upgradedDetails : BlockDetails := ⟨50, .signed 20, 4, 7, 3, 50⟩

/-- The miner task started with two pages; after the upgrade it passes on two voter pages
and calls them four. -/
theorem upgrade_leaves_old_page_count :
    let call := run upgradedEnv (mineAndValidate upgradedDetails false)
      (MinerState.initial 2 : MinerState sampleConfig).snapshot []
    ∃ input answer, ⟨.mineSolution input, answer⟩ ∈ call.trace ∧
      TakenFrom call.store upgradedDetails [70, 71] input ∧ [70, 71].length ≠ input.pages := by
  intro call
  refine ⟨⟨3, 701, [70, 71], 4, false, 7⟩, .minerError "", ?_, ⟨?_, rfl, 4, rfl⟩, by decide⟩
  · exact List.mem_of_getElem? (i := 7) rfl
  · decide +kernel

end LeanStakingMiner
