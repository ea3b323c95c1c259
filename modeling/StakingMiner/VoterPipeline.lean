import StakingMiner.ChainLogic
import StakingMiner.StakingCore
import StakingMiner.Transitions
import StakingMiner.Traversals

/-!
The pipeline of batch tasks. In whatever order the tasks finish, `fetch_voters` returns what
going through the batches one by one would give.
-/

namespace LeanStakingMiner

open LeanKeyed LeanTransitions LeanTraversal Relation

variable {Account : Type}

section Batch

variable {libraries : StakingLibraries Account}

theorem fetchVoter_account {reads : VoterReads Account} {voter : Account × Nat}
    {entry : Account × Nat × Option (Option (Nominations Account))}
    (fetched : fetchVoter libraries reads voter = .ok entry) : entry.1 = voter.1 := by
  simp only [fetchVoter, bind, Except.bind, pure, Except.pure] at fetched
  repeat' split at fetched
  all_goals cases fetched
  all_goals rfl

theorem fetchVoterBatch_accounts {reads : Account → VoterReads Account}
    {voters : List (Account × Nat)} {results : BatchResult Account}
    (fetched : fetchVoterBatch libraries reads voters = .ok results) :
    results.map Prod.fst = voters.map Prod.fst := by
  rw [fetchVoterBatch, mapM_eq_ok_iff, List.map_map] at fetched
  induction voters generalizing results with
  | nil =>
      obtain rfl : results = [] := by simpa using fetched.symm
      rfl
  | cons voter rest ih =>
      cases results with
      | nil => simp at fetched
      | cons entry others =>
          rw [List.map_cons, List.map_cons, List.cons.injEq] at fetched
          rw [List.map_cons, List.map_cons, ih fetched.2, List.cons.injEq]
          refine ⟨?_, rfl⟩
          have first := fetched.1
          rw [Function.comp_apply] at first
          cases given : fetchVoter libraries (reads voter.1) voter with
          | error e => simp [given, bind, Except.bind] at first
          | ok fetchedEntry =>
              rw [← fetchVoter_account given]
              simp only [given, bind, Except.bind, pure, Except.pure, Except.ok.injEq] at first
              rw [← first]

theorem retryBatch_ok {β : Type} {fetch : Nat → Except Error β} {attempts : List Nat}
    {lastError : Option Error} {results : β}
    (fetched : retryBatch libraries fetch attempts lastError = .ok results) :
    ∃ attempt, fetch attempt = .ok results := by
  induction attempts generalizing lastError with
  | nil => simp [retryBatch] at fetched
  | cons attempt rest ih =>
      rw [retryBatch] at fetched
      cases given : fetch attempt with
      | ok value =>
          rw [given] at fetched
          exact ⟨attempt, given.trans fetched⟩
      | error e =>
          simp only [given] at fetched
          split at fetched
          · exact ih fetched
          · cases fetched

theorem await_accounts {tasks : BatchTasks Account} {handle : BatchHandle Account}
    {results : BatchResult Account} (fetched : tasks.await libraries handle = .ok results) :
    results.map Prod.fst = handle.1.map Prod.fst := by
  rw [BatchTasks.await] at fetched
  cases joined : tasks.joinError handle.2 with
  | some e => simp [joined] at fetched
  | none =>
      simp only [joined] at fetched
      obtain ⟨attempt, given⟩ := retryBatch_ok fetched
      exact fetchVoterBatch_accounts given

theorem accounts_of_batches {await : BatchHandle Account → Except Error (BatchResult Account)}
    {voters : List (Account × Nat)} {results : List (BatchResult Account)}
    (listed : ∀ handle more, await handle = .ok more →
      more.map Prod.fst = handle.1.map Prod.fst)
    (fetched : (chunks batchSize voters).zipIdx.mapM await = .ok results) :
    results.flatten.map Prod.fst = voters.map Prod.fst := by
  have each (handles : List (BatchHandle Account)) (results : List (BatchResult Account))
      (done : handles.map await = results.map .ok) :
      results.flatten.map Prod.fst = (handles.map Prod.fst).flatten.map Prod.fst := by
    induction handles generalizing results with
    | nil =>
        obtain rfl : results = [] := by simpa using done.symm
        rfl
    | cons handle rest ih =>
        cases results with
        | nil => simp at done
        | cons more others =>
            rw [List.map_cons, List.map_cons, List.cons.injEq] at done
            rw [List.flatten_cons, List.map_append, ih others done.2, listed handle more done.1]
            simp
  rw [each _ results (mapM_eq_ok_iff.mp fetched), List.zipIdx_map_fst,
    chunks_flatten (by decide)]

end Batch

theorem truncate_eq (voterLimit : Nat) (data : List (NominatorData Account)) :
    truncate voterLimit data = data.take voterLimit := by
  rw [truncate]
  split
  · rfl
  · exact (List.take_of_length_le (by omega)).symm

section Measure

namespace Pipeline

variable {pipeline : Pipeline Account}

def unfinished (pipeline : Pipeline Account) : Nat :=
  ((List.range pipeline.spawned).filter fun task => task ∉ pipeline.finished).length

def weight : Fetching Account → Nat
  | .spawning => 2
  | .awaiting => 3
  | .joining => 1
  | .returned _ => 0

def size (pipeline : Pipeline Account) : Nat :=
  3 * pipeline.remaining.length + pipeline.unfinished + weight pipeline.control

theorem unfinished_finish {task : Nat} (running : task < pipeline.spawned)
    (unmarked : task ∉ pipeline.finished) :
    (pipeline.finish task).unfinished < pipeline.unfinished :=
  length_filter_not_mem_cons_lt (List.mem_range.mpr running) unmarked

theorem unfinished_spawn (pipeline : Pipeline Account) (chunk : List (Account × Nat))
    (rest : List (List (Account × Nat))) :
    (pipeline.spawn chunk rest).unfinished ≤ pipeline.unfinished + 1 := by
  change ((List.range (pipeline.spawned + 1)).filter _).length ≤ _
  rw [List.range_succ, List.filter_append, List.length_append, unfinished]
  exact Nat.add_le_add_left (List.length_filter_le _ _) _

theorem size_lt {after : Pipeline Account} (left : after.remaining = pipeline.remaining)
    (tasks : after.unfinished = pipeline.unfinished)
    (lighter : weight after.control < weight pipeline.control) : after.size < pipeline.size := by
  rw [size, left, tasks]
  exact Nat.add_lt_add_left lighter _

end Pipeline

end Measure

variable [DecidableEq Account]

section Classify

def eligible (validatorKeys : List Account) (entry : Account × Nat × Option (List Account)) :
    Option (NominatorData Account) :=
  match entry.2.2 with
  | some targets => if targets = [] then none else some (entry.1, entry.2.1, targets)
  | none => if entry.1 ∈ validatorKeys then some (entry.1, entry.2.1, [entry.1]) else none

variable (validatorKeys : List Account)

theorem classify_eq (data : List (NominatorData Account))
    (entry : Account × Nat × Option (List Account)) :
    classify validatorKeys data entry = data ++ (eligible validatorKeys entry).toList := by
  obtain ⟨account, stake, maybeTargets⟩ := entry
  cases maybeTargets with
  | none =>
      simp only [classify, eligible]
      split <;> simp
  | some targets => cases targets <;> simp [classify, eligible]

theorem classifyRemaining_eq : classifyRemaining validatorKeys = classify validatorKeys := rfl

theorem foldl_classify (results : BatchResult Account) (data : List (NominatorData Account)) :
    results.foldl (classify validatorKeys) data =
      data ++ results.filterMap (eligible validatorKeys) := by
  induction results generalizing data with
  | nil => simp
  | cons entry rest ih =>
      rw [List.foldl_cons, ih, classify_eq, List.append_assoc, List.filterMap_cons]
      cases eligible validatorKeys entry <;> rfl

theorem absorbAll_cons_ok (data : List (NominatorData Account)) (results : BatchResult Account)
    (rest : List (Except Error (BatchResult Account))) :
    Pipeline.absorbAll validatorKeys data (.ok results :: rest) =
      Pipeline.absorbAll validatorKeys
        (data ++ results.filterMap (eligible validatorKeys)) rest := by
  rw [← foldl_classify, ← classifyRemaining_eq]
  rfl

theorem absorbAll_eq {await : BatchHandle Account → Except Error (BatchResult Account)}
    (handles : List (BatchHandle Account)) (data : List (NominatorData Account)) :
    Pipeline.absorbAll validatorKeys data (handles.map await) = (handles.mapM await).map
      fun results => data ++ results.flatten.filterMap (eligible validatorKeys) := by
  induction handles generalizing data with
  | nil => simp [Pipeline.absorbAll, pure, Except.pure, Except.map]
  | cons handle rest ih =>
      rw [List.map_cons]
      cases given : await handle with
      | error e =>
          rw [mapM_cons_error given]
          rfl
      | ok results =>
          rw [mapM_cons_ok given, absorbAll_cons_ok, ih]
          cases rest.mapM await <;> simp [Except.map]

end Classify

/-- Going through the batches one by one. -/
def sequentialFetch (await : BatchHandle Account → Except Error (BatchResult Account))
    (validatorKeys : List Account) (voterLimit : Nat) (voters : List (Account × Nat)) :
    Except Error (List (NominatorData Account)) := do
  let results ← (chunks batchSize voters).zipIdx.mapM await
  pure ((results.flatten.filterMap (eligible validatorKeys)).take voterLimit)

namespace Pipeline

variable {await : BatchHandle Account → Except Error (BatchResult Account)}
  {pipeline after : Pipeline Account}

theorem advance_cases (goes : pipeline.advance await = some after) :
    (∃ chunk rest, pipeline.control = .spawning ∧ pipeline.remaining = chunk :: rest ∧
      after = pipeline.spawn chunk rest) ∨
    (pipeline.control = .spawning ∧ pipeline.remaining = [] ∧
      after = { pipeline with control := .joining }) ∨
    (∃ handle handles results, pipeline.control = .awaiting ∧
      pipeline.batchHandles = handle :: handles ∧ await handle = .ok results ∧
      after = pipeline.absorb handles results) ∨
    (∃ handle handles e, pipeline.control = .awaiting ∧
      pipeline.batchHandles = handle :: handles ∧ await handle = .error e ∧
      after = { pipeline with control := .returned (.error e) }) ∨
    (pipeline.control = .joining ∧ after = { pipeline with
      control := .returned ((absorbAll pipeline.validatorKeys pipeline.completeVoterData
        (pipeline.batchHandles.map await)).map (truncate pipeline.voterLimit)) }) := by
  rw [advance] at goes
  cases control : pipeline.control with
  | spawning =>
      cases left : pipeline.remaining with
      | nil =>
          simp only [control, left, Option.some.injEq] at goes
          exact .inr (.inl ⟨rfl, rfl, goes.symm⟩)
      | cons chunk rest =>
          simp only [control, left, Option.some.injEq] at goes
          exact .inl ⟨chunk, rest, rfl, rfl, goes.symm⟩
  | awaiting =>
      cases window : pipeline.batchHandles with
      | nil => simp [control, window] at goes
      | cons handle handles =>
          simp only [control, window, Option.ite_none_right_eq_some] at goes
          obtain ⟨_, goes⟩ := goes
          cases given : await handle with
          | ok results =>
              simp only [given, Option.some.injEq] at goes
              exact .inr (.inr (.inl ⟨handle, handles, results, rfl, rfl, given, goes.symm⟩))
          | error e =>
              simp only [given, Option.some.injEq] at goes
              exact .inr (.inr (.inr (.inl ⟨handle, handles, e, rfl, rfl, given, goes.symm⟩)))
  | joining =>
      simp only [control, Option.ite_none_right_eq_some, Option.some.injEq] at goes
      exact .inr (.inr (.inr (.inr ⟨rfl, goes.2.symm⟩)))
  | returned result => simp [control] at goes

section Runs

variable (await) (validatorKeys : List Account) (voterLimit : Nat) (voters : List (Account × Nat))

def Stage (pipeline : Pipeline Account) : Fetching Account → Prop
  | .spawning => pipeline.batchHandles.length < maxConcurrentBatches
  | .awaiting => pipeline.batchHandles ≠ []
  | .joining => pipeline.remaining = []
  | .returned result => result = sequentialFetch await validatorKeys voterLimit voters

structure Tracks (awaited : List (BatchHandle Account)) (results : List (BatchResult Account))
    (pipeline : Pipeline Account) : Prop where
  keys : pipeline.validatorKeys = validatorKeys
  limit : pipeline.voterLimit = voterLimit
  batches : (chunks batchSize voters).zipIdx =
    awaited ++ (pipeline.batchHandles ++ pipeline.remaining.zipIdx pipeline.spawned)
  succeeded : awaited.map await = results.map .ok
  collected : pipeline.completeVoterData = results.flatten.filterMap (eligible validatorKeys)
  counted : pipeline.processedCount ≤ pipeline.total
  numbered : ∀ handle ∈ pipeline.batchHandles, handle.2 < pipeline.spawned
  window : pipeline.batchHandles.length ≤ maxConcurrentBatches
  stage : Stage await validatorKeys voterLimit voters pipeline pipeline.control

def Sound (pipeline : Pipeline Account) : Prop :=
  ∃ awaited results, Tracks await validatorKeys voterLimit voters awaited results pipeline

variable {await validatorKeys voterLimit voters} {awaited : List (BatchHandle Account)}
  {results : List (BatchResult Account)}

theorem start_sound :
    Sound await validatorKeys voterLimit voters (.start validatorKeys voterLimit voters) := by
  refine ⟨[], [], rfl, rfl, rfl, rfl, rfl, Nat.zero_le _, ?_, Nat.zero_le _, ?_⟩
  · simp [start]
  · change 0 < maxConcurrentBatches
    decide

theorem Tracks.spawn {chunk : List (Account × Nat)} {rest : List (List (Account × Nat))}
    (tracks : Tracks await validatorKeys voterLimit voters awaited results pipeline)
    (control : pipeline.control = .spawning) (left : pipeline.remaining = chunk :: rest) :
    Tracks await validatorKeys voterLimit voters awaited results (pipeline.spawn chunk rest) := by
  have stage := tracks.stage
  rw [control, Stage] at stage
  have length : (pipeline.spawn chunk rest).batchHandles.length =
      pipeline.batchHandles.length + 1 := by simp [Pipeline.spawn]
  refine { tracks with batches := ?_, numbered := ?_, window := ?_, stage := ?_ }
  · rw [tracks.batches, left, List.zipIdx_cons]
    simp [Pipeline.spawn]
  · intro handle member
    rcases List.mem_append.mp member with old | new
    · exact Nat.lt_succ_of_lt (tracks.numbered handle old)
    · rw [List.mem_singleton.mp new]
      exact Nat.lt_succ_self _
  · rw [length]
    exact stage
  · by_cases full : maxConcurrentBatches ≤ (pipeline.spawn chunk rest).batchHandles.length
    · have waits : (pipeline.spawn chunk rest).control = .awaiting := if_pos full
      rw [waits, Stage, ← List.length_pos_iff, length]
      exact Nat.succ_pos _
    · have goes : (pipeline.spawn chunk rest).control = .spawning := if_neg full
      rw [goes, Stage]
      exact Nat.lt_of_not_le full

theorem Tracks.absorb {handle : BatchHandle Account} {handles : List (BatchHandle Account)}
    {more : BatchResult Account}
    (tracks : Tracks await validatorKeys voterLimit voters awaited results pipeline)
    (front : pipeline.batchHandles = handle :: handles) (given : await handle = .ok more) :
    Tracks await validatorKeys voterLimit voters (awaited ++ [handle]) (results ++ [more])
      (pipeline.absorb handles more) := by
  have window := tracks.window
  have counted := tracks.counted
  rw [front, List.length_cons] at window
  refine ⟨tracks.keys, tracks.limit, ?_, ?_, ?_, ?_, ?_, ?_, ?_⟩
  · rw [tracks.batches, front, List.append_assoc]
    rfl
  · rw [List.map_append, List.map_append, tracks.succeeded, List.map_singleton, given,
      List.map_singleton]
  · change more.foldl (classify pipeline.validatorKeys) pipeline.completeVoterData = _
    rw [foldl_classify, tracks.keys, tracks.collected]
    simp
  · change pipeline.processedCount + min batchSize (pipeline.total - pipeline.processedCount) ≤
      pipeline.total
    omega
  · intro other member
    exact tracks.numbered other (front ▸ List.mem_cons_of_mem _ member)
  · exact Nat.le_of_succ_le window
  · exact window

theorem Tracks.fails {handle : BatchHandle Account} {handles : List (BatchHandle Account)}
    {e : Error} (tracks : Tracks await validatorKeys voterLimit voters awaited results pipeline)
    (front : pipeline.batchHandles = handle :: handles) (given : await handle = .error e) :
    sequentialFetch await validatorKeys voterLimit voters = .error e := by
  have stopped : (chunks batchSize voters).zipIdx.mapM await = .error e := by
    refine mapM_eq_error_iff.mpr ⟨awaited, handle,
      handles ++ pipeline.remaining.zipIdx pipeline.spawned, ?_, mem_ok_of_map tracks.succeeded,
      given⟩
    rw [tracks.batches, front, List.cons_append]
  rw [sequentialFetch, stopped]
  rfl

theorem Tracks.joins
    (tracks : Tracks await validatorKeys voterLimit voters awaited results pipeline)
    (left : pipeline.remaining = []) :
    (absorbAll pipeline.validatorKeys pipeline.completeVoterData
      (pipeline.batchHandles.map await)).map (truncate pipeline.voterLimit) =
        sequentialFetch await validatorKeys voterLimit voters := by
  rw [absorbAll_eq, sequentialFetch, tracks.batches, left, List.zipIdx_nil, List.append_nil,
    mapM_append_ok tracks.succeeded, tracks.keys, tracks.collected, tracks.limit]
  cases pipeline.batchHandles.mapM await with
  | error e => rfl
  | ok more => simp [Except.map, bind, Except.bind, pure, Except.pure, truncate_eq]

theorem Sound.step (sound : Sound await validatorKeys voterLimit voters pipeline)
    (step : Step await pipeline after) : Sound await validatorKeys voterLimit voters after := by
  obtain ⟨awaited, results, tracks⟩ := sound
  cases step with
  | finish task _ _ => exact ⟨awaited, results, { tracks with }⟩
  | advance goes =>
      rcases advance_cases goes with ⟨chunk, rest, control, left, rfl⟩ | ⟨control, left, rfl⟩ |
        ⟨handle, handles, more, control, front, given, rfl⟩ |
        ⟨handle, handles, e, control, front, given, rfl⟩ | ⟨control, rfl⟩
      · exact ⟨awaited, results, tracks.spawn control left⟩
      · exact ⟨awaited, results, { tracks with stage := left }⟩
      · exact ⟨_, _, tracks.absorb front given⟩
      · exact ⟨awaited, results, { tracks with stage := (tracks.fails front given).symm }⟩
      · have left := tracks.stage
        rw [control, Stage] at left
        exact ⟨awaited, results, { tracks with stage := tracks.joins left }⟩

theorem Step.shrinks (step : Step await pipeline after) : after.size < pipeline.size := by
  cases step with
  | finish task running unmarked =>
      have fewer := unfinished_finish running unmarked
      exact Nat.add_lt_add_right (Nat.add_lt_add_left fewer _) _
  | advance goes =>
      rcases advance_cases goes with ⟨chunk, rest, control, left, rfl⟩ | ⟨control, left, rfl⟩ |
        ⟨handle, handles, more, control, front, given, rfl⟩ |
        ⟨handle, handles, e, control, front, given, rfl⟩ | ⟨control, rfl⟩
      · have more := unfinished_spawn pipeline chunk rest
        have weighs : weight (pipeline.spawn chunk rest).control ≤ 3 := by
          cases (pipeline.spawn chunk rest).control <;> simp [weight]
        have fewer : (pipeline.spawn chunk rest).remaining.length + 1 =
            pipeline.remaining.length := by rw [left]; rfl
        simp only [size, control, weight] at *
        omega
      all_goals exact size_lt rfl rfl (by simp [control, weight, absorb])

theorem advance_ne_none
    (finished : ∀ handle ∈ pipeline.batchHandles, handle.2 ∈ pipeline.finished)
    (window : pipeline.control = .awaiting → pipeline.batchHandles ≠ [])
    (running : ∀ result, pipeline.control ≠ .returned result) : pipeline.advance await ≠ none := by
  rw [Pipeline.advance]
  cases control : pipeline.control with
  | spawning => cases left : pipeline.remaining <;> simp
  | awaiting =>
      obtain ⟨handle, handles, front⟩ := List.exists_cons_of_ne_nil (window control)
      have done := finished handle (by simp [front])
      cases given : await handle <;> simp [front, done, given]
  | joining => simpa using finished
  | returned result => exact absurd control (running result)

theorem Sound.moves (sound : Sound await validatorKeys voterLimit voters pipeline)
    (running : pipeline.control ≠
      .returned (sequentialFetch await validatorKeys voterLimit voters)) :
    ∃ after, Step await pipeline after := by
  obtain ⟨awaited, results, tracks⟩ := sound
  have stage := tracks.stage
  by_cases finished : ∀ handle ∈ pipeline.batchHandles, handle.2 ∈ pipeline.finished
  · have goes : pipeline.advance await ≠ none := by
      refine advance_ne_none finished (fun control => ?_) fun result control => ?_
      · rwa [control, Stage] at stage
      · rw [control, Stage] at stage
        exact running (stage ▸ control)
    obtain ⟨after, goes⟩ := Option.ne_none_iff_exists'.mp goes
    exact ⟨after, .advance goes⟩
  · -- a task the function may be waiting for can finish
    push Not at finished
    obtain ⟨handle, member, unmarked⟩ := finished
    exact ⟨_, .finish handle.2 (tracks.numbered handle member) unmarked⟩

theorem sound_of_run
    (run : ReflTransGen (Step await) (.start validatorKeys voterLimit voters) pipeline) :
    Sound await validatorKeys voterLimit voters pipeline :=
  kept_by_runs (Sound await validatorKeys voterLimit voters) (fun _ _ => Sound.step) start_sound run

variable (await validatorKeys voterLimit voters)

theorem returns_sequential :
    Inevitable (Step await)
      (fun pipeline => pipeline.control =
        .returned (sequentialFetch await validatorKeys voterLimit voters))
      (.start validatorKeys voterLimit voters) :=
  inevitable_of_measure (Sound await validatorKeys voterLimit voters) size
    (fun _ _ => Sound.step) (fun _ _ _ => Step.shrinks) (fun _ => Sound.moves) start_sound

end Runs

end Pipeline

section Result

variable {await : BatchHandle Account → Except Error (BatchResult Account)}
  {validatorKeys : List Account} {voterLimit : Nat} {voters : List (Account × Nat)}

theorem sequentialFetch_eq_error_iff {e : Error} :
    sequentialFetch await validatorKeys voterLimit voters = .error e ↔
      (chunks batchSize voters).zipIdx.mapM await = .error e := by
  rw [sequentialFetch]
  cases (chunks batchSize voters).zipIdx.mapM await <;>
    simp [bind, Except.bind, pure, Except.pure]

end Result

/-- In whatever order the tasks finish, the function returns what going through the batches
one by one gives: the eligible voters up to the limit, or the error of the first batch that
fails. The window is kept, and no more voters are counted than there are. -/
theorem pipelined_fetch_is_sequential (libraries : StakingLibraries Account)
    (tasks : BatchTasks Account) (validatorKeys : List Account) (voterLimit : Nat)
    (voters : List (Account × Nat)) :
    Inevitable (Pipeline.Step (tasks.await libraries))
        (fun pipeline => pipeline.control =
          .returned (sequentialFetch (tasks.await libraries) validatorKeys voterLimit voters))
        (Pipeline.start validatorKeys voterLimit voters) ∧
      (∀ pipeline, ReflTransGen (Pipeline.Step (tasks.await libraries))
          (Pipeline.start validatorKeys voterLimit voters) pipeline →
        pipeline.processedCount ≤ pipeline.total ∧
          pipeline.batchHandles.length ≤ maxConcurrentBatches ∧
          ∀ result, pipeline.control = .returned result →
            result = sequentialFetch (tasks.await libraries) validatorKeys voterLimit voters) ∧
      (∀ e, sequentialFetch (tasks.await libraries) validatorKeys voterLimit voters = .error e ↔
        ∃ before batch after, (chunks batchSize voters).zipIdx = before ++ batch :: after ∧
          (∀ earlier ∈ before, ∃ results, tasks.await libraries earlier = .ok results) ∧
          tasks.await libraries batch = .error e) ∧
      ∀ results, (chunks batchSize voters).zipIdx.mapM (tasks.await libraries) = .ok results →
        results.flatten.map Prod.fst = voters.map Prod.fst := by
  refine ⟨?_, fun pipeline run => ?_, fun e => ?_, fun results => ?_⟩
  · exact Pipeline.returns_sequential _ _ _ _
  · obtain ⟨awaited, results, tracks⟩ := Pipeline.sound_of_run run
    refine ⟨tracks.counted, tracks.window, fun result control => ?_⟩
    have stage := tracks.stage
    rwa [control, Pipeline.Stage] at stage
  · rw [sequentialFetch_eq_error_iff, mapM_eq_error_iff]
  · exact accounts_of_batches fun _ _ => await_accounts

end LeanStakingMiner
