import Mathlib.Data.Nat.ModEq
import StakingMiner.ClientLogic
import StakingMiner.ProgramEnds

/-!
The attempts of `connect_with_failover`: which endpoints it tries, in which order, and which
of them it returns.
-/

namespace LeanStakingMiner

open LeanProgram

abbrev ClientEnv : Type := Environment ClientOp ClientResp

abbrev ClientTrace : Type := Trace ClientOp ClientResp

structure Attempt where
  index : Nat
  number : Nat
  outcome : Outcome Error ChainClient

def Attempt.place (attempt : Attempt) : Nat × Nat := (attempt.index, attempt.number)

def Attempt.Failed (attempt : Attempt) : Prop := ∃ error, attempt.outcome = .err error

inductive Tries (env : ClientEnv) (endpoints : List String) (useLegacy : Bool) :
    ClientTrace → List Attempt → ClientTrace → Prop
  | done {history} : Tries env endpoints useLegacy history [] history
  | tried {history uri index rest after} (number : Nat) (slept : ClientTrace) :
      endpoints[index]? = some uri →
      (∀ event ∈ slept, event = ⟨.sleep connectionRetryDelaySecs, ()⟩) →
      Tries env endpoints useLegacy
        (history ++ (run env (tryConnect uri useLegacy) () history).trace ++ slept) rest after →
      Tries env endpoints useLegacy history
        (⟨index, number, (run env (tryConnect uri useLegacy) () history).outcome⟩ :: rest) after

inductive Found (planned : List (Nat × Nat)) : List Attempt → Option (ChainClient × Nat) → Prop
  | exhausted {tried} : tried.map Attempt.place = planned → (∀ attempt ∈ tried, attempt.Failed) →
      Found planned tried none
  | connected {failures} (client : ChainClient) (index number : Nat) :
      (failures.map Attempt.place) ++ [(index, number)] <+: planned →
      (∀ attempt ∈ failures, attempt.Failed) →
      Found planned (failures ++ [⟨index, number, .ok client⟩]) (some (client, index))

section Search

variable {env : ClientEnv} {endpoints : List String} {useLegacy : Bool}
  {history middle after : ClientTrace} {first second : List Attempt}
  {planned later : List (Nat × Nat)} {found : Option (ChainClient × Nat)}

theorem Tries.append (begun : Tries env endpoints useLegacy history first middle)
    (rest : Tries env endpoints useLegacy middle second after) :
    Tries env endpoints useLegacy history (first ++ second) after := by
  induction begun with
  | done => exact rest
  | tried number slept present delay _ ih => exact .tried number slept present delay (ih rest)

theorem Found.append (failed : Found planned first none) (rest : Found later second found) :
    Found (planned ++ later) (first ++ second) found := by
  obtain ⟨places, failures⟩ : first.map Attempt.place = planned ∧
      ∀ attempt ∈ first, attempt.Failed := by
    cases failed with
    | exhausted places failures => exact ⟨places, failures⟩
  cases rest with
  | exhausted restPlaces restFailures =>
      refine .exhausted (by rw [List.map_append, places, restPlaces]) fun attempt member => ?_
      rcases List.mem_append.mp member with early | late
      · exact failures attempt early
      · exact restFailures attempt late
  | @connected failures' client index number places' failed' =>
      rw [← List.append_assoc]
      refine .connected client index number ?_ fun attempt member => ?_
      · rw [List.map_append, places, List.append_assoc]
        exact (List.prefix_append_right_inj planned).mpr places'
      · rcases List.mem_append.mp member with early | late
        · exact failures attempt early
        · exact failed' attempt late

theorem Found.extend {client : ChainClient} {index : Nat}
    (connected : Found planned first (some (client, index))) (later : List (Nat × Nat)) :
    Found (planned ++ later) first (some (client, index)) := by
  cases connected with
  | connected client index number places failed =>
      exact .connected client index number (places.trans (List.prefix_append _ _)) failed

theorem Found.places (connected : Found planned first found) :
    first.map Attempt.place <+: planned := by
  cases connected with
  | exhausted places failed => exact places ▸ List.prefix_rfl
  | connected client index number places failed => simpa [Attempt.place] using places

theorem not_failed_ok {index number : Nat} {client : ChainClient} :
    ¬(⟨index, number, .ok client⟩ : Attempt).Failed := by
  rintro ⟨error, impossible⟩
  cases impossible

theorem Found.eq_some_iff (ends : Found planned first found) (client : ChainClient)
    (index : Nat) : found = some (client, index) ↔
      ∃ failures number, (∀ attempt ∈ failures, attempt.Failed) ∧
        first = failures ++ [⟨index, number, .ok client⟩] := by
  cases ends with
  | exhausted places failed =>
      refine iff_of_false (by simp) ?_
      rintro ⟨failures, number, _, rfl⟩
      exact not_failed_ok (failed _ (List.mem_append_right failures (List.mem_singleton_self _)))
  | @connected failures found foundIndex number places failed =>
      constructor
      · rintro ⟨⟩
        exact ⟨failures, number, failed, rfl⟩
      · rintro ⟨others, otherNumber, _, same⟩
        cases (List.append_inj' same rfl).2
        rfl

theorem Found.eq_none_iff (ends : Found planned first found) : found = none ↔
    first.map Attempt.place = planned ∧ ∀ attempt ∈ first, attempt.Failed := by
  cases ends with
  | exhausted places failed => exact iff_of_true rfl ⟨places, failed⟩
  | @connected failures client index number places failed =>
      refine iff_of_false (by simp) ?_
      rintro ⟨_, allFailed⟩
      exact not_failed_ok (allFailed _ (List.mem_append_right failures (List.mem_singleton_self _)))

end Search

section Runs

variable (env : ClientEnv) (endpoints : List String) (useLegacy : Bool)

def Searched (history : ClientTrace) (planned : List (Nat × Nat))
    (found : Option (ChainClient × Nat)) (after : ClientTrace) : Prop :=
  ∃ tried, Tries env endpoints useLegacy history tried after ∧ Found planned tried found

def attemptsOn (index first count : Nat) : List (Nat × Nat) :=
  (List.range' first count).map fun number => (index, number)

variable {env endpoints useLegacy} {history after : ClientTrace} {uri : String} {index : Nat}

theorem tryConnect_outcome (env : ClientEnv) (uri : String) (useLegacy : Bool)
    (history : ClientTrace) :
    (∃ client, (run env (tryConnect uri useLegacy) () history).outcome = .ok client) ∨
      ∃ error, (run env (tryConnect uri useLegacy) () history).outcome = .err error := by
  have returned : Ends env (tryConnect uri useLegacy) _ () history :=
    ends_of_issuing (tryConnect_connects uri useLegacy)
  cases outcome : (run env (tryConnect uri useLegacy) () history).outcome with
  | ok client => exact .inl ⟨client, rfl⟩
  | err error => exact .inr ⟨error, rfl⟩
  | panic => exact absurd outcome returned.1.1

theorem Searched.append {middle : ClientTrace} {planned later : List (Nat × Nat)}
    {found : Option (ChainClient × Nat)}
    (failed : Searched env endpoints useLegacy history planned none middle)
    (rest : Searched env endpoints useLegacy middle later found after) :
    Searched env endpoints useLegacy history (planned ++ later) found after := by
  obtain ⟨tried, tries, failures⟩ := failed
  obtain ⟨more, triesMore, ends⟩ := rest
  exact ⟨tried ++ more, tries.append triesMore, failures.append ends⟩

theorem Searched.extend {planned : List (Nat × Nat)} {client : ChainClient}
    (connected : Searched env endpoints useLegacy history planned (some (client, index)) after)
    (later : List (Nat × Nat)) :
    Searched env endpoints useLegacy history (planned ++ later) (some (client, index)) after := by
  obtain ⟨tried, tries, found⟩ := connected
  exact ⟨tried, tries, found.extend later⟩

section Attempted

variable (present : endpoints[index]? = some uri) (number : Nat)

include present

theorem searched_connected {client : ChainClient}
    (connected : (run env (tryConnect uri useLegacy) () history).outcome = .ok client) :
    Searched env endpoints useLegacy history [(index, number)] (some (client, index))
      (history ++ (run env (tryConnect uri useLegacy) () history).trace) := by
  have tried : Tries env endpoints useLegacy history _ _ :=
    .tried number [] present (by simp) .done
  rw [connected, List.append_nil] at tried
  have found : Found [(index, number)] ([] ++ [⟨index, number, .ok client⟩]) _ :=
    .connected client index number List.prefix_rfl (by simp)
  exact ⟨_, tried, found⟩

theorem searched_failed {error : Error} {slept : ClientTrace}
    (failed : (run env (tryConnect uri useLegacy) () history).outcome = .err error)
    (delay : ∀ event ∈ slept, event = ⟨.sleep connectionRetryDelaySecs, ()⟩) :
    Searched env endpoints useLegacy history [(index, number)] none
      (history ++ (run env (tryConnect uri useLegacy) () history).trace ++ slept) := by
  refine ⟨_, .tried number slept present delay .done, .exhausted rfl ?_⟩
  intro attempt member
  rw [List.mem_singleton.mp member]
  exact ⟨error, failed⟩

end Attempted

variable (env endpoints useLegacy) in
def EndpointSearched (history : ClientTrace) (planned : List (Nat × Nat)) (index : Nat)
    (outcome : Outcome Error (Except (Option Error) ChainClient)) (_ : Unit)
    (after : ClientTrace) : Prop :=
  (∃ client, outcome = .ok (.ok client) ∧
    Searched env endpoints useLegacy history planned (some (client, index)) after) ∨
  ∃ lastError, outcome = .ok (.error lastError) ∧
    Searched env endpoints useLegacy history planned none after

theorem EndpointSearched.afterFailure {middle : ClientTrace} {planned later : List (Nat × Nat)}
    {outcome : Outcome Error (Except (Option Error) ChainClient)}
    (failed : Searched env endpoints useLegacy history planned none middle)
    (rest : EndpointSearched env endpoints useLegacy middle later index outcome () after) :
    EndpointSearched env endpoints useLegacy history (planned ++ later) index outcome () after := by
  rcases rest with ⟨client, connected, searched⟩ | ⟨lastError, exhausted, searched⟩
  · exact .inl ⟨client, connected, failed.append searched⟩
  · exact .inr ⟨lastError, exhausted, failed.append searched⟩

theorem connectEndpoint_searches (present : endpoints[index]? = some uri) (remaining number : Nat)
    (lastError : Option Error) (history : ClientTrace) :
    Ends env (connectEndpoint uri useLegacy remaining lastError)
      (EndpointSearched env endpoints useLegacy history (attemptsOn index number remaining) index)
      () history := by
  induction remaining generalizing number lastError history with
  | zero => exact (ends_return _).mpr (.inr ⟨_, rfl, [], .done, .exhausted rfl (by simp)⟩)
  | succ remaining ih =>
      have planned : attemptsOn index number (remaining + 1) =
          [(index, number)] ++ attemptsOn index (number + 1) remaining := rfl
      rw [connectEndpoint, ends_bind, ends_attempt, planned]
      unfold Ends
      rcases tryConnect_outcome env uri useLegacy history with ⟨client, connected⟩ | ⟨error, failed⟩
      · rw [connected]
        simp only [caught, continued_ok, ends_return]
        exact .inl ⟨client, rfl, (searched_connected present number connected).extend _⟩
      · rw [failed]
        have continues (slept : ClientTrace)
            (delay : ∀ event ∈ slept, event = ⟨.sleep connectionRetryDelaySecs, ()⟩) :=
          (ih (number + 1) (some error) (history ++
            (run env (tryConnect uri useLegacy) () history).trace ++ slept)).mono
            fun _ _ _ => EndpointSearched.afterFailure (searched_failed present number failed delay)
        simp only [caught, continued_ok]
        split
        · exact ends_call.mpr (continues [⟨.sleep connectionRetryDelaySecs, ()⟩] (by simp))
        · have undelayed := continues [] (by simp)
          rw [List.append_nil] at undelayed
          exact undelayed

/-- The indices of `connect_with_failover`, in the order of its loop. -/
def visited (startIndex total : Nat) : List Nat → List Nat :=
  List.map fun i => (startIndex + i) % 2 ^ 64 % total

theorem connectEndpoints_searches (startIndex maxAttempts : Nat) (nonempty : endpoints ≠ [])
    (indices : List Nat) (lastError : Option Error) (history : ClientTrace) :
    Ends env (connectEndpoints endpoints startIndex useLegacy maxAttempts indices lastError)
      (fun outcome _ after =>
        (∃ client index, outcome = .ok (client, index) ∧ Searched env endpoints useLegacy history
          ((visited startIndex endpoints.length indices).flatMap fun index =>
            attemptsOn index 1 maxAttempts) (some (client, index)) after) ∨
        ∃ error, outcome = .err error ∧ Searched env endpoints useLegacy history
          ((visited startIndex endpoints.length indices).flatMap fun index =>
            attemptsOn index 1 maxAttempts) none after) () history := by
  induction indices generalizing lastError history with
  | nil => exact (ends_fail _).mpr (.inr ⟨_, rfl, [], .done, .exhausted rfl (by simp)⟩)
  | cons i rest ih =>
      have present : endpoints[(startIndex + i) % 2 ^ 64 % endpoints.length]? = some _ :=
        List.getElem?_eq_getElem (Nat.mod_lt _ (List.length_pos_of_ne_nil nonempty))
      rw [connectEndpoints]
      simp only [present, visited, List.map_cons, List.flatMap_cons]
      refine (connectEndpoint_searches present maxAttempts 1 lastError history).seq ?_ ?_ ?_
      · rintro result _ middle (⟨client, connected, searched⟩ | ⟨lastError, exhausted, searched⟩)
        · cases connected
          exact (ends_return _).mpr (.inl ⟨client, _, rfl, searched.extend _⟩)
        · cases exhausted
          refine (ih lastError middle).mono ?_
          rintro outcome _ after (⟨client, index, connected, more⟩ | ⟨error, failed, more⟩)
          · exact .inl ⟨client, index, connected, searched.append more⟩
          · exact .inr ⟨error, failed, searched.append more⟩
      · rintro error _ middle (⟨client, impossible, _⟩ | ⟨lastError, impossible, _⟩)
        · cases impossible
        · cases impossible
      · rintro _ middle (⟨client, impossible, _⟩ | ⟨lastError, impossible, _⟩)
        · cases impossible
        · cases impossible

end Runs

section Cycle

variable {start total : Nat}

def cyclicOrder (start total : Nat) : List Nat :=
  (List.range total).map fun i => (start + i) % total

theorem visited_eq_cyclicOrder (fits : start + total ≤ 2 ^ 64) :
    visited start total (List.range total) = cyclicOrder start total := by
  refine List.map_congr_left fun i member => ?_
  have bound := List.mem_range.mp member
  rw [Nat.mod_eq_of_lt (by omega : start + i < 2 ^ 64)]

theorem cyclicOrder_nodup : (cyclicOrder start total).Nodup := by
  refine List.Nodup.map_on ?_ List.nodup_range
  intro i first j second same
  have iBound := List.mem_range.mp first
  have jBound := List.mem_range.mp second
  have congruent : Nat.ModEq total i j := Nat.ModEq.add_left_cancel' start same
  rwa [Nat.ModEq, Nat.mod_eq_of_lt iBound, Nat.mod_eq_of_lt jBound] at congruent

theorem mem_cyclicOrder {index : Nat} (inside : index < total) :
    index ∈ cyclicOrder start total := by
  have full : (cyclicOrder start total).toFinset = Finset.range total := by
    refine Finset.eq_of_subset_of_card_le ?_ ?_
    · intro found member
      obtain ⟨i, _, rfl⟩ := List.mem_map.mp (List.mem_toFinset.mp member)
      exact Finset.mem_range.mpr (Nat.mod_lt _ (by omega))
    · rw [List.toFinset_card_of_nodup cyclicOrder_nodup, cyclicOrder, List.length_map,
        List.length_range, Finset.card_range]
  rw [← List.mem_toFinset, full]
  exact Finset.mem_range.mpr inside

theorem cyclicOrder_last {current : Nat} (inside : current < total) :
    (cyclicOrder ((current + 1) % total) total).getLast? = some current := by
  obtain ⟨count, rfl⟩ : ∃ count, total = count + 1 := ⟨total - 1, by omega⟩
  rw [cyclicOrder, List.range_succ, List.map_append, List.map_singleton, List.getLast?_concat,
    Nat.mod_add_mod]
  have around : current + 1 + count = current + (count + 1) := by omega
  rw [around, Nat.add_mod_right, Nat.mod_eq_of_lt inside]

end Cycle

section Failover

variable (env : ClientEnv) (endpoints : List String) (useLegacy : Bool)

/-- Several endpoints get one attempt each, a single one gets three. -/
def planned (start : Nat) : List (Nat × Nat) :=
  (cyclicOrder start endpoints.length).flatMap fun index =>
    attemptsOn index 1 (if endpoints.length > 1 then 1 else 3)

/-- The run makes the planned attempts up to the first one that connects, whose endpoint it
returns, and returns an error if none does. -/
def FollowsPlan (start : Nat) (history : ClientTrace)
    (result : Result Unit Error ClientOp ClientResp (ChainClient × Nat)) : Prop :=
  ∃ tried, Tries env endpoints useLegacy history tried (history ++ result.trace) ∧
    tried.map Attempt.place <+: planned endpoints start ∧
    (∀ client index, result.outcome = .ok (client, index) ↔
      ∃ failures number, (∀ attempt ∈ failures, attempt.Failed) ∧
        tried = failures ++ [⟨index, number, .ok client⟩]) ∧
    ((∃ error, result.outcome = .err error) ↔
      tried.map Attempt.place = planned endpoints start ∧ ∀ attempt ∈ tried, attempt.Failed)

variable {endpoints}

theorem Found.followsPlan {start : Nat} {history : ClientTrace} {tried : List Attempt}
    {found : Option (ChainClient × Nat)}
    {result : Result Unit Error ClientOp ClientResp (ChainClient × Nat)}
    (ends : Found (planned endpoints start) tried found)
    (tries : Tries env endpoints useLegacy history tried (history ++ result.trace))
    (returns : ∀ client index,
      result.outcome = .ok (client, index) ↔ found = some (client, index))
    (fails : (∃ error, result.outcome = .err error) ↔ found = none) :
    FollowsPlan env endpoints useLegacy start history result := by
  refine ⟨tried, tries, ends.places, fun client index => ?_, ?_⟩
  · rw [returns, ends.eq_some_iff]
  · rw [fails, ends.eq_none_iff]

theorem connectWithFailover_follows (nonempty : endpoints ≠ []) {startIndex : Nat}
    (fits : startIndex + endpoints.length ≤ 2 ^ 64) (history : ClientTrace) :
    FollowsPlan env endpoints useLegacy startIndex history
      (run env (connectWithFailover endpoints startIndex useLegacy) () history) := by
  have searched : Ends env (connectWithFailover endpoints startIndex useLegacy) _ () history :=
    connectEndpoints_searches startIndex _ nonempty (List.range endpoints.length) none history
  rw [visited_eq_cyclicOrder fits] at searched
  rcases searched with ⟨client, index, connected, tried, tries, found⟩ |
    ⟨error, failed, tried, tries, found⟩
  · exact Found.followsPlan env useLegacy found tries (by simp [connected]) (by simp [connected])
  · exact Found.followsPlan env useLegacy found tries (by simp [failed]) (by simp [failed])

theorem reconnect_begins (history : ClientTrace) :
    let loaded := history ++ [⟨.loadGeneration, env.answer history .loadGeneration⟩]
    let current : Nat := env.answer loaded .loadIndex
    let begun := loaded ++ [⟨.loadIndex, current⟩]
    begun ++ (run env (connectWithFailover endpoints ((current + 1) % endpoints.length) false) ()
      begun).trace <+: history ++ (run env (reconnect endpoints) () history).trace := by
  intro loaded current begun
  have opened : (run env (reconnect endpoints) () history).trace =
      ⟨.loadGeneration, env.answer history .loadGeneration⟩ :: ⟨.loadIndex, current⟩ ::
        (run env (connectWithFailover endpoints ((current + 1) % endpoints.length) false >>=
          fun connected => do
            request .writeLock
            installOnce (env.answer history .loadGeneration) connected.1 connected.2) ()
          begun).trace := rfl
  have split (later : ClientTrace) :
      history ++ ⟨.loadGeneration, env.answer history .loadGeneration⟩ ::
        ⟨.loadIndex, current⟩ :: later = begun ++ later := by
    simp [begun, loaded]
  rw [opened, split]
  exact (List.prefix_append_right_inj begun).mpr (run_bind_extends _ _ _ _ _)

end Failover

/-- From every start, the endpoints are tried in cyclic order, each index once and all of them
before an error is returned; a call from `reconnect` comes to the current endpoint last. The
start leaves room for the sums of the loop, as every caller's does, and a vector has at most
`isize::MAX` entries. -/
theorem failover_tries_in_cyclic_order (endpoints : List String) (nonempty : endpoints ≠ [])
    (sized : endpoints.length < 2 ^ 63) (startIndex : Nat)
    (fits : startIndex + endpoints.length ≤ 2 ^ 64) (useLegacy : Bool) (env : ClientEnv)
    (history : ClientTrace) :
    FollowsPlan env endpoints useLegacy startIndex history
        (run env (connectWithFailover endpoints startIndex useLegacy) () history) ∧
      (cyclicOrder startIndex endpoints.length).Nodup ∧
      (∀ index < endpoints.length, index ∈ cyclicOrder startIndex endpoints.length) ∧
      let loaded := history ++ [⟨.loadGeneration, env.answer history .loadGeneration⟩]
      let current : Nat := env.answer loaded .loadIndex
      let begun := loaded ++ [⟨.loadIndex, current⟩]
      let start := (current + 1) % endpoints.length
      let connecting := run env (connectWithFailover endpoints start false) () begun
      begun ++ connecting.trace <+: history ++ (run env (reconnect endpoints) () history).trace ∧
        FollowsPlan env endpoints false start begun connecting ∧
        (current < endpoints.length →
          (cyclicOrder start endpoints.length).getLast? = some current) := by
  refine ⟨connectWithFailover_follows env useLegacy nonempty fits history, cyclicOrder_nodup,
    fun index => mem_cyclicOrder, ?_⟩
  intro loaded current begun start connecting
  have below : start < endpoints.length := Nat.mod_lt _ (List.length_pos_of_ne_nil nonempty)
  refine ⟨reconnect_begins env history, ?_, cyclicOrder_last⟩
  exact connectWithFailover_follows env false nonempty (by omega) begun

def reaching (uris : List String) : ClientEnv where
  answer _
    | .buildRpc uri => if uri ∈ uris then .ok () else .error "refused"
    | .fromBackend _ _ => .ok 7
    | .loadGeneration | .loadIndex | .fetchAddGeneration => (0 : Nat)
    | .onConnectionTimeout | .sleep _ | .writeLock | .installClient _ | .storeIndex _ => ()
    | .onEndpointSwitch | .unlock | .returned _ => ()
  fired _ _ := false

theorem failover_tries_in_cyclic_order_second :
    (run (reaching ["b"]) (connectWithFailover ["a", "b"] 0 false) () []).outcome =
        .ok (⟨"b", false, 7⟩, 1) ∧
      FollowsPlan (reaching ["b"]) ["a", "b"] false 0 []
        (run (reaching ["b"]) (connectWithFailover ["a", "b"] 0 false) () []) :=
  ⟨rfl, (failover_tries_in_cyclic_order ["a", "b"] (by simp) (by decide) 0 (by decide) false
    (reaching ["b"]) []).1⟩

def uriTried : ClientOp → Option String
  | .buildRpc uri => some uri
  | _ => none

/-- With the largest `usize` as start the sum wraps after the first endpoint: endpoint 0 is
tried twice, endpoint 2 never, and an error is returned. -/
theorem wrapped_start_revisits_endpoint :
    let result :=
      run (reaching ["c"]) (connectWithFailover ["a", "b", "c"] (2 ^ 64 - 1) false) () []
    cyclicOrder (2 ^ 64 - 1) 3 = [0, 1, 2] ∧
      result.trace.filterMap (fun event => uriTried event.1) = ["a", "a", "b"] ∧
      result.outcome = .err (.other "Failed to connect: refused") := by
  exact ⟨by decide, rfl, rfl⟩

end LeanStakingMiner
