import StakingMiner.ClientCore
import StakingMiner.ProgramLogic

/-!
One `reconnect` call on its own: the connection it makes belongs to the endpoint whose index
it returns, and the shared fields are written in a fixed order inside the write lock.
-/

namespace LeanStakingMiner

open LeanProgram

section Connecting

def ClientOp.connects : ClientOp → Bool
  | .buildRpc _ | .fromBackend _ _ | .onConnectionTimeout | .sleep _ => true
  | _ => false

def Connects {α : Type} (task : ClientTask α) (post : Outcome Error α → Prop) : Prop :=
  wp (Monitor.issuing ClientResp fun op => op.connects = true) task (fun outcome _ _ => post outcome)
    () ()

def ReachesUri (uri : String) (outcome : Outcome Error ChainClient) : Prop :=
  outcome ≠ .panic ∧ ∀ client, outcome = .ok client → client.uri = uri

theorem connectFuture_connects (uri : String) (useLegacy : Bool) :
    Connects (connectFuture uri useLegacy) (ReachesUri uri) := by
  refine ⟨rfl, ?_⟩
  rintro (message | _) _
  · exact ⟨by simp, by simp⟩
  · refine ⟨rfl, ?_⟩
    rintro (error | connection) _
    · exact ⟨by simp, by simp⟩
    · refine ⟨by simp, ?_⟩
      intro client same
      cases same
      rfl

theorem tryConnect_connects (uri : String) (useLegacy : Bool) :
    Connects (tryConnect uri useLegacy) (ReachesUri uri) := by
  refine (wp_bind _ _).mpr (wp_timeout (wp_mono (connectFuture_connects uri useLegacy) ?_) ?_)
  · rintro (client | error | _) _ _ ⟨returned, reaches⟩
    · exact ⟨by simp, reaches⟩
    · exact ⟨by simp, by simp⟩
    · exact absurd rfl returned
  · intro passed
    refine ⟨rfl, fun _ _ => ?_⟩
    exact ⟨by simp, by simp⟩

theorem connectEndpoint_connects (uri : String) (useLegacy : Bool) (remaining : Nat)
    (lastError : Option Error) :
    Connects (connectEndpoint uri useLegacy remaining lastError) (fun outcome =>
      ∃ result, outcome = .ok result ∧ ∀ client, result = .ok client → client.uri = uri) := by
  induction remaining generalizing lastError with
  | zero => exact ⟨_, rfl, by simp⟩
  | succ remaining ih =>
      refine (wp_bind _ _).mpr ((wp_attempt _).mpr
        (wp_mono (tryConnect_connects uri useLegacy) ?_))
      rintro (client | error | _) _ _ ⟨returned, reaches⟩
      · refine ⟨.ok client, rfl, ?_⟩
        intro connected same
        cases same
        exact reaches client rfl
      · change wp _ (if remaining ≠ 0 then _ else _) _ _ _
        split
        · exact ⟨rfl, fun _ _ => ih _⟩
        · exact ih _
      · exact absurd rfl returned

def ReachesEndpoint (endpoints : List String) (outcome : Outcome Error (ChainClient × Nat)) :
    Prop :=
  outcome ≠ .panic ∧
    ∀ client idx, outcome = .ok (client, idx) → endpoints[idx]? = some client.uri

theorem connectEndpoints_connects (endpoints : List String) (startIndex : Nat) (useLegacy : Bool)
    (maxAttempts : Nat) (indices : List Nat) (lastError : Option Error)
    (present : indices ≠ [] → endpoints ≠ []) :
    Connects (connectEndpoints endpoints startIndex useLegacy maxAttempts indices lastError)
      (ReachesEndpoint endpoints) := by
  induction indices generalizing lastError with
  | nil => exact ⟨by simp, by simp⟩
  | cons i rest ih =>
      have nonempty : 0 < endpoints.length := List.length_pos_of_ne_nil (present (by simp))
      have inside : (startIndex + i) % 2 ^ 64 % endpoints.length < endpoints.length :=
        Nat.mod_lt _ nonempty
      have found : endpoints[(startIndex + i) % 2 ^ 64 % endpoints.length]? =
          some endpoints[(startIndex + i) % 2 ^ 64 % endpoints.length] :=
        List.getElem?_eq_getElem inside
      unfold connectEndpoints
      simp only [found]
      refine (wp_bind _ _).mpr (wp_mono (connectEndpoint_connects _ useLegacy maxAttempts _) ?_)
      rintro outcome _ _ ⟨result, rfl, reaches⟩
      cases result with
      | error lastError => exact ih _ fun _ => present (by simp)
      | ok client =>
          refine ⟨by simp, ?_⟩
          intro connected idx same
          cases same
          rw [found, reaches client rfl]

theorem connectWithFailover_connects (endpoints : List String) (startIndex : Nat)
    (useLegacy : Bool) :
    Connects (connectWithFailover endpoints startIndex useLegacy) (ReachesEndpoint endpoints) := by
  refine connectEndpoints_connects endpoints startIndex useLegacy _ _ none ?_
  rintro some rfl
  exact some rfl

end Connecting

theorem newClientWith_connected (useLegacy : Bool) (uris : String) :
    Connects (newClientWith useLegacy uris) (fun outcome => ∀ client, outcome = .ok client →
      client.endpoints[client.currentEndpointIndex]? = some client.chainApi.uri ∧
        client.reconnectGeneration = 0) := by
  unfold newClientWith
  by_cases empty : parseEndpoints uris = []
  · simp only [if_pos empty]
    exact fun _ impossible => by cases impossible
  · simp only [if_neg empty]
    refine (wp_bind _ _).mpr (wp_mono (connectWithFailover_connects _ 0 useLegacy) ?_)
    rintro (⟨chainApi, idx⟩ | error | _) _ _ ⟨_, reaches⟩
    · intro client same
      cases same
      exact ⟨reaches chainApi idx rfl, rfl⟩
    · exact fun _ impossible => by cases impossible
    · exact fun _ impossible => by cases impossible

section Calls

inductive CallPhase where
  | outside
  | locked
  | current
  | installed (client : ChainClient)
  | indexed
  | counted
  | returned
deriving DecidableEq

structure CallGhost where
  phase : CallPhase
  captured : Option Nat
  wrote : Bool
  failed : Bool

def CallGhost.start : CallGhost := ⟨.outside, none, false, false⟩

def CallGhost.next (ghost : CallGhost) : (op : ClientOp) → ClientResp op → CallGhost
  | .loadGeneration, (generation : Nat) =>
      { ghost with
        captured := ghost.captured.or (some generation)
        phase := if ghost.phase = .locked ∧ ghost.captured = some generation then .current
          else ghost.phase }
  | .writeLock, _ => { ghost with phase := .locked }
  | .installClient client, _ => { ghost with phase := .installed client, wrote := true }
  | .storeIndex _, _ => { ghost with phase := .indexed, wrote := true }
  | .fetchAddGeneration, _ => { ghost with phase := .counted, wrote := true }
  | .unlock, _ => { ghost with phase := .outside }
  | .returned (.ok _), _ => { ghost with phase := .returned }
  | .returned (.error _), _ => { ghost with phase := .returned, failed := true }
  | _, _ => ghost

def CallGhost.allows (endpoints : List String) (ghost : CallGhost) : ClientOp → Prop
  | .writeLock => ghost.phase = .outside
  | .installClient _ => ghost.phase = .current
  | .storeIndex index =>
      ∃ client, ghost.phase = .installed client ∧ endpoints[index]? = some client.uri
  | .fetchAddGeneration => ghost.phase = .indexed
  | .unlock => ghost.phase = .locked ∨ ghost.phase = .counted
  | .returned (.ok _) => ghost.phase = .outside
  | .returned (.error _) => ghost.phase = .outside ∧ ghost.wrote = false
  | _ => True

def callMonitor (endpoints : List String) : Monitor ClientOp ClientResp CallGhost where
  expects _ _ _ := True
  allows := CallGhost.allows endpoints
  next := CallGhost.next

theorem connects_ignored (endpoints : List String) (ghost : CallGhost) (op : ClientOp)
    (connecting : op.connects = true) : (callMonitor endpoints).Ignores ghost op := by
  cases op <;> first | exact absurd connecting Bool.false_ne_true | exact ⟨trivial, fun _ => rfl⟩

theorem installOnce_follows {endpoints : List String} {client : ChainClient} {idx : Nat}
    (reaches : endpoints[idx]? = some client.uri) (generation : Nat) :
    wp (callMonitor endpoints) (installOnce generation client idx)
      (fun outcome _ ghost => outcome = .ok () ∧ ghost.phase = .outside) ()
      ⟨.locked, some generation, false, false⟩ := by
  refine ⟨trivial, ?_⟩
  intro generationNow _
  change wp _ (if generationNow ≠ generation then _ else _) _ _ _
  by_cases changed : generationNow ≠ generation
  · rw [if_pos changed]
    have kept : (callMonitor endpoints).next ⟨.locked, some generation, false, false⟩
        .loadGeneration generationNow = ⟨.locked, some generation, false, false⟩ := by
      simp [callMonitor, CallGhost.next, changed.symm]
    rw [kept]
    exact ⟨Or.inl rfl, fun _ _ => ⟨rfl, rfl⟩⟩
  · rw [if_neg changed]
    have matched : (callMonitor endpoints).next ⟨.locked, some generation, false, false⟩
        .loadGeneration generationNow = ⟨.current, some generation, false, false⟩ := by
      have same : generation = generationNow := (not_not.mp changed).symm
      simp [callMonitor, CallGhost.next, same]
    rw [matched]
    refine ⟨rfl, fun _ _ => ⟨⟨client, rfl, reaches⟩, fun _ _ => ⟨rfl, fun _ _ => ?_⟩⟩⟩
    exact ⟨trivial, fun _ _ => ⟨Or.inr rfl, fun _ _ => ⟨rfl, rfl⟩⟩⟩

theorem reconnectCall_follows (endpoints : List String) :
    wp (callMonitor endpoints) (reconnectCall endpoints) (fun _ _ _ => True) () .start := by
  refine (wp_bind _ _).mpr ((wp_attempt _).mpr ?_)
  refine ⟨trivial, fun generation _ => ⟨trivial, fun index _ => ?_⟩⟩
  change wp _ (connectWithFailover endpoints ((index + 1) % endpoints.length) false >>= _) _ _ _
  refine (wp_bind _ _).mpr (wp_mono (wp_of_issuing (connectWithFailover_connects endpoints
    ((index + 1) % endpoints.length) false) (connects_ignored endpoints _)) ?_)
  rintro (⟨client, idx⟩ | error | _) _ ghost ⟨rfl, returned, reaches⟩
  · refine ⟨rfl, fun _ _ => wp_mono (installOnce_follows (reaches client idx rfl) generation) ?_⟩
    rintro outcome _ ghost ⟨rfl, outside⟩
    exact ⟨outside, fun _ _ => trivial⟩
  · exact ⟨⟨rfl, rfl⟩, fun _ _ => trivial⟩
  · exact absurd rfl returned

end Calls

end LeanStakingMiner
