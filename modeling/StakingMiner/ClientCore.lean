import StakingMiner.ChainCore
import StakingMiner.ProcessCore

/-!
Executable model of `client.rs`: connecting to a pool of endpoints, and the runtime
failover that several tasks may start at the same time on clones of one client.
-/

namespace LeanStakingMiner

open LeanProgram

def connectionAttemptTimeoutSecs : Nat := 30
def maxConnectionAttempts : Nat := 3
def connectionRetryDelaySecs : Nat := 5

structure ChainClient where
  uri : String
  useLegacy : Bool
  connection : Nat
deriving Repr, DecidableEq

inductive ClientOp where
  | buildRpc (uri : String)
  | fromBackend (uri : String) (useLegacy : Bool)
  | onConnectionTimeout
  | sleep (secs : Nat)
  | loadGeneration
  | loadIndex
  | writeLock
  | installClient (client : ChainClient)
  | storeIndex (index : Nat)
  | fetchAddGeneration
  | onEndpointSwitch
  -- the write guard is dropped when the call returns
  | unlock
  | returned (result : Except Error Unit)

abbrev ClientResp : ClientOp → Type
  | .buildRpc _ => Except String Unit
  | .fromBackend _ _ => Except SubxtError Nat
  | .loadGeneration | .loadIndex | .fetchAddGeneration => Nat
  | _ => Unit

def ClientOp.suspends : ClientOp → Suspension
  | .buildRpc _ | .fromBackend _ _ => .untilAnswer
  | .sleep _ | .writeLock => .untilEffect
  | _ => .never

abbrev ClientTask (α : Type) : Type := Program Unit Error ClientOp ClientResp α

def request (op : ClientOp) : ClientTask (ClientResp op) := Program.perform op

def connectFuture (uri : String) (useLegacy : Bool) : ClientTask ChainClient := do
  match ← request (.buildRpc uri) with
  | .error message => Program.fail (.other s!"Failed to connect: {message}")
  | .ok () =>
      match ← request (.fromBackend uri useLegacy) with
      | .error error => Program.fail (.subxt error)
      | .ok connection => pure ⟨uri, useLegacy, connection⟩

def tryConnect (uri : String) (useLegacy : Bool) : ClientTask ChainClient := do
  match ← (connectFuture uri useLegacy).timeout ClientOp.suspends with
  | some result => Program.ofExcept result
  | none => do
      request .onConnectionTimeout
      Program.fail (.timeout
        (.initialConnection connectionAttemptTimeoutSecs 0 maxConnectionAttempts))

def connectEndpoint (uri : String) (useLegacy : Bool) :
    Nat → Option Error → ClientTask (Except (Option Error) ChainClient)
  | 0, lastError => pure (.error lastError)
  | remaining + 1, _ => do
      match ← (tryConnect uri useLegacy).attempt with
      | .ok client => pure (.ok client)
      | .error error => do
          if remaining ≠ 0 then request (.sleep connectionRetryDelaySecs) else pure ()
          connectEndpoint uri useLegacy remaining (some error)

/-- The index is a `usize` sum, which wraps in the shipped release build. -/
def connectEndpoints (endpoints : List String) (startIndex : Nat) (useLegacy : Bool)
    (maxAttempts : Nat) : List Nat → Option Error → ClientTask (ChainClient × Nat)
  | [], lastError => Program.fail (lastError.getD (.other "No endpoints available"))
  | i :: rest, lastError => do
      let idx := (startIndex + i) % 2 ^ 64 % endpoints.length
      match endpoints[idx]? with
      | none => Program.panic
      | some uri =>
          match ← connectEndpoint uri useLegacy maxAttempts lastError with
          | .ok client => pure (client, idx)
          | .error lastError =>
              connectEndpoints endpoints startIndex useLegacy maxAttempts rest lastError

def connectWithFailover (endpoints : List String) (startIndex : Nat) (useLegacy : Bool) :
    ClientTask (ChainClient × Nat) :=
  let maxAttempts := if endpoints.length > 1 then 1 else maxConnectionAttempts
  connectEndpoints endpoints startIndex useLegacy maxAttempts (List.range endpoints.length) none

def isWhitespace (c : Char) : Bool :=
  (9 ≤ c.toNat && c.toNat ≤ 13) || (0x2000 ≤ c.toNat && c.toNat ≤ 0x200A) ||
    c.toNat ∈ [0x20, 0x85, 0xA0, 0x1680, 0x2028, 0x2029, 0x202F, 0x205F, 0x3000]

def trim (text : List Char) : List Char :=
  ((text.dropWhile isWhitespace).reverse.dropWhile isWhitespace).reverse

def parseEndpoints (uris : String) : List String :=
  ((uris.toList.splitOn ',').map fun text => String.ofList (trim text)).filter (· ≠ "")

structure Client where
  chainApi : ChainClient
  endpoints : List String
  currentEndpointIndex : Nat
  reconnectGeneration : Nat
deriving Repr, DecidableEq

def newClientWith (useLegacy : Bool) (uris : String) : ClientTask Client := do
  let endpoints := parseEndpoints uris
  if endpoints = [] then Program.fail (.other "No RPC endpoints provided")
  else do
    let (chainApi, connectedIndex) ← connectWithFailover endpoints 0 useLegacy
    pure ⟨chainApi, endpoints, connectedIndex, 0⟩

def Client.new (uris : String) : ClientTask Client := newClientWith false uris

def installOnce (generationBefore : Nat) (newClient : ChainClient) (connectedIdx : Nat) :
    ClientTask Unit := do
  let generationNow : Nat ← request .loadGeneration
  if generationNow ≠ generationBefore then request .unlock
  else do
    request (.installClient newClient)
    request (.storeIndex connectedIdx)
    let _ ← request .fetchAddGeneration
    request .onEndpointSwitch
    request .unlock

def reconnect (endpoints : List String) : ClientTask Unit := do
  let generationBefore : Nat ← request .loadGeneration
  let currentIdx : Nat ← request .loadIndex
  let startIdx := (currentIdx + 1) % endpoints.length
  let (newClient, connectedIdx) ← connectWithFailover endpoints startIdx false
  request .writeLock
  installOnce generationBefore newClient connectedIdx

/-- One call of `reconnect`, with a mark for the result it returns. -/
def reconnectCall (endpoints : List String) : ClientTask Unit := do
  let result ← (reconnect endpoints).attempt
  request (.returned result)

/-- What the clones of a client share, the state of the lock around `chain_api`, and the
number of clients installed since the start. -/
structure ClientWorld where
  chainApi : ChainClient
  currentEndpointIndex : Nat
  reconnectGeneration : Nat
  locked : Bool
  readers : Nat
  installs : Nat

def Client.world (client : Client) : ClientWorld :=
  ⟨client.chainApi, client.currentEndpointIndex, client.reconnectGeneration, false, 0, 0⟩

namespace ClientWorld

def offers (world : ClientWorld) : (op : ClientOp) → ClientResp op → Prop
  | .loadGeneration, answer => answer = world.reconnectGeneration
  | .fetchAddGeneration, answer => answer = world.reconnectGeneration
  | .loadIndex, answer => answer = world.currentEndpointIndex
  | .writeLock, _ => world.locked = false ∧ world.readers = 0
  | _, _ => True

def next (world : ClientWorld) : ClientOp → ClientWorld
  | .writeLock => { world with locked := true }
  | .installClient client => { world with chainApi := client, installs := world.installs + 1 }
  | .storeIndex index => { world with currentEndpointIndex := index }
  | .fetchAddGeneration =>
      { world with reconnectGeneration := (world.reconnectGeneration + 1) % 2 ^ 64 }
  | .unlock => { world with locked := false }
  | _ => world

def Evolves (world after : ClientWorld) : Prop :=
  world.locked = false ∧ ∃ readers, after = { world with readers }

end ClientWorld

/-- Any number of `reconnect` calls on clones of one client. A call that has returned takes
no further steps. -/
def reconnects (ι : Type) : Process ι ClientOp ClientResp where
  World := ClientWorld
  Failure := Error
  Store _ := Unit
  turn _ := pure ()
  possible world _ := world.offers
  next world op _ := world.next op
  evolves := ClientWorld.Evolves

def reconnectsStart (ι : Type) (client : Client) : (reconnects ι).State where
  world := client.world
  thread _ := ⟨(), reconnectCall client.endpoints⟩
  log := []

end LeanStakingMiner
