import Mathlib.Logic.Function.Basic
import StakingMiner.ProgramCore

/-!
Processes of several tasks. Each task repeats a program over a store of its own. The
steps of the tasks interleave freely with each other and with changes of the world that
answers their operations.
-/

namespace LeanProgram

structure Process (ι Op : Type) (Resp : Op → Type) where
  World : Type
  Failure : Type
  Store : ι → Type
  turn : (task : ι) → Program (Store task) Failure Op Resp Unit
  possible : World → ι → (op : Op) → Resp op → Prop
  next : World → (op : Op) → Resp op → World
  evolves : World → World → Prop

structure Thread (σ ε Op : Type) (Resp : Op → Type) where
  store : σ
  rest : Program σ ε Op Resp Unit

variable {ι σ ε Op : Type} {Resp : Op → Type}

/-- The steps a task takes on its own. A turn that ends well is followed by the next one;
a task that failed or panicked takes no more steps. -/
inductive Thread.Moves (turn : Program σ ε Op Resp Unit) :
    Thread σ ε Op Resp → Thread σ ε Op Resp → Prop
  | tick {store issued next} (fired : Bool) :
      Moves turn ⟨store, .tick issued next⟩ ⟨store, next fired⟩
  | get {store next} : Moves turn ⟨store, .get next⟩ ⟨store, next store⟩
  | set {store written next} : Moves turn ⟨store, .set written next⟩ ⟨written, next⟩
  | again {store} : Moves turn ⟨store, .pure ()⟩ ⟨store, turn⟩

def Thread.WaitsIn (thread : Thread σ ε Op Resp) (op : Op) : Prop :=
  ∃ next, thread.rest = .call op next

structure Process.State (process : Process ι Op Resp) where
  world : process.World
  thread : (task : ι) → Thread (process.Store task) process.Failure Op Resp
  log : List (ι × Event Op Resp)

variable [DecidableEq ι] {process : Process ι Op Resp}

def Process.State.setThread (state : process.State) (task : ι)
    (thread : Thread (process.Store task) process.Failure Op Resp) : process.State :=
  { state with thread := Function.update state.thread task thread }

def Process.State.trace (state : process.State) (task : ι) : Trace Op Resp :=
  state.log.filterMap fun (issuer, event) => if issuer = task then some event else none

def Process.State.answered (state : process.State) (task : ι) (op : Op) (answer : Resp op)
    (rest : Program (process.Store task) process.Failure Op Resp Unit) : process.State :=
  { state.setThread task ⟨(state.thread task).store, rest⟩ with
    world := process.next state.world op answer
    log := state.log ++ [(task, ⟨op, answer⟩)] }

inductive Process.Step (process : Process ι Op Resp) (state : process.State) :
    Option (ι × Event Op Resp) → process.State → Prop
  | call (task : ι) {op : Op} {next} (answer : Resp op)
      (waits : (state.thread task).rest = .call op next)
      (given : process.possible state.world task op answer) :
      Step process state (some (task, ⟨op, answer⟩)) (state.answered task op answer (next answer))
  | move (task : ι) {thread} (moves : (state.thread task).Moves (process.turn task) thread) :
      Step process state none (state.setThread task thread)
  | evolve {world} (evolves : process.evolves state.world world) :
      Step process state none { state with world }

inductive Process.Runs (process : Process ι Op Resp)
    (meets : process.State → ι × Event Op Resp → Prop) (start : process.State) :
    process.State → Prop
  | refl : Runs process meets start start
  | step {state label after} : Runs process meets start state → process.Step state label after →
      (∀ event, label = some event → meets state event) → Runs process meets start after

def Process.State.advance (state : process.State) (task : ι) (answers : (op : Op) → Resp op) :
    process.State :=
  match (state.thread task).rest with
  | .call op next => state.answered task op (answers op) (next (answers op))
  | .tick _ next => state.setThread task ⟨(state.thread task).store, next false⟩
  | .get next => state.setThread task ⟨(state.thread task).store, next (state.thread task).store⟩
  | .set written next => state.setThread task ⟨written, next⟩
  | .pure () => state.setThread task ⟨(state.thread task).store, process.turn task⟩
  | .fail _ | .panic => state

def Process.State.fire (state : process.State) (task : ι) : process.State :=
  match (state.thread task).rest with
  | .tick _ next => state.setThread task ⟨(state.thread task).store, next true⟩
  | _ => state

def Process.State.advances (state : process.State) (task : ι) (answers : (op : Op) → Resp op) :
    Nat → process.State
  | 0 => state
  | steps + 1 => (state.advance task answers).advances task answers steps

end LeanProgram
