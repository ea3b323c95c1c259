import Mathlib.Data.List.Basic

/-!
Interaction programs: asynchronous code with a local store that can fail, abort,
poll a timer, or call an operation whose answer it does not control. Everything here
is generic in the operations, so a development chooses its own interface and store.
-/

namespace LeanProgram

inductive Outcome (ε α : Type) where
  | ok (value : α)
  | err (error : ε)
  | panic
deriving Repr, DecidableEq

/-- A program over the interface `Op`: `call` issues one operation and continues with
its answer, `tick` asks whether the running timer has fired before an operation took
effect or while its answer is outstanding, `get` and `set` access the store the program
owns. -/
inductive Program (σ ε : Type) (Op : Type) (Resp : Op → Type) (α : Type) : Type where
  | pure (value : α)
  | fail (error : ε)
  | panic
  | call (op : Op) (next : Resp op → Program σ ε Op Resp α)
  | tick (issued : Bool) (next : Bool → Program σ ε Op Resp α)
  | get (next : σ → Program σ ε Op Resp α)
  | set (store : σ) (next : Program σ ε Op Resp α)

/-- How long an operation suspends its program: not at all, until it takes effect (a
channel waiting for capacity), or until an answer arrives some time after the effect (a
request to another machine). -/
inductive Suspension where
  | never
  | untilEffect
  | untilAnswer
deriving Repr, DecidableEq

structure Lens (σ τ : Type) where
  view : σ → τ
  update : τ → σ → σ
  view_update : ∀ part store, view (update part store) = part
  update_view : ∀ store, update (view store) store = store
  update_update : ∀ first second store, update second (update first store) = update second store

def Lens.unit {σ : Type} : Lens σ Unit where
  view _ := ()
  update _ store := store
  view_update _ _ := rfl
  update_view _ := rfl
  update_update _ _ _ := rfl

variable {σ τ ε Op α β : Type} {Resp : Op → Type}

namespace Program

def bind : Program σ ε Op Resp α → (α → Program σ ε Op Resp β) → Program σ ε Op Resp β
  | pure value, rest => rest value
  | fail error, _ => fail error
  | panic, _ => panic
  | call op next, rest => call op fun answer => (next answer).bind rest
  | tick issued next, rest => tick issued fun fired => (next fired).bind rest
  | get next, rest => get fun store => (next store).bind rest
  | set store next, rest => set store (next.bind rest)

instance : Monad (Program σ ε Op Resp) where
  pure := Program.pure
  bind := Program.bind

def perform (op : Op) : Program σ ε Op Resp (Resp op) := call op pure

def load : Program σ ε Op Resp σ := get pure

def modify (change : σ → σ) : Program σ ε Op Resp Unit :=
  get fun store => set (change store) (pure ())

def ofExcept : Except ε α → Program σ ε Op Resp α
  | .ok value => pure value
  | .error error => fail error

def ofOutcome : Outcome ε α → Program σ ε Op Resp α
  | .ok value => pure value
  | .err error => fail error
  | .panic => panic

def attempt : Program σ ε Op Resp α → Program σ ε Op Resp (Except ε α)
  | pure value => pure (.ok value)
  | fail error => pure (.error error)
  | panic => panic
  | call op next => call op fun answer => (next answer).attempt
  | tick issued next => tick issued fun fired => (next fired).attempt
  | get next => get fun store => (next store).attempt
  | set store next => set store next.attempt

/-- Turn a panic into `none`, as the locals of a caller see it while the stack unwinds. -/
def unwound : Program σ ε Op Resp α → Program σ ε Op Resp (Option α)
  | pure value => pure (some value)
  | fail error => fail error
  | panic => pure none
  | call op next => call op fun answer => (next answer).unwound
  | tick issued next => tick issued fun fired => (next fired).unwound
  | get next => get fun store => (next store).unwound
  | set store next => set store next.unwound

def zoom (lens : Lens σ τ) : Program τ ε Op Resp α → Program σ ε Op Resp α
  | pure value => pure value
  | fail error => fail error
  | panic => panic
  | call op next => call op fun answer => (next answer).zoom lens
  | tick issued next => tick issued fun fired => (next fired).zoom lens
  | get next => get fun store => (next (lens.view store)).zoom lens
  | set part next => get fun store => set (lens.update part store) (next.zoom lens)

def lift (program : Program Unit ε Op Resp α) : Program σ ε Op Resp α :=
  program.zoom Lens.unit

def unlessFired (issued : Bool) (rest : Program σ ε Op Resp (Option α)) :
    Program σ ε Op Resp (Option α) :=
  tick issued fun fired => if fired then pure none else rest

/-- Run a program under a timer. When the timer fires while an operation is suspended,
the rest of the program is dropped, with the store and the operations issued so far left
as they are. -/
def timeout (suspends : Op → Suspension) :
    Program σ ε Op Resp α → Program σ ε Op Resp (Option (Except ε α))
  | pure value => pure (some (.ok value))
  | fail error => pure (some (.error error))
  | panic => panic
  | call op next =>
      match suspends op with
      | .never => call op fun answer => (next answer).timeout suspends
      | .untilEffect => unlessFired false (call op fun answer => (next answer).timeout suspends)
      | .untilAnswer => unlessFired false
          (call op fun answer => unlessFired true ((next answer).timeout suspends))
  | tick issued next => tick issued fun fired => (next fired).timeout suspends
  | get next => get fun store => (next store).timeout suspends
  | set store next => set store (next.timeout suspends)

end Program

abbrev Event (Op : Type) (Resp : Op → Type) : Type := (op : Op) × Resp op

abbrev Trace (Op : Type) (Resp : Op → Type) : Type := List (Event Op Resp)

/-- An environment answers every operation and fires timers, knowing all earlier
operations and answers. -/
structure Environment (Op : Type) (Resp : Op → Type) where
  answer : Trace Op Resp → (op : Op) → Resp op
  fired : Bool → Trace Op Resp → Bool

def Environment.Quiet (env : Environment Op Resp) : Prop :=
  ∀ issued history, env.fired issued history = false

structure Result (σ ε Op : Type) (Resp : Op → Type) (α : Type) where
  outcome : Outcome ε α
  store : σ
  trace : Trace Op Resp

def Result.prepend (event : Event Op Resp) (result : Result σ ε Op Resp α) :
    Result σ ε Op Resp α :=
  { result with trace := event :: result.trace }

/-- Execute a program in an environment that has answered `history` before. The trace
of the result holds the operations of this execution only. -/
def run (env : Environment Op Resp) :
    Program σ ε Op Resp α → σ → Trace Op Resp → Result σ ε Op Resp α
  | .pure value, store, _ => ⟨.ok value, store, []⟩
  | .fail error, store, _ => ⟨.err error, store, []⟩
  | .panic, store, _ => ⟨.panic, store, []⟩
  | .call op next, store, history =>
      let answer := env.answer history op
      (run env (next answer) store (history ++ [⟨op, answer⟩])).prepend ⟨op, answer⟩
  | .tick issued next, store, history => run env (next (env.fired issued history)) store history
  | .get next, store, history => run env (next store) store history
  | .set store next, _, history => run env next store history

end LeanProgram
