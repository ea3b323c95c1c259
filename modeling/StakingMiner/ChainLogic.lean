import StakingMiner.ChainCore
import StakingMiner.ProgramLogic

/-!
Rules for the miner's own programs: how the weakest precondition passes through a
storage read, and which kinds of operations a task can issue.
-/

namespace LeanStakingMiner

open LeanProgram

variable {T : MinerConfig} {σ γ α β : Type} {M : Monitor (Op T) Resp γ} {store : σ} {ghost : γ}

@[simp] theorem wp_ask (op : Op T) {post : Outcome Error (Resp op) → σ → γ → Prop} :
    wp (α := no_index (Resp op)) M (ask op) post store ghost ↔
      M.allows ghost op ∧ ∀ answer, M.expects ghost op answer →
        post (.ok answer) store (M.next ghost op answer) := Iff.rfl

@[simp] theorem wp_rpc_ok {post : Outcome Error α → σ → γ → Prop} (value : α) :
    wp M (rpc (.ok value) : Miner T σ α) post store ghost ↔ post (.ok value) store ghost := Iff.rfl

@[simp] theorem wp_rpc_error {post : Outcome Error α → σ → γ → Prop} (error : SubxtError) :
    wp M (rpc (.error error) : Miner T σ α) post store ghost ↔
      post (.err (.subxt error)) store ghost := Iff.rfl

@[simp] theorem forall_read {holds : Read α → Prop} :
    (∀ answer, holds answer) ↔ (∀ error, holds (.error error)) ∧ ∀ value, holds (.ok value) := by
  constructor
  · intro all
    exact ⟨fun error => all _, fun value => all _⟩
  · rintro ⟨errors, values⟩ (error | value)
    · exact errors error
    · exact values value

inductive OpKind where
  | head
  | phase
  | submission
  | snapshot
  | solver
  | nonce
  | register
  | page
  | bail
  | janitor
  | events
  | submitCall
  | receive
  | signal
  | other
deriving DecidableEq

def Transaction.kind : Transaction T → OpKind
  | .registerScore _ => .register
  | .submitPage _ _ => .page
  | .bail => .bail
  | .clearOldRoundData _ _ | .pruneEraStep _ => .janitor

def Op.kind : Op T → OpKind
  | .storageAtHead => .head
  | .currentPhase _ _ => .phase
  | .submissionMetadata _ _ => .submission
  | .voterSnapshotHash _ _ _ | .voterSnapshot _ _ _ => .snapshot
  | .targetSnapshotHash _ _ _ | .targetSnapshot _ _ _ => .snapshot
  | .mineSolution _ => .solver
  | .accountNonce => .nonce
  | .submitAndWatch transaction _ _ => transaction.kind
  | .nextFinalized _ | .waitForSuccess _ => .events
  | .submitCalled _ => .submitCall
  | .minerRecv => .receive
  | .minerTrySend _ | .eraPruningSend _ | .eraPruningTrySend _ | .eraPruningRecv => .signal
  | .phaseObserved _ _ | .pruneEntered _ | .pruneLeft => .signal
  | _ => .other

def kindMonitor (kinds : List OpKind) : Monitor (Op T) Resp Unit :=
  Monitor.issuing Resp fun op => op.kind ∈ kinds

@[simp] theorem kindMonitor_allows (kinds : List OpKind) (ghost : Unit) (op : Op T) :
    (kindMonitor kinds).allows ghost op ↔ op.kind ∈ kinds := Iff.rfl

@[simp] theorem kindMonitor_expects (kinds : List OpKind) (ghost : Unit) (op : Op T)
    (answer : Resp op) : (kindMonitor kinds).expects ghost op answer ↔ True := Iff.rfl

@[simp] theorem kindMonitor_next (kinds : List OpKind) (ghost : Unit) (op : Op T)
    (answer : Resp op) : (kindMonitor kinds).next ghost op answer = () := rfl

/-- The task issues only operations of the listed kinds and ends as `post` says. -/
def Issues (kinds : List OpKind) (task : Task T α) (post : Outcome Error α → Prop) : Prop :=
  wp (kindMonitor kinds) task (fun outcome _ _ => post outcome) () ()

theorem ask_issues (op : Op T) : Issues [op.kind] (ask op) (· ≠ .panic) := by
  simp [Issues]

theorem Issues.mono {kinds more : List OpKind} {task : Task T α}
    {post weaker : Outcome Error α → Prop} (issues : Issues kinds task post)
    (subset : kinds ⊆ more) (implies : ∀ outcome, post outcome → weaker outcome) :
    Issues more task weaker := by
  have ignored (op : Op T) (member : op.kind ∈ kinds) : (kindMonitor more).Ignores () op :=
    ⟨subset member, fun _ => rfl⟩
  refine wp_mono (wp_of_issuing issues ignored) ?_
  rintro outcome _ _ ⟨_, holds⟩
  exact implies outcome holds

theorem Issues.bind {kinds : List OpKind} {task : Task T α} {rest : α → Task T β}
    {middle : Outcome Error α → Prop} {post : Outcome Error β → Prop}
    (first : Issues kinds task middle)
    (second : ∀ value, middle (.ok value) → Issues kinds (rest value) post)
    (failed : ∀ error, middle (.err error) → post (.err error))
    (panicked : middle .panic → post .panic) : Issues kinds (task >>= rest) post :=
  wp_seq first (fun value _ _ holds => second value holds) (fun error _ _ holds => failed error holds)
    (fun _ _ holds => panicked holds)

theorem Issues.andThen {kinds : List OpKind} {task : Task T α} {rest : α → Task T β}
    {middle : Outcome Error α → Prop} (first : Issues kinds task middle)
    (second : ∀ value, Issues kinds (rest value) fun _ => True) :
    Issues kinds (task >>= rest) fun _ => True :=
  first.bind (fun value _ => second value) (fun _ _ => trivial) (fun _ => trivial)

theorem Issues.and {kinds : List OpKind} {task : Task T α} {post : Outcome Error α → Prop}
    {other : Outcome Error α → Unit → γ → Prop} (issues : Issues kinds task post)
    (holds : wp M task other () ghost) :
    wp M task (fun outcome store after => post outcome ∧ other outcome store after) () ghost :=
  wp_and_of_issuing issues holds

theorem ask_permitted {op : Op T} (allowed : ∀ ghost, M.allows ghost op) :
    M.Permits (ask op : Miner T σ (Resp op)) :=
  fun _ ghost => ⟨allowed ghost, fun _ _ => trivial⟩

theorem rpc_permitted (answer : Read α) : M.Permits (rpc answer : Miner T σ α) := by
  intro store ghost
  cases answer <;> trivial

theorem permits_of_kinds {kinds : List OpKind} {program : Miner T σ α}
    (issues : ∀ store, wp (kindMonitor kinds) program (fun _ _ _ => True) store ())
    (free : ∀ ghost (op : Op T), op.kind ∈ kinds → M.allows ghost op) : M.Permits program := by
  intro store ghost
  exact wp_free_of_issuing (issues store) free

theorem Issues.permits {kinds : List OpKind} {task : Task T α} {post : Outcome Error α → Prop}
    (issues : Issues kinds task post)
    (free : ∀ ghost (op : Op T), op.kind ∈ kinds → M.allows ghost op) : M.Permits task :=
  permits_of_kinds (fun _ => wp_mono issues fun _ _ _ _ => trivial) free

theorem Issues.keeps {kinds : List OpKind} {task : Task T α} {post : Outcome Error α → Prop}
    {weaker : Outcome Error α → Unit → γ → Prop} (issues : Issues kinds task post)
    (ignored : ∀ op : Op T, op.kind ∈ kinds → M.Ignores ghost op)
    (implies : ∀ outcome, post outcome → weaker outcome () ghost) :
    wp M task weaker () ghost := by
  refine wp_mono (wp_of_issuing issues ignored) ?_
  rintro outcome _ _ ⟨rfl, holds⟩
  exact implies outcome holds

theorem Issues.seq {kinds : List OpKind} {task : Task T α} {rest : α → Task T β}
    {middle : Outcome Error α → Prop} {post : Outcome Error β → Unit → γ → Prop}
    (issues : Issues kinds task middle)
    (ignored : ∀ op : Op T, op.kind ∈ kinds → M.Ignores ghost op)
    (second : ∀ value, middle (.ok value) → wp M (rest value) post () ghost)
    (failed : ∀ error, middle (.err error) → post (.err error) () ghost)
    (panicked : middle .panic → post .panic () ghost) :
    wp M (task >>= rest) post () ghost := by
  rw [wp_bind]
  refine issues.keeps ignored ?_
  rintro (value | error | _) holds
  · exact second value holds
  · exact failed error holds
  · exact panicked holds

theorem chunksFrom_flatten {α : Type} {size : Nat} (positive : 0 < size) (fuel : Nat)
    (elements : List α) (enough : elements.length ≤ fuel) :
    (chunksFrom size fuel elements).flatten = elements := by
  induction fuel generalizing elements with
  | zero => exact (List.eq_nil_of_length_eq_zero (Nat.le_zero.mp enough)).symm
  | succ fuel ih =>
      cases elements with
      | nil => rfl
      | cons first rest =>
          rw [chunksFrom, List.flatten_cons, ih, List.take_append_drop]
          rw [List.length_drop]
          omega

theorem chunks_flatten {α : Type} {size : Nat} (positive : 0 < size) (elements : List α) :
    (chunks size elements).flatten = elements :=
  chunksFrom_flatten positive elements.length elements (Nat.le_refl _)

end LeanStakingMiner
