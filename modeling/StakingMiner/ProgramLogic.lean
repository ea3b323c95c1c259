import StakingMiner.ProgramCore

/-!
Weakest preconditions for interaction programs. A monitor keeps a ghost value that
every answered operation updates, says which operations the program may issue, and
which answers the environment may give. A verified program then satisfies its
postcondition on every run whose answers the monitor expects.
-/

namespace LeanProgram

structure Monitor (Op : Type) (Resp : Op → Type) (γ : Type) where
  expects : γ → (op : Op) → Resp op → Prop
  allows : γ → Op → Prop
  next : γ → (op : Op) → Resp op → γ

variable {σ τ ε Op γ α β : Type} {Resp : Op → Type}

/-- What must hold of store and ghost so that the program only issues allowed
operations and ends in the postcondition, whatever expected answers it gets. -/
def wp (M : Monitor Op Resp γ) :
    Program σ ε Op Resp α → (Outcome ε α → σ → γ → Prop) → σ → γ → Prop
  | .pure value, post, store, ghost => post (.ok value) store ghost
  | .fail error, post, store, ghost => post (.err error) store ghost
  | .panic, post, store, ghost => post .panic store ghost
  | .call op next, post, store, ghost => M.allows ghost op ∧
      ∀ answer, M.expects ghost op answer →
        wp M (next answer) post store (M.next ghost op answer)
  | .tick _ next, post, store, ghost => ∀ fired, wp M (next fired) post store ghost
  | .get next, post, store, ghost => wp M (next store) post store ghost
  | .set store next, post, _, ghost => wp M next post store ghost

def followedBy (M : Monitor Op Resp γ) (rest : α → Program σ ε Op Resp β)
    (post : Outcome ε β → σ → γ → Prop) : Outcome ε α → σ → γ → Prop
  | .ok value, store, ghost => wp M (rest value) post store ghost
  | .err error, store, ghost => post (.err error) store ghost
  | .panic, store, ghost => post .panic store ghost

variable {M : Monitor Op Resp γ} {post : Outcome ε α → σ → γ → Prop} {store : σ} {ghost : γ}

@[simp] theorem wp_pure (value : α) :
    wp M (Program.pure value : Program σ ε Op Resp α) post store ghost ↔
      post (.ok value) store ghost := Iff.rfl

@[simp] theorem wp_return (value : α) :
    wp M (pure value : Program σ ε Op Resp α) post store ghost ↔
      post (.ok value) store ghost := Iff.rfl

@[simp] theorem wp_fail (error : ε) :
    wp M (Program.fail error : Program σ ε Op Resp α) post store ghost ↔
      post (.err error) store ghost := Iff.rfl

@[simp] theorem wp_panic :
    wp M (Program.panic : Program σ ε Op Resp α) post store ghost ↔
      post .panic store ghost := Iff.rfl

theorem wp_call (op : Op) (next : Resp op → Program σ ε Op Resp α) :
    wp M (Program.call op next) post store ghost ↔
      M.allows ghost op ∧ ∀ answer, M.expects ghost op answer →
        wp M (next answer) post store (M.next ghost op answer) := Iff.rfl

theorem wp_tick (issued : Bool) (next : Bool → Program σ ε Op Resp α) :
    wp M (Program.tick issued next) post store ghost ↔
      ∀ fired, wp M (next fired) post store ghost := Iff.rfl

theorem wp_get (next : σ → Program σ ε Op Resp α) :
    wp M (Program.get next) post store ghost ↔
      wp M (next store) post store ghost := Iff.rfl

theorem wp_set (written : σ) (next : Program σ ε Op Resp α) :
    wp M (Program.set written next) post store ghost ↔
      wp M next post written ghost := Iff.rfl

@[simp] theorem wp_load {post : Outcome ε σ → σ → γ → Prop} :
    wp M (Program.load : Program σ ε Op Resp σ) post store ghost ↔
      post (.ok store) store ghost := Iff.rfl

@[simp] theorem wp_modify {post : Outcome ε Unit → σ → γ → Prop} (change : σ → σ) :
    wp M (Program.modify change : Program σ ε Op Resp Unit) post store ghost ↔
      post (.ok ()) (change store) ghost := Iff.rfl

@[simp] theorem wp_bind (program : Program σ ε Op Resp α) (rest : α → Program σ ε Op Resp β)
    {post : Outcome ε β → σ → γ → Prop} :
    wp M (program >>= rest) post store ghost ↔
      wp M program (followedBy M rest post) store ghost := by
  change wp M (program.bind rest) post store ghost ↔ _
  induction program generalizing store ghost with
  | pure | fail | panic => exact Iff.rfl
  | call op next ih => simp only [Program.bind, wp_call, ih]
  | tick issued next ih => simp only [Program.bind, wp_tick, ih]
  | get next ih => simp only [Program.bind, wp_get, ih]
  | set written next ih => simp only [Program.bind, wp_set, ih]

@[simp] theorem followedBy_ok (rest : α → Program σ ε Op Resp β)
    {post : Outcome ε β → σ → γ → Prop} (value : α) :
    followedBy M rest post (.ok value) store ghost ↔ wp M (rest value) post store ghost := Iff.rfl

@[simp] theorem followedBy_err (rest : α → Program σ ε Op Resp β)
    {post : Outcome ε β → σ → γ → Prop} (error : ε) :
    followedBy M rest post (.err error) store ghost ↔ post (.err error) store ghost := Iff.rfl

@[simp] theorem followedBy_panic (rest : α → Program σ ε Op Resp β)
    {post : Outcome ε β → σ → γ → Prop} :
    followedBy M rest post .panic store ghost ↔ post .panic store ghost := Iff.rfl

theorem wp_mono {program : Program σ ε Op Resp α} {weaker : Outcome ε α → σ → γ → Prop}
    (holds : wp M program post store ghost)
    (implies : ∀ outcome store ghost, post outcome store ghost → weaker outcome store ghost) :
    wp M program weaker store ghost := by
  induction program generalizing store ghost with
  | pure | fail | panic => exact implies _ _ _ holds
  | call op next ih => exact ⟨holds.1, fun answer expected => ih answer (holds.2 answer expected)⟩
  | tick issued next ih => exact fun fired => ih fired (holds fired)
  | get next ih => exact ih _ holds
  | set written next ih => exact ih holds

theorem wp_seq {program : Program σ ε Op Resp α} {rest : α → Program σ ε Op Resp β}
    {middle : Outcome ε α → σ → γ → Prop} {post : Outcome ε β → σ → γ → Prop}
    (first : wp M program middle store ghost)
    (second : ∀ value store ghost, middle (.ok value) store ghost →
      wp M (rest value) post store ghost)
    (failed : ∀ error store ghost, middle (.err error) store ghost → post (.err error) store ghost)
    (panicked : ∀ store ghost, middle .panic store ghost → post .panic store ghost) :
    wp M (program >>= rest) post store ghost := by
  rw [wp_bind]
  refine wp_mono first ?_
  rintro (value | error | _) after seen holds
  · exact second value after seen holds
  · exact failed error after seen holds
  · exact panicked after seen holds

theorem wp_trivial (permissive : ∀ ghost op, M.allows ghost op)
    (program : Program σ ε Op Resp α) (store : σ) (ghost : γ) :
    wp M program (fun _ _ _ => True) store ghost := by
  induction program generalizing store ghost with
  | pure | fail | panic => trivial
  | call op next ih => exact ⟨permissive ghost op, fun answer _ => ih answer store _⟩
  | tick issued next ih => exact fun fired => ih fired store ghost
  | get next ih => exact ih _ store ghost
  | set written next ih => exact ih written ghost

def caught (post : Outcome ε (Except ε α) → σ → γ → Prop) : Outcome ε α → σ → γ → Prop
  | .ok value => post (.ok (.ok value))
  | .err error => post (.ok (.error error))
  | .panic => post .panic

@[simp] theorem wp_attempt (program : Program σ ε Op Resp α)
    {post : Outcome ε (Except ε α) → σ → γ → Prop} :
    wp M program.attempt post store ghost ↔ wp M program (caught post) store ghost := by
  induction program generalizing store ghost with
  | pure | fail | panic => exact Iff.rfl
  | call op next ih => simp only [Program.attempt, wp_call, ih]
  | tick issued next ih => simp only [Program.attempt, wp_tick, ih]
  | get next ih => simp only [Program.attempt, wp_get, ih]
  | set written next ih => simp only [Program.attempt, wp_set, ih]

def unwinding (post : Outcome ε (Option α) → σ → γ → Prop) : Outcome ε α → σ → γ → Prop
  | .ok value => post (.ok (some value))
  | .err error => post (.err error)
  | .panic => post (.ok none)

@[simp] theorem wp_unwound (program : Program σ ε Op Resp α)
    {post : Outcome ε (Option α) → σ → γ → Prop} :
    wp M program.unwound post store ghost ↔ wp M program (unwinding post) store ghost := by
  induction program generalizing store ghost with
  | pure | fail | panic => exact Iff.rfl
  | call op next ih => simp only [Program.unwound, wp_call, ih]
  | tick issued next ih => simp only [Program.unwound, wp_tick, ih]
  | get next ih => simp only [Program.unwound, wp_get, ih]
  | set written next ih => simp only [Program.unwound, wp_set, ih]

@[simp] theorem wp_ofOutcome (outcome : Outcome ε α) :
    wp M (Program.ofOutcome outcome : Program σ ε Op Resp α) post store ghost ↔
      post outcome store ghost := by
  cases outcome <;> exact Iff.rfl

@[simp] theorem wp_zoom (lens : Lens σ τ) (program : Program τ ε Op Resp α) :
    wp M (program.zoom lens) post store ghost ↔
      wp M program (fun outcome part ghost => post outcome (lens.update part store) ghost)
        (lens.view store) ghost := by
  induction program generalizing store ghost with
  | pure | fail | panic => simp only [Program.zoom, wp_pure, wp_fail, wp_panic, lens.update_view]
  | call op next ih => simp only [Program.zoom, wp_call, ih]
  | tick issued next ih => simp only [Program.zoom, wp_tick, ih]
  | get next ih => simp only [Program.zoom, wp_get, ih]
  | set part next ih =>
      simp only [Program.zoom, wp_get, wp_set, ih, lens.view_update, lens.update_update]

@[simp] theorem wp_lift (program : Program Unit ε Op Resp α) :
    wp M (program.lift : Program σ ε Op Resp α) post store ghost ↔
      wp M program (fun outcome _ ghost => post outcome store ghost) () ghost :=
  wp_zoom Lens.unit program

theorem wp_lift_seq (permissive : ∀ ghost op, M.allows ghost op)
    {task : Program Unit ε Op Resp β} {rest : β → Program σ ε Op Resp α}
    (second : ∀ value ghost, wp M (rest value) post store ghost)
    (failed : ∀ error ghost, post (.err error) store ghost)
    (panicked : ∀ ghost, post .panic store ghost) :
    wp M (task.lift >>= rest) post store ghost := by
  rw [wp_bind, wp_lift]
  refine wp_mono (wp_trivial permissive task () ghost) ?_
  rintro (value | error | _) _ after _
  · exact second value after
  · exact failed error after
  · exact panicked after

def Monitor.after (M : Monitor Op Resp γ) (ghost : γ) (trace : Trace Op Resp) : γ :=
  trace.foldl (fun current event => M.next current event.1 event.2) ghost

@[simp] theorem Monitor.after_nil (M : Monitor Op Resp γ) (ghost : γ) :
    M.after ghost [] = ghost := rfl

@[simp] theorem Monitor.after_cons (M : Monitor Op Resp γ) (ghost : γ) (event : Event Op Resp)
    (rest : Trace Op Resp) :
    M.after ghost (event :: rest) = M.after (M.next ghost event.1 event.2) rest := rfl

@[simp] theorem Monitor.after_append (M : Monitor Op Resp γ) (ghost : γ)
    (first second : Trace Op Resp) :
    M.after ghost (first ++ second) = M.after (M.after ghost first) second := by
  simp [Monitor.after]

theorem Monitor.after_marked (M : Monitor Op Resp γ) (flag : γ → Prop)
    (marks : Event Op Resp → Prop)
    (marked : ∀ ghost event, flag (M.next ghost event.1 event.2) ↔ flag ghost ∨ marks event)
    (ghost : γ) (trace : Trace Op Resp) :
    flag (M.after ghost trace) ↔ flag ghost ∨ ∃ event ∈ trace, marks event := by
  induction trace generalizing ghost with
  | nil => simp
  | cons event rest ih =>
      rw [Monitor.after_cons, ih, marked, or_assoc, List.exists_mem_cons_iff]

def Monitor.Accepts (M : Monitor Op Resp γ) : γ → Trace Op Resp → Prop
  | _, [] => True
  | ghost, event :: rest => M.allows ghost event.1 ∧ M.Accepts (M.next ghost event.1 event.2) rest

def Monitor.Expected (M : Monitor Op Resp γ) : γ → Trace Op Resp → Prop
  | _, [] => True
  | ghost, event :: rest =>
      M.expects ghost event.1 event.2 ∧ M.Expected (M.next ghost event.1 event.2) rest

def inTime (post : Outcome ε (Option (Except ε α)) → σ → γ → Prop) : Outcome ε α → σ → γ → Prop
  | .ok value => post (.ok (some (.ok value)))
  | .err error => post (.ok (some (.error error)))
  | .panic => post .panic

theorem wp_unlessFired {program : Program σ ε Op Resp (Option α)} {issued : Bool}
    {post : Outcome ε (Option α) → σ → γ → Prop} :
    wp M (program.unlessFired issued) post store ghost ↔
      post (.ok none) store ghost ∧ wp M program post store ghost := by
  simp [Program.unlessFired, wp_tick, and_comm]

/-- A timed storeless program either finishes as the untimed one does or is dropped
after some of its operations, with what each of them keeps. -/
theorem wp_timeout_keeping {keeps : γ → Prop} {suspends : Op → Suspension}
    {program : Program Unit ε Op Resp α}
    {post : Outcome ε (Option (Except ε α)) → Unit → γ → Prop}
    (finishes : wp M program (inTime post) () ghost)
    (kept : ∀ ghost op answer, M.allows ghost op → keeps ghost → keeps (M.next ghost op answer))
    (holds : keeps ghost) (dropped : ∀ ghost, keeps ghost → post (.ok none) () ghost) :
    wp M (program.timeout suspends) post () ghost := by
  induction program generalizing ghost with
  | pure | fail | panic => exact finishes
  | call op next ih =>
      have later (answer : Resp op) : keeps (M.next ghost op answer) :=
        kept ghost op answer finishes.1 holds
      have rest (answer : Resp op) (expected : M.expects ghost op answer) :=
        ih answer (finishes.2 answer expected) (later answer)
      simp only [Program.timeout]
      split
      · exact ⟨finishes.1, rest⟩
      · exact wp_unlessFired.mpr ⟨dropped _ holds, finishes.1, rest⟩
      · refine wp_unlessFired.mpr ⟨dropped _ holds, finishes.1, fun answer expected => ?_⟩
        exact wp_unlessFired.mpr ⟨dropped _ (later answer), rest answer expected⟩
  | tick issued next ih => exact fun fired => ih fired (finishes fired) holds
  | get next ih => exact ih () finishes holds
  | set written next ih => exact ih finishes holds

theorem wp_timeout {suspends : Op → Suspension} {program : Program Unit ε Op Resp α}
    {post : Outcome ε (Option (Except ε α)) → Unit → γ → Prop}
    (finishes : wp M program (inTime post) () ghost)
    (dropped : ∀ passed, post (.ok none) () (M.after ghost passed)) :
    wp M (program.timeout suspends) post () ghost := by
  refine wp_timeout_keeping finishes
    (fun current op answer _ (reached : ∃ passed, current = M.after ghost passed) => ?_)
    ⟨[], rfl⟩ ?_
  · obtain ⟨passed, rfl⟩ := reached
    exact ⟨passed ++ [⟨op, answer⟩], by simp⟩
  · rintro current ⟨passed, rfl⟩
    exact dropped passed

def Monitor.only (M : Monitor Op Resp γ) (issued : Op → Prop) : Monitor Op Resp γ where
  expects := M.expects
  allows ghost op := M.allows ghost op ∧ issued op
  next := M.next

theorem wp_of_only {issued : Op → Prop} {program : Program σ ε Op Resp α}
    (holds : wp (M.only issued) program post store ghost) : wp M program post store ghost := by
  induction program generalizing store ghost with
  | pure | fail | panic => exact holds
  | call op next ih =>
      exact ⟨holds.1.1, fun answer expected => ih answer (holds.2 answer expected)⟩
  | tick issued next ih => exact fun fired => ih fired (holds fired)
  | get next ih => exact ih _ holds
  | set written next ih => exact ih holds

def Monitor.Permits (M : Monitor Op Resp γ) (program : Program σ ε Op Resp α) : Prop :=
  ∀ store ghost, wp M program (fun _ _ _ => True) store ghost

theorem Monitor.Permits.bind {program : Program σ ε Op Resp α}
    {rest : α → Program σ ε Op Resp β} (first : M.Permits program)
    (second : ∀ value, M.Permits (rest value)) : M.Permits (program >>= rest) := by
  intro store ghost
  exact wp_seq (first store ghost) (fun value store ghost _ => second value store ghost)
    (fun _ _ _ _ => trivial) (fun _ _ _ => trivial)

theorem Monitor.Permits.attempt {program : Program σ ε Op Resp α} (permits : M.Permits program) :
    M.Permits program.attempt := by
  intro store ghost
  rw [wp_attempt]
  refine wp_mono (permits store ghost) ?_
  intro outcome _ _ _
  cases outcome <;> trivial

theorem Monitor.Permits.unwound {program : Program σ ε Op Resp α} (permits : M.Permits program) :
    M.Permits program.unwound := by
  intro store ghost
  rw [wp_unwound]
  refine wp_mono (permits store ghost) ?_
  intro outcome _ _ _
  cases outcome <;> trivial

theorem Monitor.Permits.zoom {program : Program τ ε Op Resp α} (permits : M.Permits program)
    (lens : Lens σ τ) : M.Permits (program.zoom lens) := by
  intro store ghost
  rw [wp_zoom]
  exact permits (lens.view store) ghost

theorem Monitor.Permits.lift {program : Program Unit ε Op Resp α} (permits : M.Permits program) :
    M.Permits (program.lift : Program σ ε Op Resp α) :=
  permits.zoom Lens.unit

theorem Monitor.Permits.timeout {program : Program σ ε Op Resp α} (permits : M.Permits program)
    (suspends : Op → Suspension) : M.Permits (program.timeout suspends) := by
  intro store ghost
  have holds := permits store ghost
  clear permits
  induction program generalizing store ghost with
  | pure | fail | panic => trivial
  | call op next ih =>
      have rest (answer : Resp op) (expected : M.expects ghost op answer) :=
        ih answer store _ (holds.2 answer expected)
      simp only [Program.timeout]
      split
      · exact ⟨holds.1, rest⟩
      · exact wp_unlessFired.mpr ⟨trivial, holds.1, rest⟩
      · refine wp_unlessFired.mpr ⟨trivial, holds.1, fun answer expected => ?_⟩
        exact wp_unlessFired.mpr ⟨trivial, rest answer expected⟩
  | tick issued next ih => exact fun fired => ih fired store ghost (holds fired)
  | get next ih => exact ih _ store ghost holds
  | set written next ih => exact ih written ghost holds

def Monitor.Ignores (M : Monitor Op Resp γ) (ghost : γ) (op : Op) : Prop :=
  M.allows ghost op ∧ ∀ answer, M.next ghost op answer = ghost

def Monitor.issuing (Resp : Op → Type) (issued : Op → Prop) : Monitor Op Resp Unit where
  expects _ _ _ := True
  allows _ := issued
  next _ _ _ := ()

theorem wp_of_issuing {issued : Op → Prop} {program : Program σ ε Op Resp α}
    {post : Outcome ε α → σ → Prop}
    (holds : wp (Monitor.issuing Resp issued) program (fun outcome store _ => post outcome store)
      store ())
    (ignored : ∀ op, issued op → M.Ignores ghost op) :
    wp M program (fun outcome store after => after = ghost ∧ post outcome store) store ghost := by
  induction program generalizing store with
  | pure | fail | panic => exact ⟨rfl, holds⟩
  | call op next ih =>
      have inert := ignored op holds.1
      refine ⟨inert.1, fun answer _ => ?_⟩
      rw [inert.2 answer]
      exact ih answer (holds.2 answer trivial)
  | tick issued next ih => exact fun fired => ih fired (holds fired)
  | get next ih => exact ih _ holds
  | set written next ih => exact ih holds

theorem wp_free_of_issuing {issued : Op → Prop} {program : Program σ ε Op Resp α}
    {post : Outcome ε α → σ → Prop}
    (holds : wp (Monitor.issuing Resp issued) program (fun outcome store _ => post outcome store)
      store ())
    (free : ∀ ghost op, issued op → M.allows ghost op) :
    wp M program (fun outcome store _ => post outcome store) store ghost := by
  induction program generalizing store ghost with
  | pure | fail | panic => exact holds
  | call op next ih =>
      exact ⟨free ghost op holds.1, fun answer _ => ih answer (holds.2 answer trivial)⟩
  | tick issued next ih => exact fun fired => ih fired (holds fired)
  | get next ih => exact ih _ holds
  | set written next ih => exact ih holds

theorem wp_and_of_issuing {issued : Op → Prop} {program : Program σ ε Op Resp α}
    {always : Outcome ε α → σ → Prop}
    (left : wp (Monitor.issuing Resp issued) program (fun outcome store _ => always outcome store)
      store ())
    (right : wp M program post store ghost) :
    wp M program (fun outcome store ghost => always outcome store ∧ post outcome store ghost)
      store ghost := by
  induction program generalizing store ghost with
  | pure | fail | panic => exact ⟨left, right⟩
  | call op next ih =>
      exact ⟨right.1, fun answer expected => ih answer (left.2 answer trivial)
        (right.2 answer expected)⟩
  | tick issued next ih => exact fun fired => ih fired (left fired) (right fired)
  | get next ih => exact ih _ left right
  | set written next ih => exact ih left right

/-- A run of a verified program only issues allowed operations and ends in the
postcondition, as long as its answers were expected. -/
theorem wp_run {program : Program σ ε Op Resp α} (env : Environment Op Resp)
    (history : Trace Op Resp) (holds : wp M program post store ghost)
    (expected : M.Expected ghost (run env program store history).trace) :
    M.Accepts ghost (run env program store history).trace ∧
      post (run env program store history).outcome (run env program store history).store
        (M.after ghost (run env program store history).trace) := by
  induction program generalizing store ghost history with
  | pure | fail | panic => exact ⟨trivial, holds⟩
  | call op next ih =>
      have tail := ih _ (history ++ [⟨op, env.answer history op⟩]) (holds.2 _ expected.1) expected.2
      exact ⟨⟨holds.1, tail.1⟩, tail.2⟩
  | tick issued next ih => exact ih _ history (holds _) expected
  | get next ih => exact ih _ history holds expected
  | set written next ih => exact ih history holds expected

theorem Monitor.Accepts.issued {issued : Op → Prop} {trace : Trace Op Resp}
    (accepts : M.Accepts ghost trace) (implies : ∀ ghost op, M.allows ghost op → issued op) :
    ∀ event ∈ trace, issued event.1 := by
  induction trace generalizing ghost with
  | nil => simp
  | cons first rest ih =>
      exact List.forall_mem_cons.mpr ⟨implies ghost first.1 accepts.1, ih accepts.2⟩

theorem Monitor.expected_of_env {env : Environment Op Resp}
    (meets : ∀ ghost history op, M.expects ghost op (env.answer history op))
    (program : Program σ ε Op Resp α) (store : σ) (ghost : γ) (history : Trace Op Resp) :
    M.Expected ghost (run env program store history).trace := by
  induction program generalizing store ghost history with
  | pure | fail | panic => trivial
  | call op next ih => exact ⟨meets ghost history op, ih _ store _ _⟩
  | tick issued next ih => exact ih _ store ghost history
  | get next ih => exact ih store store ghost history
  | set written next ih => exact ih written ghost history

theorem issued_of_wp {issued : Op → Prop} {program : Program σ ε Op Resp α}
    {env : Environment Op Resp} (holds : wp M program post store ghost)
    (meets : ∀ ghost history op, M.expects ghost op (env.answer history op))
    (implies : ∀ ghost op, M.allows ghost op → issued op) (history : Trace Op Resp) :
    ∀ event ∈ (run env program store history).trace, issued event.1 := by
  have expected := Monitor.expected_of_env meets program store ghost history
  exact (wp_run env history holds expected).1.issued implies

theorem run_issued {issued : Op → Prop} {program : Program σ ε Op Resp α}
    {post : Outcome ε α → σ → Unit → Prop} (env : Environment Op Resp) (history : Trace Op Resp)
    (holds : wp (Monitor.issuing Resp issued) program post store ()) :
    ∀ event ∈ (run env program store history).trace, issued event.1 :=
  issued_of_wp holds (fun _ _ _ => trivial) (fun _ _ allowed => allowed) history

theorem run_call (env : Environment Op Resp) (op : Op) (next : Resp op → Program σ ε Op Resp α)
    (store : σ) (history : Trace Op Resp) :
    run env (.call op next) store history =
      (run env (next (env.answer history op)) store
        (history ++ [⟨op, env.answer history op⟩])).prepend ⟨op, env.answer history op⟩ := rfl

theorem run_tick (env : Environment Op Resp) (issued : Bool)
    (next : Bool → Program σ ε Op Resp α) (store : σ) (history : Trace Op Resp) :
    run env (.tick issued next) store history =
      run env (next (env.fired issued history)) store history := rfl

theorem run_get (env : Environment Op Resp) (next : σ → Program σ ε Op Resp α) (store : σ)
    (history : Trace Op Resp) :
    run env (.get next) store history = run env (next store) store history := rfl

theorem run_set (env : Environment Op Resp) (written : σ) (next : Program σ ε Op Resp α)
    (store : σ) (history : Trace Op Resp) :
    run env (.set written next) store history = run env next written history := rfl

theorem run_congr {env other : Environment Op Resp} {seen : Op → Prop}
    (fires : other.fired = env.fired)
    (agree : ∀ history op, seen op → other.answer history op = env.answer history op)
    {program : Program σ ε Op Resp α} {store : σ} {history : Trace Op Resp}
    (within : ∀ event ∈ (run env program store history).trace, seen event.1) :
    run other program store history = run env program store history := by
  induction program generalizing store history with
  | pure | fail | panic => rfl
  | call op next ih =>
      obtain ⟨first, later⟩ := List.forall_mem_cons.mp within
      rw [run_call, run_call, agree history op first, ih _ later]
  | tick issued next ih =>
      rw [run_tick, run_tick, fires]
      exact ih _ within
  | get next ih => exact ih store within
  | set written next ih => exact ih within

def Monitor.scripted (M : Monitor Op Resp γ) (script : γ → (op : Op) → Resp op) :
    Monitor Op Resp γ where
  expects ghost op answer := answer = script ghost op
  allows _ _ := True
  next := M.next

def Monitor.play (M : Monitor Op Resp γ) (start : γ) (script : γ → (op : Op) → Resp op) :
    Environment Op Resp where
  answer history op := script (M.after start history) op
  fired _ _ := false

theorem Monitor.after_append_event (M : Monitor Op Resp γ) (start : γ) (history : Trace Op Resp)
    (op : Op) (answer : Resp op) :
    M.after start (history ++ [⟨op, answer⟩]) = M.next (M.after start history) op answer := by
  simp

theorem run_play {script : γ → (op : Op) → Resp op} {start : γ}
    {program : Program σ ε Op Resp α} (history : Trace Op Resp)
    (holds : wp (M.scripted script) program post store (M.after start history)) :
    post (run (M.play start script) program store history).outcome
      (run (M.play start script) program store history).store
      (M.after (M.after start history) (run (M.play start script) program store history).trace) := by
  induction program generalizing store history with
  | pure | fail | panic => exact holds
  | call op next ih =>
      have tail := @ih (script (M.after start history) op) store
        (history ++ [⟨op, script (M.after start history) op⟩])
      rw [M.after_append_event] at tail
      exact tail (holds.2 _ rfl)
  | tick issued next ih => exact ih _ history (holds _)
  | get next ih => exact ih _ history holds
  | set written next ih => exact ih history holds

theorem expected_play {script : γ → (op : Op) → Resp op} {start : γ}
    (meets : ∀ ghost op, M.expects ghost op (script ghost op))
    (program : Program σ ε Op Resp α) (store : σ) (history : Trace Op Resp) :
    M.Expected (M.after start history) (run (M.play start script) program store history).trace := by
  induction program generalizing store history with
  | pure | fail | panic => trivial
  | call op next ih =>
      have tail := ih (script (M.after start history) op) store
        (history ++ [⟨op, script (M.after start history) op⟩])
      rw [M.after_append_event] at tail
      exact ⟨meets _ op, tail⟩
  | tick issued next ih => exact ih _ store history
  | get next ih => exact ih _ store history
  | set written next ih => exact ih written history

def Result.andThen (first : Result σ ε Op Resp α) (rest : α → σ → Result σ ε Op Resp β) :
    Result σ ε Op Resp β :=
  match first.outcome with
  | .ok value => { rest value first.store with
      trace := first.trace ++ (rest value first.store).trace }
  | .err error => ⟨.err error, first.store, first.trace⟩
  | .panic => ⟨.panic, first.store, first.trace⟩

theorem run_bind (env : Environment Op Resp) (program : Program σ ε Op Resp α)
    (rest : α → Program σ ε Op Resp β) (store : σ) (history : Trace Op Resp) :
    run env (program >>= rest) store history =
      (run env program store history).andThen fun value after =>
        run env (rest value) after (history ++ (run env program store history).trace) := by
  change run env (program.bind rest) store history = _
  induction program generalizing store history with
  | pure | fail | panic => simp [Program.bind, run, Result.andThen]
  | call op next ih =>
      simp only [Program.bind, run_call, ih, Result.prepend, Result.andThen]
      split <;> simp
  | tick issued next ih => simp only [Program.bind, run_tick, ih]
  | get next ih => simp only [Program.bind, run_get, ih]
  | set written next ih => simp only [Program.bind, run_set, ih]

theorem run_seq {env : Environment Op Resp} {program : Program σ ε Op Resp α}
    {rest : α → Program σ ε Op Resp β} {store middle after : σ}
    {history passed trace : Trace Op Resp} {value : α} {outcome : Outcome ε β}
    (first : run env program store history = ⟨.ok value, middle, passed⟩)
    (second : run env (rest value) middle (history ++ passed) = ⟨outcome, after, trace⟩) :
    run env (program >>= rest) store history = ⟨outcome, after, passed ++ trace⟩ := by
  rw [run_bind, first]
  simp only [Result.andThen, second]

theorem run_seq_ok {env : Environment Op Resp} {program : Program σ ε Op Resp α}
    {rest : α → Program σ ε Op Resp β} {store after : σ} {history trace : Trace Op Resp} {value : β}
    (ended : run env (program >>= rest) store history = ⟨.ok value, after, trace⟩) :
    ∃ first middle passed later, run env program store history = ⟨.ok first, middle, passed⟩ ∧
      run env (rest first) middle (history ++ passed) = ⟨.ok value, after, later⟩ ∧
      trace = passed ++ later := by
  rw [run_bind] at ended
  rcases started : run env program store history with ⟨first | error | _, middle, passed⟩
  · simp only [started, Result.andThen, Result.mk.injEq] at ended
    obtain ⟨outcome, same, rfl⟩ := ended
    refine ⟨first, middle, passed, _, rfl, ?_, rfl⟩
    rw [← outcome, ← same]
  · simp [started, Result.andThen] at ended
  · simp [started, Result.andThen] at ended

theorem run_bind_extends (env : Environment Op Resp) (program : Program σ ε Op Resp α)
    (rest : α → Program σ ε Op Resp β) (store : σ) (history : Trace Op Resp) :
    (run env program store history).trace <+: (run env (program >>= rest) store history).trace := by
  rw [run_bind, Result.andThen]
  split
  · exact List.prefix_append _ _
  · exact List.prefix_rfl
  · exact List.prefix_rfl

theorem run_bind_fail (env : Environment Op Resp) (program : Program σ ε Op Resp α) (error : ε)
    (store : σ) (history : Trace Op Resp) :
    (run env (program >>= fun _ => (Program.fail error : Program σ ε Op Resp β)) store
      history).trace = (run env program store history).trace := by
  rw [run_bind, Result.andThen]
  split <;> simp [run]

def Outcome.caught : Outcome ε α → Outcome ε (Except ε α)
  | .ok value => .ok (.ok value)
  | .err error => .ok (.error error)
  | .panic => .panic

theorem run_attempt (env : Environment Op Resp) (program : Program σ ε Op Resp α) (store : σ)
    (history : Trace Op Resp) :
    run env program.attempt store history =
      ⟨(run env program store history).outcome.caught, (run env program store history).store,
        (run env program store history).trace⟩ := by
  induction program generalizing store history with
  | pure | fail | panic => rfl
  | call op next ih => simp only [Program.attempt, run_call, ih, Result.prepend]
  | tick issued next ih => exact ih _ store history
  | get next ih => exact ih store store history
  | set written next ih => exact ih written history

def Outcome.unwound : Outcome ε α → Outcome ε (Option α)
  | .ok value => .ok (some value)
  | .err error => .err error
  | .panic => .ok none

theorem run_unwound (env : Environment Op Resp) (program : Program σ ε Op Resp α) (store : σ)
    (history : Trace Op Resp) :
    run env program.unwound store history =
      ⟨(run env program store history).outcome.unwound, (run env program store history).store,
        (run env program store history).trace⟩ := by
  induction program generalizing store history with
  | pure | fail | panic => rfl
  | call op next ih => simp only [Program.unwound, run_call, ih, Result.prepend]
  | tick issued next ih => exact ih _ store history
  | get next ih => exact ih store store history
  | set written next ih => exact ih written history

theorem run_ofOutcome (env : Environment Op Resp) (outcome : Outcome ε α) (store : σ)
    (history : Trace Op Resp) :
    run env (Program.ofOutcome outcome : Program σ ε Op Resp α) store history =
      ⟨outcome, store, []⟩ := by
  cases outcome <;> rfl

theorem run_load_bind (env : Environment Op Resp) (rest : σ → Program σ ε Op Resp α) (store : σ)
    (history : Trace Op Resp) :
    run env (Program.load >>= rest) store history = run env (rest store) store history := rfl

theorem run_lift (env : Environment Op Resp) (program : Program Unit ε Op Resp α) (store : σ)
    (history : Trace Op Resp) :
    run env (program.lift : Program σ ε Op Resp α) store history =
      ⟨(run env program () history).outcome, store, (run env program () history).trace⟩ := by
  unfold Program.lift
  induction program generalizing history with
  | pure | fail | panic => rfl
  | call op next ih => simp only [Program.zoom, run_call, ih, Result.prepend]
  | tick issued next ih => exact ih _ history
  | get next ih => exact ih _ history
  | set written next ih => exact ih history

theorem run_lift_seq {env : Environment Op Resp} {task : Program Unit ε Op Resp α}
    {rest : α → Program σ ε Op Resp β} {store after : σ} {history passed trace : Trace Op Resp}
    {value : α} {outcome : Outcome ε β}
    (first : run env task () history = ⟨.ok value, (), passed⟩)
    (second : run env (rest value) store (history ++ passed) = ⟨outcome, after, trace⟩) :
    run env (task.lift >>= rest) store history = ⟨outcome, after, passed ++ trace⟩ := by
  refine run_seq ?_ second
  rw [run_lift, first]

theorem return_bind (value : α) (rest : α → Program σ ε Op Resp β) :
    (pure value : Program σ ε Op Resp α) >>= rest = rest value := rfl

theorem Program.bind_assoc {δ : Type} (program : Program σ ε Op Resp α)
    (first : α → Program σ ε Op Resp β) (second : β → Program σ ε Op Resp δ) :
    program >>= first >>= second = program >>= fun value => first value >>= second := by
  change (program.bind first).bind second = program.bind fun value => (first value).bind second
  induction program with
  | pure | fail | panic => rfl
  | call op next ih => simp only [Program.bind, ih]
  | tick issued next ih => simp only [Program.bind, ih]
  | get next ih => simp only [Program.bind, ih]
  | set written next ih => simp only [Program.bind, ih]

def Outcome.inTime : Outcome ε α → Outcome ε (Option (Except ε α))
  | .ok value => .ok (some (.ok value))
  | .err error => .ok (some (.error error))
  | .panic => .panic

theorem run_timeout (env : Environment Op Resp) (quiet : env.Quiet) (suspends : Op → Suspension)
    (program : Program σ ε Op Resp α) (store : σ) (history : Trace Op Resp) :
    run env (program.timeout suspends) store history =
      ⟨(run env program store history).outcome.inTime, (run env program store history).store,
        (run env program store history).trace⟩ := by
  induction program generalizing store history with
  | pure | fail | panic => rfl
  | call op next ih =>
      simp only [Program.timeout]
      split <;> simp [Program.unlessFired, run_call, run_tick, quiet _ _, ih, Result.prepend]
  | tick issued next ih => simp only [Program.timeout, run_tick, ih]
  | get next ih => simp only [Program.timeout, run_get, ih]
  | set written next ih => simp only [Program.timeout, run_set, ih]

end LeanProgram
