import StakingMiner.ProgramPartial

/-!
Invariants of the store and the ghost value of an interaction program. What holds before and
after each of its operations, and where it ends, also holds where a timer drops the program.
-/

namespace LeanProgram

variable {σ ε Op γ α β : Type} {Resp : Op → Type} {M : Monitor Op Resp γ}
variable {keeps : σ → γ → Prop} {store : σ} {ghost : γ}

/-- The program issues only what the monitor allows, `keeps` holds around each operation and at
the end, and if the program returns, `post` holds. -/
def Stays (M : Monitor Op Resp γ) (keeps : σ → γ → Prop) :
    Program σ ε Op Resp α → (α → σ → γ → Prop) → σ → γ → Prop
  | .pure value, post, store, ghost => keeps store ghost ∧ post value store ghost
  | .fail _, _, store, ghost | .panic, _, store, ghost => keeps store ghost
  | .call op next, post, store, ghost => keeps store ghost ∧ M.allows ghost op ∧
      ∀ answer, M.expects ghost op answer → keeps store (M.next ghost op answer) ∧
        Stays M keeps (next answer) post store (M.next ghost op answer)
  | .tick _ next, post, store, ghost => ∀ fired, Stays M keeps (next fired) post store ghost
  | .get next, post, store, ghost => Stays M keeps (next store) post store ghost
  | .set store next, post, _, ghost => Stays M keeps next post store ghost

section Rules

variable {program : Program σ ε Op Resp α} {post weaker : α → σ → γ → Prop}

theorem Stays.mono (stays : Stays M keeps program post store ghost)
    (implies : ∀ value store ghost, post value store ghost → weaker value store ghost) :
    Stays M keeps program weaker store ghost := by
  induction program generalizing store ghost with
  | pure value => exact ⟨stays.1, implies _ _ _ stays.2⟩
  | fail | panic => exact stays
  | call op next ih =>
      obtain ⟨kept, allowed, answered⟩ := stays
      refine ⟨kept, allowed, fun answer expected => ?_⟩
      exact ⟨(answered answer expected).1, ih answer (answered answer expected).2⟩
  | tick issued next ih => exact fun fired => ih fired (stays fired)
  | get next ih => exact ih _ stays
  | set written next ih => exact ih stays

theorem Stays.weaken {less : σ → γ → Prop} (stays : Stays M keeps program post store ghost)
    (implies : ∀ store ghost, keeps store ghost → less store ghost) :
    Stays M less program post store ghost := by
  induction program generalizing store ghost with
  | pure value => exact ⟨implies _ _ stays.1, stays.2⟩
  | fail | panic => exact implies _ _ stays
  | call op next ih =>
      obtain ⟨kept, allowed, answered⟩ := stays
      refine ⟨implies _ _ kept, allowed, fun answer expected => ?_⟩
      exact ⟨implies _ _ (answered answer expected).1, ih answer (answered answer expected).2⟩
  | tick issued next ih => exact fun fired => ih fired (stays fired)
  | get next ih => exact ih _ stays
  | set written next ih => exact ih stays

theorem Stays.kept (stays : Stays M keeps program post store ghost) :
    Stays M keeps program (fun value store ghost => keeps store ghost ∧ post value store ghost)
      store ghost := by
  induction program generalizing store ghost with
  | pure value => exact ⟨stays.1, stays⟩
  | fail | panic => exact stays
  | call op next ih =>
      obtain ⟨kept, allowed, answered⟩ := stays
      refine ⟨kept, allowed, fun answer expected => ?_⟩
      exact ⟨(answered answer expected).1, ih answer (answered answer expected).2⟩
  | tick issued next ih => exact fun fired => ih fired (stays fired)
  | get next ih => exact ih _ stays
  | set written next ih => exact ih stays

theorem Stays.bind {rest : α → Program σ ε Op Resp β} {last : β → σ → γ → Prop}
    (first : Stays M keeps program post store ghost)
    (second : ∀ value store ghost, keeps store ghost → post value store ghost →
      Stays M keeps (rest value) last store ghost) :
    Stays M keeps (program >>= rest) last store ghost := by
  change Stays M keeps (program.bind rest) last store ghost
  induction program generalizing store ghost with
  | pure value => exact second value store ghost first.1 first.2
  | fail | panic => exact first
  | call op next ih =>
      obtain ⟨kept, allowed, answered⟩ := first
      refine ⟨kept, allowed, fun answer expected => ?_⟩
      exact ⟨(answered answer expected).1, ih answer (answered answer expected).2⟩
  | tick issued next ih => exact fun fired => ih fired (first fired)
  | get next ih => exact ih _ first
  | set written next ih => exact ih first

theorem Stays.timeout (stays : Stays M keeps program post store ghost)
    (suspends : Op → Suspension) :
    wp M (program.timeout suspends) (fun outcome store ghost => keeps store ghost ∧
      ∀ value, outcome = .ok (some (.ok value)) → post value store ghost) store ghost := by
  induction program generalizing store ghost with
  | pure value =>
      refine ⟨stays.1, ?_⟩
      rintro _ ⟨⟩
      exact stays.2
  | fail error => exact ⟨stays, by rintro _ ⟨⟩⟩
  | panic => exact ⟨stays, by rintro _ ⟨⟩⟩
  | call op next ih =>
      obtain ⟨kept, allowed, answered⟩ := stays
      have rest (answer : Resp op) (expected : M.expects ghost op answer) :=
        ih answer (answered answer expected).2
      simp only [Program.timeout]
      split
      · exact ⟨allowed, rest⟩
      · exact wp_unlessFired.mpr ⟨⟨kept, by rintro _ ⟨⟩⟩, allowed, rest⟩
      · refine wp_unlessFired.mpr ⟨⟨kept, by rintro _ ⟨⟩⟩, allowed, fun answer expected => ?_⟩
        have later := (answered answer expected).1
        exact wp_unlessFired.mpr ⟨⟨later, by rintro _ ⟨⟩⟩, rest answer expected⟩
  | tick issued next ih => exact fun fired => ih fired (stays fired)
  | get next ih => exact ih _ stays
  | set written next ih => exact ih stays

end Rules

theorem Stays.lift {program : Program Unit ε Op Resp α} {post : α → σ → γ → Prop}
    (stays : Stays M (fun _ ghost => keeps store ghost) program
      (fun value _ ghost => post value store ghost) () ghost) :
    Stays M keeps (program.lift : Program σ ε Op Resp α) post store ghost := by
  change Stays M keeps (program.zoom Lens.unit) post store ghost
  induction program generalizing ghost with
  | pure | fail | panic => exact stays
  | call op next ih =>
      obtain ⟨kept, allowed, answered⟩ := stays
      refine ⟨kept, allowed, fun answer expected => ?_⟩
      exact ⟨(answered answer expected).1, ih answer (answered answer expected).2⟩
  | tick issued next ih => exact fun fired => ih fired (stays fired)
  | get next ih => exact ih _ stays
  | set written next ih => exact ih stays

theorem wp_issuing_and {first second : Op → Prop} {program : Program σ ε Op Resp α}
    {post also : Outcome ε α → σ → Prop}
    (left : wp (Monitor.issuing Resp first) program (fun outcome store _ => post outcome store)
      store ())
    (right : wp (Monitor.issuing Resp second) program (fun outcome store _ => also outcome store)
      store ()) :
    wp (Monitor.issuing Resp fun op => first op ∧ second op) program
      (fun outcome store _ => post outcome store ∧ also outcome store) store () := by
  induction program generalizing store with
  | pure | fail | panic => exact ⟨left, right⟩
  | call op next ih =>
      exact ⟨⟨left.1, right.1⟩, fun answer _ => ih answer (left.2 answer trivial)
        (right.2 answer trivial)⟩
  | tick issued next ih => exact fun fired => ih fired (left fired) (right fired)
  | get next ih => exact ih _ left right
  | set written next ih => exact ih left right

theorem wp_keeping_of_issuing {issued : Op → Prop} {keeps : γ → Prop}
    {program : Program σ ε Op Resp α} {post : Outcome ε α → σ → Prop}
    (holds : wp (Monitor.issuing Resp issued) program (fun outcome store _ => post outcome store)
      store ())
    (kept : ∀ ghost op, issued op → keeps ghost → M.allows ghost op ∧
      ∀ answer, keeps (M.next ghost op answer))
    (initially : keeps ghost) :
    wp M program (fun outcome store after => keeps after ∧ post outcome store) store ghost := by
  induction program generalizing store ghost with
  | pure | fail | panic => exact ⟨initially, holds⟩
  | call op next ih =>
      obtain ⟨allowed, later⟩ := kept ghost op holds.1 initially
      exact ⟨allowed, fun answer _ => ih answer (holds.2 answer trivial) (later answer)⟩
  | tick issued next ih => exact fun fired => ih fired (holds fired) initially
  | get next ih => exact ih _ holds initially
  | set written next ih => exact ih holds initially

end LeanProgram
