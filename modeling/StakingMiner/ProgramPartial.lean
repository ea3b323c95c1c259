import StakingMiner.ProgramTrace

/-!
Partial correctness of interaction programs: what holds of the value a program returns and of
the ghost value it leaves, where failures and panics need no answer because they end the call. An
accepted trace can then be read at any of its events.
-/

namespace LeanProgram

variable {σ ε Op γ α β : Type} {Resp : Op → Type} {M : Monitor Op Resp γ} {store : σ} {ghost : γ}

/-- The program issues only what the monitor allows, and if it returns, `post` holds. -/
def Leads (M : Monitor Op Resp γ) (program : Program σ ε Op Resp α) (post : α → σ → γ → Prop)
    (store : σ) (ghost : γ) : Prop :=
  wp M program (fun outcome store ghost => ∀ value, outcome = .ok value → post value store ghost)
    store ghost

section Rules

variable {program : Program σ ε Op Resp α} {post weaker : α → σ → γ → Prop}

@[simp] theorem leads_return (value : α) :
    Leads M (pure value : Program σ ε Op Resp α) post store ghost ↔ post value store ghost := by
  simp [Leads]

@[simp] theorem leads_fail (error : ε) :
    Leads M (Program.fail error : Program σ ε Op Resp α) post store ghost :=
  fun _ => nofun

@[simp] theorem leads_panic :
    Leads M (Program.panic : Program σ ε Op Resp α) post store ghost :=
  fun _ => nofun

theorem Leads.mono (leads : Leads M program post store ghost)
    (implies : ∀ value store ghost, post value store ghost → weaker value store ghost) :
    Leads M program weaker store ghost :=
  wp_mono leads fun _ store ghost holds value returned =>
    implies value store ghost (holds value returned)

theorem Leads.bind {rest : α → Program σ ε Op Resp β} {last : β → σ → γ → Prop}
    (first : Leads M program post store ghost)
    (second : ∀ value store ghost, post value store ghost → Leads M (rest value) last store ghost) :
    Leads M (program >>= rest) last store ghost :=
  wp_seq first (fun value store ghost holds => second value store ghost (holds value rfl))
    (fun _ _ _ _ _ => nofun) (fun _ _ _ _ => nofun)

theorem Leads.attemptBind {rest : Except ε α → Program σ ε Op Resp β} {last : β → σ → γ → Prop}
    {failed : ε → σ → γ → Prop}
    (first : wp M program (fun outcome store ghost =>
      (∀ value, outcome = .ok value → post value store ghost) ∧
        ∀ error, outcome = .err error → failed error store ghost) store ghost)
    (returned : ∀ value store ghost, post value store ghost →
      Leads M (rest (.ok value)) last store ghost)
    (caught : ∀ error store ghost, failed error store ghost →
      Leads M (rest (.error error)) last store ghost) :
    Leads M (program.attempt >>= rest) last store ghost := by
  unfold Leads
  rw [wp_bind, wp_attempt]
  refine wp_mono first ?_
  rintro (value | error | _) after seen ⟨ended, gaveUp⟩
  · exact returned value after seen (ended value rfl)
  · exact caught error after seen (gaveUp error rfl)
  · exact fun _ => nofun

theorem Leads.zoom {τ : Type} {lens : Lens τ σ} {whole : τ} {post : α → τ → γ → Prop}
    (leads : Leads M program (fun value part ghost => post value (lens.update part whole) ghost)
      (lens.view whole) ghost) :
    Leads M (program.zoom lens) post whole ghost :=
  (wp_zoom lens program).mpr leads

end Rules

theorem Leads.lift {program : Program Unit ε Op Resp α} {post : α → σ → γ → Prop}
    (leads : Leads M program (fun value _ ghost => post value store ghost) () ghost) :
    Leads M (program.lift : Program σ ε Op Resp α) post store ghost :=
  (wp_lift program).mpr leads

theorem Leads.liftBind {program : Program Unit ε Op Resp α} {post : α → Unit → γ → Prop}
    {rest : α → Program σ ε Op Resp β} {last : β → σ → γ → Prop}
    (first : Leads M program post () ghost)
    (second : ∀ value ghost, post value () ghost → Leads M (rest value) last store ghost) :
    Leads M (program.lift >>= rest) last store ghost := by
  have lifted : Leads M (program.lift : Program σ ε Op Resp α)
      (fun value after ghost => after = store ∧ post value () ghost) store ghost :=
    Leads.lift (first.mono fun _ _ _ holds => ⟨rfl, holds⟩)
  refine lifted.bind ?_
  rintro value _ after ⟨rfl, holds⟩
  exact second value after holds

theorem wp_invariant {keeps : γ → Prop} {program : Program σ ε Op Resp α}
    {post : Outcome ε α → σ → γ → Prop}
    (kept : ∀ ghost op answer, M.allows ghost op → keeps ghost → keeps (M.next ghost op answer))
    (verified : wp M program post store ghost) (holds : keeps ghost) :
    wp M program (fun outcome store after => post outcome store after ∧ keeps after)
      store ghost := by
  induction program generalizing store ghost with
  | pure | fail | panic => exact ⟨verified, holds⟩
  | call op next ih =>
      exact ⟨verified.1, fun answer expected => ih answer (verified.2 answer expected)
        (kept ghost op answer verified.1 holds)⟩
  | tick issued next ih => exact fun fired => ih fired (verified fired) holds
  | get next ih => exact ih _ verified holds
  | set written next ih => exact ih verified holds

theorem wp_timeout_anywhere {program : Program σ ε Op Resp α} {suspends : Op → Suspension}
    {post : Outcome ε (Option (Except ε α)) → σ → γ → Prop}
    (finishes : wp M program (inTime post) store ghost)
    (dropped : ∀ store ghost, post (.ok none) store ghost) :
    wp M (program.timeout suspends) post store ghost := by
  induction program generalizing store ghost with
  | pure | fail | panic => exact finishes
  | call op next ih =>
      have rest (answer : Resp op) (expected : M.expects ghost op answer) :=
        ih answer (finishes.2 answer expected)
      simp only [Program.timeout]
      split
      · exact ⟨finishes.1, rest⟩
      · exact wp_unlessFired.mpr ⟨dropped _ _, finishes.1, rest⟩
      · refine wp_unlessFired.mpr ⟨dropped _ _, finishes.1, fun answer expected => ?_⟩
        exact wp_unlessFired.mpr ⟨dropped _ _, rest answer expected⟩
  | tick issued next ih => exact fun fired => ih fired (finishes fired)
  | get next ih => exact ih _ finishes
  | set written next ih => exact ih finishes

theorem Monitor.Accepts.allowed {before after : Trace Op Resp} {event : Event Op Resp}
    (accepts : M.Accepts ghost (before ++ event :: after)) :
    M.allows (M.after ghost before) event.1 := by
  induction before generalizing ghost with
  | nil => exact accepts.1
  | cons first rest ih => exact ih accepts.2

theorem Monitor.accepts_append (ghost : γ) (first second : Trace Op Resp) :
    M.Accepts ghost (first ++ second) ↔
      M.Accepts ghost first ∧ M.Accepts (M.after ghost first) second := by
  induction first generalizing ghost with
  | nil => exact (and_iff_right trivial).symm
  | cons event rest ih =>
      rw [List.cons_append, Monitor.after_cons]
      exact (and_congr_right fun _ => ih _).trans and_assoc.symm

theorem Monitor.accepts_of_free {trace : Trace Op Resp}
    (free : ∀ event ∈ trace, ∀ ghost, M.allows ghost event.1) : M.Accepts ghost trace := by
  induction trace generalizing ghost with
  | nil => trivial
  | cons event rest ih =>
      exact ⟨free event (by simp) ghost, ih fun later member => free later (by simp [member])⟩

section Recorded

variable {program : Program σ ε Op Resp α} {post : Outcome ε α → σ → γ → Prop}
variable {trace : Trace Op Resp}

def Monitor.observing (Op : Type) (Resp : Op → Type) : Monitor Op Resp (Trace Op Resp) :=
  Monitor.tracing (fun _ _ => True) fun _ _ => True

theorem wp_observing (expects : ∀ ghost op answer, M.expects ghost op answer)
    (holds : wp M program post store ghost) :
    wp (Monitor.observing Op Resp) program (fun outcome store after =>
      ∃ passed, after = trace ++ passed ∧ M.Accepts ghost passed ∧
        post outcome store (M.after ghost passed)) store trace := by
  induction program generalizing store ghost trace with
  | pure | fail | panic => exact ⟨[], by simp, trivial, holds⟩
  | call op next ih =>
      refine ⟨trivial, fun answer _ => ?_⟩
      refine wp_mono (ih answer (holds.2 answer (expects ghost op answer))) ?_
      rintro outcome store _ ⟨passed, rfl, accepts, ends⟩
      exact ⟨⟨op, answer⟩ :: passed, by simp [Monitor.observing], ⟨holds.1, accepts⟩, ends⟩
  | tick issued next ih => exact fun fired => ih fired (holds fired)
  | get next ih => exact ih _ holds
  | set written next ih => exact ih holds

theorem run_observed {post : Outcome ε α → σ → Trace Op Resp → Prop} (env : Environment Op Resp)
    (history : Trace Op Resp) (holds : wp (Monitor.observing Op Resp) program post store []) :
    post (run env program store history).outcome (run env program store history).store
      (run env program store history).trace := by
  have expected : (Monitor.observing Op Resp).Expected [] (run env program store history).trace :=
    tracing_expected env (fun _ _ => trivial) program store [] history
  have ends := (wp_run env history holds expected).2
  rw [Monitor.observing, tracing_after, List.nil_append] at ends
  exact ends

theorem wp_tracing_issued {expected : (op : Op) → Resp op → Prop}
    {allowed : Trace Op Resp → Op → Prop} {issued : Op → Prop}
    {post : Outcome ε α → σ → Trace Op Resp → Prop}
    (holds : wp (Monitor.tracing expected allowed) program post store trace)
    (issues : wp (Monitor.issuing Resp issued) program (fun _ _ _ => True) store ()) :
    wp (Monitor.tracing expected allowed) program (fun outcome store after =>
      post outcome store after ∧ ∃ passed, after = trace ++ passed ∧ ∀ event ∈ passed, issued event.1)
      store trace := by
  induction program generalizing store trace with
  | pure | fail | panic => exact ⟨holds, [], by simp⟩
  | call op next ih =>
      refine ⟨holds.1, fun answer meets => ?_⟩
      refine wp_mono (ih answer (holds.2 answer meets) (issues.2 answer trivial)) ?_
      rintro outcome store after ⟨ends, passed, extended, kinds⟩
      refine ⟨ends, ⟨op, answer⟩ :: passed, by simpa using extended, ?_⟩
      exact List.forall_mem_cons.mpr ⟨issues.1, kinds⟩
  | tick issued next ih => exact fun fired => ih fired (holds fired) (issues fired)
  | get next ih => exact ih _ holds issues
  | set written next ih => exact ih holds issues

end Recorded

end LeanProgram
