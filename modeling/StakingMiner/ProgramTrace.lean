import StakingMiner.ProgramLogic

/-!
Monitors whose ghost value is the trace itself. They state which operations may follow
which traces, so that an accepted run has every guard before the guarded operation.
-/

namespace LeanProgram

variable {σ ε Op α β : Type} {Resp : Op → Type}

def Monitor.tracing (expected : (op : Op) → Resp op → Prop)
    (allowed : Trace Op Resp → Op → Prop) : Monitor Op Resp (Trace Op Resp) where
  expects _ := expected
  allows := allowed
  next trace op answer := trace ++ [⟨op, answer⟩]

variable {expected : (op : Op) → Resp op → Prop} {allowed : Trace Op Resp → Op → Prop}
variable {store : σ} {trace : Trace Op Resp}

@[simp] theorem tracing_allows (op : Op) :
    (Monitor.tracing expected allowed).allows trace op ↔ allowed trace op := Iff.rfl

@[simp] theorem tracing_next (op : Op) (answer : Resp op) :
    (Monitor.tracing expected allowed).next trace op answer = trace ++ [⟨op, answer⟩] := rfl

@[simp] theorem tracing_after (first second : Trace Op Resp) :
    (Monitor.tracing expected allowed).after first second = first ++ second := by
  induction second generalizing first with
  | nil => simp
  | cons event rest ih =>
      rw [Monitor.after_cons, ih, tracing_next, List.append_assoc]
      rfl

/-- In an accepted trace every operation was allowed after what came before it. -/
theorem tracing_accepts {start before after : Trace Op Resp} {event : Event Op Resp}
    (accepted : (Monitor.tracing expected allowed).Accepts start (before ++ event :: after)) :
    allowed (start ++ before) event.1 := by
  induction before generalizing start with
  | nil => simpa using accepted.1
  | cons first rest ih =>
      have later := ih accepted.2
      simpa using later

theorem wp_tracing_extends {program : Program σ ε Op Resp α}
    {post : Outcome ε α → σ → Trace Op Resp → Prop}
    (holds : wp (Monitor.tracing expected allowed) program post store trace) :
    wp (Monitor.tracing expected allowed) program
      (fun outcome store after => post outcome store after ∧ trace <+: after) store trace := by
  induction program generalizing store trace with
  | pure | fail | panic => exact ⟨holds, List.prefix_rfl⟩
  | call op next ih =>
      refine ⟨holds.1, fun answer meets => ?_⟩
      refine wp_mono (ih answer (holds.2 answer meets)) ?_
      rintro outcome store after ⟨ends, extended⟩
      exact ⟨ends, (List.prefix_append trace _).trans extended⟩
  | tick issued next ih => exact fun fired => ih fired (holds fired)
  | get next ih => exact ih _ holds
  | set written next ih => exact ih holds

theorem wp_tracing_lift_seq {post : Outcome ε α → σ → Trace Op Resp → Prop}
    {task : Program Unit ε Op Resp β} {rest : β → Program σ ε Op Resp α}
    (permissive : ∀ trace op, allowed trace op)
    (second : ∀ value longer, trace <+: longer →
      wp (Monitor.tracing expected allowed) (rest value) post store longer)
    (failed : ∀ error longer, trace <+: longer → post (.err error) store longer)
    (panicked : ∀ longer, trace <+: longer → post .panic store longer) :
    wp (Monitor.tracing expected allowed) (task.lift >>= rest) post store trace := by
  rw [wp_bind, wp_lift]
  refine wp_mono (wp_tracing_extends (wp_trivial permissive task () trace)) ?_
  rintro (value | error | _) _ longer ⟨_, extended⟩
  · exact second value longer extended
  · exact failed error longer extended
  · exact panicked longer extended

theorem wp_tracing_of_issuing {issued : Op → Prop} {program : Program σ ε Op Resp α}
    {post : Outcome ε α → σ → Prop}
    (holds : wp (Monitor.issuing Resp issued) program (fun outcome store _ => post outcome store)
      store ())
    (free : ∀ trace op, issued op → allowed trace op) :
    wp (Monitor.tracing expected allowed) program (fun outcome store after =>
      post outcome store ∧ ∃ passed, after = trace ++ passed ∧ ∀ event ∈ passed, issued event.1)
      store trace := by
  induction program generalizing store trace with
  | pure | fail | panic => exact ⟨holds, [], by simp⟩
  | call op next ih =>
      refine ⟨free trace op holds.1, fun answer _ => ?_⟩
      refine wp_mono (ih answer (holds.2 answer trivial)) ?_
      rintro outcome store after ⟨ends, passed, extended, kinds⟩
      refine ⟨ends, ⟨op, answer⟩ :: passed, by simpa using extended, ?_⟩
      intro event member
      rcases List.mem_cons.mp member with rfl | later
      · exact holds.1
      · exact kinds event later
  | tick issued next ih => exact fun fired => ih fired (holds fired)
  | get next ih => exact ih _ holds
  | set written next ih => exact ih holds

theorem tracing_expected (env : Environment Op Resp)
    (meets : ∀ history op, expected op (env.answer history op))
    (program : Program σ ε Op Resp α) (store : σ) (start history : Trace Op Resp) :
    (Monitor.tracing expected allowed).Expected start (run env program store history).trace := by
  induction program generalizing store start history with
  | pure | fail | panic => trivial
  | call op next ih => exact ⟨meets history op, ih _ store _ _⟩
  | tick issued next ih => exact ih _ store start history
  | get next ih => exact ih _ store start history
  | set written next ih => exact ih written start history

theorem run_answers (env : Environment Op Resp) {given : (op : Op) → Resp op → Prop}
    (meets : ∀ history op, given op (env.answer history op))
    (program : Program σ ε Op Resp α) (store : σ) (history : Trace Op Resp) :
    ∀ event ∈ (run env program store history).trace, given event.1 event.2 := by
  induction program generalizing store history with
  | pure | fail | panic => simp [run]
  | call op next ih =>
      intro event member
      rcases List.mem_cons.mp member with rfl | later
      · exact meets history op
      · exact ih _ store _ event later
  | tick issued next ih => exact ih _ store history
  | get next ih => exact ih _ store history
  | set written next ih => exact ih written history

def Monitor.recording (expected : (op : Op) → Resp op → Prop) (kept : Op → Bool) :
    Monitor Op Resp (Trace Op Resp) where
  expects _ := expected
  allows _ _ := True
  next record op answer := if kept op then record ++ [⟨op, answer⟩] else record

section Recording

variable {kept : Op → Bool} {record : Trace Op Resp}

theorem recording_next {op : Op} (interesting : kept op = true) (answer : Resp op) :
    (Monitor.recording expected kept).next record op answer = record ++ [⟨op, answer⟩] :=
  if_pos interesting

theorem recording_ignores {op : Op} (dropped : kept op = false) :
    (Monitor.recording expected kept).Ignores record op :=
  ⟨trivial, fun _ => if_neg (by simp [dropped])⟩

theorem recording_after (trace : Trace Op Resp) :
    (Monitor.recording expected kept).after record trace =
      record ++ trace.filter fun event => kept event.1 := by
  induction trace generalizing record with
  | nil => simp
  | cons event rest ih =>
      rw [Monitor.after_cons, ih]
      cases choice : kept event.1 with
      | true => simp [recording_next choice, choice]
      | false => simp [(recording_ignores choice).2, choice]

theorem recording_expected {trace : Trace Op Resp}
    (meets : ∀ event ∈ trace, expected event.1 event.2) :
    (Monitor.recording expected kept).Expected record trace := by
  induction trace generalizing record with
  | nil => trivial
  | cons event rest ih =>
      exact ⟨meets event (by simp), ih fun later member => meets later (by simp [member])⟩

theorem wp_recording_extends (program : Program σ ε Op Resp α) (store : σ)
    (record : Trace Op Resp) :
    wp (Monitor.recording expected kept) program (fun _ _ after => record <+: after)
      store record := by
  induction program generalizing store record with
  | pure | fail | panic => exact List.prefix_rfl
  | call op next ih =>
      refine ⟨trivial, fun answer _ => wp_mono (ih answer store _) ?_⟩
      intro _ _ after extended
      refine List.IsPrefix.trans ?_ extended
      cases choice : kept op with
      | true => exact recording_next choice answer ▸ List.prefix_append record _
      | false => exact (recording_ignores choice).2 answer ▸ List.prefix_rfl
  | tick issued next ih => exact fun fired => ih fired store record
  | get next ih => exact ih _ store record
  | set written next ih => exact ih written record

end Recording

end LeanProgram
