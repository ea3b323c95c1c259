import StakingMiner.ProgramEnds

/-!
Programs that stay within bounds at every point: which operations they issue, what holds
of every store they write, and which errors they fail with. Since nothing is said about
where the program stops, the bounds survive a timer that drops its rest.
-/

namespace LeanProgram

variable {σ ε Op α β : Type} {Resp : Op → Type}

structure Bounds (σ ε Op : Type) where
  store : σ → Prop
  issued : Op → Prop
  fails : ε → Prop

def Bounds.free (bounds : Bounds σ ε Op) : Bounds Unit ε Op where
  store _ := True
  issued := bounds.issued
  fails := bounds.fails

/-- The program stays within the bounds, and the values it returns are as `returns` says. -/
def Confined (bounds : Bounds σ ε Op) (returns : α → Prop) : Program σ ε Op Resp α → Prop
  | .pure value => returns value
  | .fail error => bounds.fails error
  | .panic => True
  | .call op next => bounds.issued op ∧ ∀ answer, Confined bounds returns (next answer)
  | .tick _ next => ∀ fired, Confined bounds returns (next fired)
  | .get next => ∀ store, bounds.store store → Confined bounds returns (next store)
  | .set store next => bounds.store store ∧ Confined bounds returns next

variable {bounds : Bounds σ ε Op} {returns : α → Prop}

theorem confined_bind {middle : β → Prop} {program : Program σ ε Op Resp β}
    {rest : β → Program σ ε Op Resp α} (first : Confined bounds middle program)
    (second : ∀ value, middle value → Confined bounds returns (rest value)) :
    Confined bounds returns (program >>= rest) := by
  change Confined bounds returns (program.bind rest)
  induction program with
  | pure value => exact second value first
  | fail error => exact first
  | panic => trivial
  | call op next ih => exact ⟨first.1, fun answer => ih answer (first.2 answer)⟩
  | tick issued next ih => exact fun fired => ih fired (first fired)
  | get next ih => exact fun store within => ih store (first store within)
  | set written next ih => exact ⟨first.1, ih first.2⟩

theorem confined_lift {program : Program Unit ε Op Resp α}
    (confined : Confined bounds.free returns program) :
    Confined bounds returns (program.lift : Program σ ε Op Resp α) := by
  unfold Program.lift
  induction program with
  | pure value => exact confined
  | fail error => exact confined
  | panic => trivial
  | call op next ih => exact ⟨confined.1, fun answer => ih answer (confined.2 answer)⟩
  | tick issued next ih => exact fun fired => ih fired (confined fired)
  | get next ih => exact fun store _ => ih () (confined () trivial)
  | set written next ih => exact fun store within => ⟨within, ih confined.2⟩

def TimedReturn (bounds : Bounds σ ε Op) (returns : α → Prop) : Option (Except ε α) → Prop
  | none => True
  | some (.ok value) => returns value
  | some (.error error) => bounds.fails error

theorem confined_timeout {program : Program σ ε Op Resp α}
    (confined : Confined bounds returns program) (suspends : Op → Suspension) :
    Confined bounds (TimedReturn bounds returns) (program.timeout suspends) := by
  have dropped (issued : Bool) (timed : Program σ ε Op Resp (Option (Except ε α)))
      (within : Confined bounds (TimedReturn bounds returns) timed) :
      Confined bounds (TimedReturn bounds returns) (timed.unlessFired issued) := by
    intro fired
    cases fired with
    | true => trivial
    | false => exact within
  induction program with
  | pure value => exact confined
  | fail error => exact confined
  | panic => trivial
  | call op next ih =>
      have later (answer : Resp op) := ih answer (confined.2 answer)
      simp only [Program.timeout]
      split
      · exact ⟨confined.1, later⟩
      · exact dropped _ _ ⟨confined.1, later⟩
      · exact dropped _ _ ⟨confined.1, fun answer => dropped _ _ (later answer)⟩
  | tick issued next ih => exact fun fired => ih fired (confined fired)
  | get next ih => exact fun store within => ih store (confined store within)
  | set written next ih => exact ⟨confined.1, ih confined.2⟩

structure Bounds.Kept (bounds : Bounds σ ε Op) (returns : α → Prop) (history : Trace Op Resp)
    (outcome : Outcome ε α) (store : σ) (after : Trace Op Resp) : Prop where
  store : bounds.store store
  returned : ∀ value, outcome = .ok value → returns value
  failed : ∀ error, outcome = .err error → bounds.fails error
  issued : ∃ passed, after = history ++ passed ∧ ∀ event ∈ passed, bounds.issued event.1

theorem ends_of_confined {program : Program σ ε Op Resp α} {store : σ}
    {env : Environment Op Resp} {history : Trace Op Resp}
    (confined : Confined bounds returns program) (within : bounds.store store) :
    Ends env program (bounds.Kept returns history) store history := by
  induction program generalizing store history with
  | pure value =>
      refine (ends_pure value).mpr ⟨within, ?_, fun _ => nofun, [], by simp, by simp⟩
      rintro _ ⟨⟩
      exact confined
  | fail error =>
      refine (ends_fail error).mpr ⟨within, fun _ => nofun, ?_, [], by simp, by simp⟩
      rintro _ ⟨⟩
      exact confined
  | panic =>
      exact ends_panic.mpr ⟨within, fun _ => nofun, fun _ => nofun, [], by simp, by simp⟩
  | call op next ih =>
      refine ends_call.mpr ((ih _ (confined.2 _) within).mono ?_)
      rintro outcome after _ ⟨kept, returned, failed, passed, rfl, issued⟩
      refine ⟨kept, returned, failed, ⟨op, env.answer history op⟩ :: passed, by simp, ?_⟩
      intro event member
      rcases List.mem_cons.mp member with rfl | later
      · exact confined.1
      · exact issued event later
  | tick issued next ih => exact ih _ (confined _) within
  | get next ih => exact ih _ (confined _ within) within
  | set written next ih => exact ih confined.2 confined.1

end LeanProgram
