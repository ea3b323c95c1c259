import Mathlib.Data.List.Forall2

/-!
Traversals of a list by a function that can fail: they collect every result, or stop at the
first failure.
-/

namespace LeanTraversal

variable {α β ε : Type} {f : α → Except ε β} {items : List α}

theorem mapM_cons_ok {item : α} {value : β} (given : f item = .ok value) (rest : List α) :
    (item :: rest).mapM f = (rest.mapM f).map (value :: ·) := by
  rw [List.mapM_cons, given]
  cases rest.mapM f <;> rfl

theorem mapM_cons_error {item : α} {error : ε} (fails : f item = .error error) (rest : List α) :
    (item :: rest).mapM f = .error error := by
  rw [List.mapM_cons, fails]
  rfl

theorem mapM_eq_ok_iff {values : List β} :
    items.mapM f = .ok values ↔ items.map f = values.map .ok := by
  induction items generalizing values with
  | nil => cases values <;> simp [pure, Except.pure]
  | cons item rest ih =>
      cases given : f item with
      | error error => cases values <;> simp [mapM_cons_error given, given]
      | ok value =>
          rw [mapM_cons_ok given, List.map_cons, given]
          cases values with
          | nil => cases rest.mapM f <;> simp [Except.map]
          | cons first others =>
              rw [List.map_cons, List.cons.injEq, ← ih]
              cases rest.mapM f <;> simp [Except.map]

theorem mapM_append_ok {values : List β} (done : items.map f = values.map .ok)
    (rest : List α) : (items ++ rest).mapM f = (rest.mapM f).map (values ++ ·) := by
  rw [List.mapM_append, mapM_eq_ok_iff.mpr done]
  cases rest.mapM f <;> rfl

theorem mem_ok_of_map {values : List β} (done : items.map f = values.map .ok) :
    ∀ item ∈ items, ∃ value, f item = .ok value := by
  intro item member
  have listed : f item ∈ values.map Except.ok := done ▸ List.mem_map_of_mem member
  obtain ⟨value, _, given⟩ := List.mem_map.mp listed
  exact ⟨value, given.symm⟩

theorem mapM_eq_error_iff {error : ε} :
    items.mapM f = .error error ↔ ∃ before item after, items = before ++ item :: after ∧
      (∀ earlier ∈ before, ∃ value, f earlier = .ok value) ∧ f item = .error error := by
  constructor
  · intro failed
    induction items with
    | nil => simp [pure, Except.pure] at failed
    | cons item rest ih =>
        cases given : f item with
        | error other =>
            rw [mapM_cons_error given, Except.error.injEq] at failed
            exact ⟨[], item, rest, rfl, by simp, failed ▸ given⟩
        | ok value =>
            rw [mapM_cons_ok given] at failed
            cases later : rest.mapM f with
            | ok values => simp [later, Except.map] at failed
            | error other =>
                rw [later, Except.map, Except.error.injEq] at failed
                obtain ⟨before, last, after, rfl, succeed, fails⟩ := ih (failed ▸ later)
                refine ⟨item :: before, last, after, rfl, ?_, fails⟩
                exact List.forall_mem_cons.mpr ⟨⟨value, given⟩, succeed⟩
  · rintro ⟨before, item, after, rfl, succeed, fails⟩
    induction before with
    | nil => exact mapM_cons_error fails after
    | cons first rest ih =>
        obtain ⟨⟨value, given⟩, succeed⟩ := List.forall_mem_cons.mp succeed
        rw [List.cons_append, mapM_cons_ok given, ih succeed, Except.map]

section Options

variable {σ : Type}

theorem toOption_bind (first : Except ε α) (next : α → Except ε β) :
    (first >>= next).toOption = first.toOption >>= fun value => (next value).toOption := by
  cases first with
  | error _ => rfl
  | ok _ => rfl

theorem toOption_eq_none_iff {result : Except ε α} :
    result.toOption = none ↔ ∃ error, result = .error error := by
  cases result with
  | error error => simp [Except.toOption]
  | ok value => simp [Except.toOption]

theorem toOption_eq_some_iff {result : Except ε α} {value : α} :
    result.toOption = some value ↔ result = .ok value := by
  cases result with
  | error error => simp [Except.toOption]
  | ok value => simp [Except.toOption]

theorem toOption_mapM (read : α → Except ε β) (items : List α) :
    (items.mapM read).toOption = items.mapM fun item => (read item).toOption := by
  induction items with
  | nil => rfl
  | cons item rest ih =>
      rw [List.mapM_cons, List.mapM_cons, toOption_bind]
      congr 1
      funext value
      rw [toOption_bind, ih]
      rfl

theorem toOption_foldlM {step : σ → α → Except ε σ} {read : α → Option β} {apply : σ → β → σ}
    (steps : ∀ state item, (step state item).toOption = (read item).map (apply state))
    (items : List α) (state : σ) :
    (items.foldlM step state).toOption =
      (items.mapM read).map fun values => values.foldl apply state := by
  induction items generalizing state with
  | nil => rfl
  | cons item rest ih =>
      rw [List.foldlM_cons, toOption_bind, steps, List.mapM_cons]
      cases read item with
      | none => rfl
      | some value =>
          simp only [Option.map_some, Option.bind_eq_bind, Option.bind_some, ih]
          cases rest.mapM read with
          | none => rfl
          | some values => rfl

theorem mapM_eq_none_iff {read : α → Option β} {items : List α} :
    items.mapM read = none ↔ ∃ item ∈ items, read item = none := by
  induction items with
  | nil => simp
  | cons item rest ih =>
      rw [List.mapM_cons]
      cases value : read item with
      | none => simp [value]
      | some first =>
          simp only [Option.bind_eq_bind, Option.bind_some, Option.bind_eq_none_iff, reduceCtorEq,
            imp_false, List.mem_cons, exists_eq_or_imp, value, false_or]
          rw [← ih, Option.eq_none_iff_forall_ne_some]

theorem forall₂_of_mapM_some {f : α → Option β} {values : List β} {related : α → β → Prop}
    (relates : ∀ item value, f item = some value → related item value)
    (done : items.mapM f = some values) : List.Forall₂ related items values := by
  induction items generalizing values with
  | nil =>
      rw [List.mapM_nil] at done
      rw [← Option.some.inj done]
      exact .nil
  | cons item rest ih =>
      simp only [List.mapM_cons, Option.bind_eq_bind, Option.pure_def, Option.bind_eq_some_iff,
        Option.some.injEq] at done
      obtain ⟨value, first, others, later, rfl⟩ := done
      exact .cons (relates item value first) (ih later)

theorem map_of_mapM_some {γ : Type} {f : α → Option β} {values : List β} {kept : β → γ}
    {given : α → γ} (keeps : ∀ item value, f item = some value → kept value = given item)
    (done : items.mapM f = some values) : values.map kept = items.map given := by
  have along := forall₂_of_mapM_some keeps done
  rw [← List.forall₂_eq_eq_eq, List.forall₂_map_left_iff, List.forall₂_map_right_iff]
  exact List.Forall₂.flip along

theorem exists_mapM_some {f : α → Option β}
    (defined : ∀ item ∈ items, ∃ value, f item = some value) :
    ∃ values, items.mapM f = some values := by
  refine Option.ne_none_iff_exists'.mp fun missing => ?_
  obtain ⟨item, member, undefined⟩ := mapM_eq_none_iff.mp missing
  obtain ⟨value, given⟩ := defined item member
  rw [undefined] at given
  contradiction

end Options

end LeanTraversal
