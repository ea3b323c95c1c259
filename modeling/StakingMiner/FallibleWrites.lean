import Mathlib.Data.List.Nodup
import Mathlib.Logic.Function.Basic

/-!
Values read from elsewhere and stored one after the other, up to the first reading that
fails. What is stored by then stays stored.
-/

namespace LeanWrites

variable {ι α ε : Type}

/-- Everything up to the first failed reading was read. -/
def FirstFailure (readings : List (ι × Except ε α)) (before : List (ι × α)) (error : ε) : Prop :=
  ∃ failed rest, readings = before.map (fun entry => (entry.1, .ok entry.2)) ++
    (failed, .error error) :: rest

theorem firstFailure_error (index : ι) (first error : ε) (rest : List (ι × Except ε α))
    (before : List (ι × α)) :
    FirstFailure ((index, .error first) :: rest) before error ↔ before = [] ∧ first = error := by
  constructor
  · rintro ⟨failed, later, split⟩
    cases before with
    | nil =>
        simp only [List.map_nil, List.nil_append, List.cons.injEq, Prod.mk.injEq,
          Except.error.injEq] at split
        exact ⟨rfl, split.1.2⟩
    | cons entry more => simp at split
  · rintro ⟨rfl, rfl⟩
    exact ⟨index, rest, rfl⟩

theorem firstFailure_ok (index : ι) (value : α) (error : ε) (rest : List (ι × Except ε α))
    (before : List (ι × α)) :
    FirstFailure ((index, .ok value) :: rest) before error ↔
      ∃ more, before = (index, value) :: more ∧ FirstFailure rest more error := by
  constructor
  · rintro ⟨failed, later, split⟩
    cases before with
    | nil => simp at split
    | cons entry more =>
        obtain ⟨same, tail⟩ := List.cons_eq_cons.mp split
        simp only [Prod.mk.injEq, Except.ok.injEq] at same
        exact ⟨more, by rw [same.1, same.2], failed, later, tail⟩
  · rintro ⟨more, rfl, failed, later, rfl⟩
    exact ⟨failed, later, rfl⟩

variable [DecidableEq ι]

def writeReadings : List (ι × Except ε α) → (ι → α) → EStateM.Result ε (ι → α) Unit
  | [], values => .ok () values
  | (_, .error error) :: _, values => .error error values
  | (index, .ok value) :: rest, values => writeReadings rest (Function.update values index value)

def written (entries : List (ι × α)) (values : ι → α) : ι → α :=
  entries.foldl (fun values entry => Function.update values entry.1 entry.2) values

theorem writeReadings_error_iff {readings : List (ι × Except ε α)} {values after : ι → α}
    {error : ε} :
    writeReadings readings values = .error error after ↔
      ∃ before, FirstFailure readings before error ∧ after = written before values := by
  induction readings generalizing values with
  | nil => simp [writeReadings, FirstFailure]
  | cons reading rest ih =>
      obtain ⟨index, first | value⟩ := reading
      · simp only [writeReadings, firstFailure_error, EStateM.Result.error.injEq]
        constructor
        · rintro ⟨rfl, rfl⟩
          exact ⟨[], ⟨rfl, rfl⟩, rfl⟩
        · rintro ⟨_, ⟨rfl, rfl⟩, rfl⟩
          exact ⟨rfl, rfl⟩
      · simp only [writeReadings, ih, firstFailure_ok]
        constructor
        · rintro ⟨more, failure, rfl⟩
          exact ⟨_, ⟨more, rfl, failure⟩, rfl⟩
        · rintro ⟨_, ⟨more, rfl, failure⟩, rfl⟩
          exact ⟨more, failure, rfl⟩

theorem written_other {entries : List (ι × α)} {values : ι → α} {index : ι}
    (other : index ∉ entries.map Prod.fst) : written entries values index = values index := by
  induction entries generalizing values with
  | nil => rfl
  | cons entry rest ih =>
      simp only [List.map_cons, List.mem_cons, not_or] at other
      have later : written rest (Function.update values entry.1 entry.2) index = _ := ih other.2
      rw [Function.update_of_ne other.1] at later
      exact later

theorem written_mem {entries : List (ι × α)} {values : ι → α}
    (distinct : (entries.map Prod.fst).Nodup) {entry : ι × α} (member : entry ∈ entries) :
    written entries values entry.1 = entry.2 := by
  induction entries generalizing values with
  | nil => simp at member
  | cons first rest ih =>
      rw [List.map_cons, List.nodup_cons] at distinct
      rcases List.mem_cons.mp member with rfl | later
      · have kept : written rest (Function.update values entry.1 entry.2) entry.1 = _ :=
          written_other distinct.1
        rw [Function.update_self] at kept
        exact kept
      · exact ih distinct.2 later

theorem written_eq_iff {entries : List (ι × α)} {values : ι → α}
    (distinct : (entries.map Prod.fst).Nodup) :
    written entries values = values ↔ ∀ entry ∈ entries, values entry.1 = entry.2 := by
  constructor
  · intro same entry member
    have stored := @written_mem _ _ _ entries values distinct entry member
    rwa [same] at stored
  · intro already
    clear distinct
    induction entries generalizing values with
    | nil => rfl
    | cons first rest ih =>
        have unchanged : Function.update values first.1 first.2 = values := by
          rw [← already first List.mem_cons_self]
          exact Function.update_eq_self first.1 values
        change written rest (Function.update values first.1 first.2) = values
        rw [unchanged]
        exact ih fun entry member => already entry (List.mem_cons_of_mem _ member)

end LeanWrites
