import Mathlib.Data.List.Basic

/-!
Pages of bounded size. Items are placed greedily, one after the other, so a list fills its
pages in exactly one way: every page but the last is full.
-/

namespace LeanPaging

variable {α : Type}

structure BoundedVec (α : Type) (bound : Nat) where
  items : List α
  bounded : items.length ≤ bound
deriving DecidableEq

namespace BoundedVec

variable {bound : Nat}

theorem ext_items {left right : BoundedVec α bound} (same : left.items = right.items) :
    left = right := by
  cases left
  cases right
  cases same
  rfl

def truncateFrom (bound : Nat) (items : List α) : BoundedVec α bound :=
  ⟨items.take bound, List.length_take_le bound items⟩

def tryPush (vec : BoundedVec α bound) (item : α) : Except α (BoundedVec α bound) :=
  if room : vec.items.length < bound then
    .ok ⟨vec.items ++ [item], by
      rw [List.length_append]
      exact room⟩
  else .error item

theorem truncateFrom_items (vec : BoundedVec α bound) : truncateFrom bound vec.items = vec := by
  apply ext_items
  exact List.take_of_length_le vec.bounded

end BoundedVec

/-- Every page fits and holds something, and all pages before the last one are full. -/
structure Packed (size : Nat) (pages : List (List α)) : Prop where
  fits : ∀ page ∈ pages, page.length ≤ size
  used : ∀ page ∈ pages, page ≠ []
  full : ∀ page ∈ pages.dropLast, page.length = size

theorem Packed.tail {size : Nat} {page : List α} {rest : List (List α)}
    (packed : Packed size (page :: rest)) : Packed size rest := by
  refine ⟨fun other member => packed.fits other (List.mem_cons_of_mem _ member),
    fun other member => packed.used other (List.mem_cons_of_mem _ member), ?_⟩
  intro other member
  refine packed.full other ?_
  cases rest with
  | nil => simp at member
  | cons next rest => exact List.mem_cons_of_mem _ member

theorem Packed.head_full {size : Nat} {page next : List α} {rest : List (List α)}
    (packed : Packed size (page :: next :: rest)) : page.length = size :=
  packed.full page List.mem_cons_self

theorem Packed.head_le {size : Nat} {page other : List α} {rest more : List (List α)}
    (packed : Packed size (page :: rest)) (second : Packed size (other :: more))
    (same : page ++ rest.flatten = other ++ more.flatten) : other.length ≤ page.length := by
  cases rest with
  | nil =>
      have lengths := congrArg List.length same
      simp only [List.flatten_nil, List.append_nil, List.length_append] at lengths
      omega
  | cons next rest =>
      rw [packed.head_full]
      exact second.fits other List.mem_cons_self

theorem Packed.unique {size : Nat} {pages others : List (List α)} (packed : Packed size pages)
    (second : Packed size others) (same : pages.flatten = others.flatten) : pages = others := by
  induction pages generalizing others with
  | nil =>
      cases others with
      | nil => rfl
      | cons other more =>
          have empty : other = [] := (List.append_eq_nil_iff.mp same.symm).1
          exact absurd empty (second.used other List.mem_cons_self)
  | cons page rest ih =>
      cases others with
      | nil =>
          have empty : page = [] := (List.append_eq_nil_iff.mp same).1
          exact absurd empty (packed.used page List.mem_cons_self)
      | cons other more =>
          -- neither first page can exceed the other, so the same items are cut at the same place
          rw [List.flatten_cons, List.flatten_cons] at same
          have lengths : page.length = other.length :=
            Nat.le_antisymm (second.head_le packed same.symm) (packed.head_le second same)
          obtain ⟨rfl, later⟩ := List.append_inj same lengths
          rw [ih packed.tail second.tail later]

def place (size : Nat) (pages : List (List α)) (item : α) : List (List α) :=
  match pages.getLast? with
  | none => pages ++ [[item].take size]
  | some last =>
      if last.length < size then pages.dropLast ++ [last ++ [item]]
      else pages ++ [[item].take size]

def paginate (size : Nat) (items : List α) : List (List α) := items.foldl (place size) []

section Place

variable {size : Nat} {pages : List (List α)}

theorem Packed.place (packed : Packed size pages) (positive : 0 < size) (item : α) :
    Packed size (place size pages item) := by
  have single : [item].take size = [item] := List.take_of_length_le positive
  rcases List.eq_nil_or_concat' pages with rfl | ⟨before, last, rfl⟩
  · have placed : LeanPaging.place size [] item = [[item]] := by simp [LeanPaging.place, single]
    rw [placed]
    exact ⟨by simpa using Nat.succ_le_of_lt positive, by simp, by simp⟩
  · have earlier : ∀ page ∈ before, page.length = size := by
      intro page member
      exact packed.full page (by simpa using member)
    by_cases room : last.length < size
    · have placed : LeanPaging.place size (before ++ [last]) item =
          before ++ [last ++ [item]] := by
        simp [LeanPaging.place, room]
      rw [placed]
      refine ⟨?_, ?_, ?_⟩
      · intro page member
        rcases List.mem_append.mp member with old | new
        · exact packed.fits page (List.mem_append_left _ old)
        · obtain rfl := List.mem_singleton.mp new
          rw [List.length_append]
          exact room
      · intro page member
        rcases List.mem_append.mp member with old | new
        · exact packed.used page (List.mem_append_left _ old)
        · obtain rfl := List.mem_singleton.mp new
          simp
      · simpa using earlier
    · have lastFull : last.length = size :=
        Nat.le_antisymm (packed.fits last (by simp)) (Nat.not_lt.mp room)
      have placed : LeanPaging.place size (before ++ [last]) item =
          before ++ [last] ++ [[item]] := by
        simp [LeanPaging.place, room, single]
      rw [placed]
      refine ⟨?_, ?_, ?_⟩
      · intro page member
        rcases List.mem_append.mp member with old | new
        · exact packed.fits page old
        · obtain rfl := List.mem_singleton.mp new
          exact positive
      · intro page member
        rcases List.mem_append.mp member with old | new
        · exact packed.used page old
        · obtain rfl := List.mem_singleton.mp new
          simp
      · intro page member
        rw [List.dropLast_concat] at member
        rcases List.mem_append.mp member with old | new
        · exact earlier page old
        · obtain rfl := List.mem_singleton.mp new
          exact lastFull

theorem place_flatten (positive : 0 < size) (pages : List (List α)) (item : α) :
    (place size pages item).flatten = pages.flatten ++ [item] := by
  have single : [item].take size = [item] := List.take_of_length_le positive
  rcases List.eq_nil_or_concat' pages with rfl | ⟨before, last, rfl⟩
  · simp [place, single]
  · by_cases room : last.length < size
    · simp [place, room]
    · simp [place, room, single]

theorem foldl_place (positive : 0 < size) (packed : Packed size pages) (items : List α) :
    Packed size (items.foldl (place size) pages) ∧
      (items.foldl (place size) pages).flatten = pages.flatten ++ items := by
  induction items generalizing pages with
  | nil => exact ⟨packed, by simp⟩
  | cons item rest ih =>
      obtain ⟨later, flat⟩ := ih (packed.place positive item)
      refine ⟨later, ?_⟩
      rw [List.foldl_cons, flat, place_flatten positive]
      simp

end Place

theorem Packed.length_le {size count : Nat} {pages : List (List α)} (packed : Packed size pages)
    (fits : pages.flatten.length ≤ count * size) : pages.length ≤ count := by
  rcases List.eq_nil_or_concat' pages with rfl | ⟨before, last, rfl⟩
  · simp
  · have full : (before.map List.length).sum = before.length * size := by
      have lengths : before.map List.length = List.replicate before.length size :=
        List.eq_replicate_iff.mpr ⟨by simp, fun length member => by
          obtain ⟨page, listed, rfl⟩ := List.mem_map.mp member
          exact packed.full page (by simpa using listed)⟩
      rw [lengths, List.sum_replicate_nat]
    have used : 0 < last.length := List.length_pos_iff.mpr (packed.used last (by simp))
    rw [List.flatten_append, List.length_append, List.length_flatten, full] at fits
    simp only [List.flatten_cons, List.flatten_nil, List.append_nil] at fits
    have fewer : before.length * size < count * size := by omega
    have less := Nat.lt_of_mul_lt_mul_right fewer
    rw [List.length_append, List.length_singleton]
    omega

theorem Packed.mem_page_iff {size : Nat} {pages : List (List α)} (packed : Packed size pages)
    (positive : 0 < size) (i : Nat) (item : α) :
    (∃ page, pages[i]? = some page ∧ item ∈ page) ↔
      ∃ position, position / size = i ∧ pages.flatten[position]? = some item := by
  induction pages generalizing i with
  | nil => simp
  | cons page rest ih =>
      rw [List.flatten_cons]
      have fits := packed.fits page List.mem_cons_self
      constructor
      · rintro ⟨found, listed, member⟩
        cases i with
        | zero =>
            obtain rfl : page = found := by simpa using listed
            obtain ⟨position, inside, rfl⟩ := List.getElem_of_mem member
            refine ⟨position, Nat.div_eq_of_lt (by omega), ?_⟩
            rw [List.getElem?_append_left inside, List.getElem?_eq_getElem inside]
        | succ i =>
            obtain ⟨position, quotient, placed⟩ :=
              (ih packed.tail i).mp ⟨found, by simpa using listed, member⟩
            have full : page.length = size := by
              cases rest with
              | nil => simp at placed
              | cons next rest => exact packed.head_full
            refine ⟨size + position, ?_, ?_⟩
            · rw [Nat.add_div_left _ positive, quotient]
            · rw [List.getElem?_append_right (by omega), full, Nat.add_sub_cancel_left, placed]
      · rintro ⟨position, quotient, placed⟩
        by_cases first : position < page.length
        · have zero : i = 0 := by
            rw [← quotient]
            exact Nat.div_eq_of_lt (by omega)
          subst zero
          rw [List.getElem?_append_left first] at placed
          exact ⟨page, rfl, List.mem_of_getElem? placed⟩
        · rw [List.getElem?_append_right (by omega)] at placed
          have full : page.length = size := by
            cases rest with
            | nil => simp at placed
            | cons next rest => exact packed.head_full
          rw [full] at placed
          obtain ⟨found, listed, member⟩ := (ih packed.tail _).mpr ⟨position - size, rfl, placed⟩
          have shifted : i = (position - size) / size + 1 := by
            rw [← quotient, ← Nat.add_div_right _ positive, Nat.sub_add_cancel (by omega)]
          subst shifted
          exact ⟨found, by simpa using listed, member⟩

theorem Packed.nil (size : Nat) : Packed size ([] : List (List α)) :=
  ⟨by simp, by simp, by simp⟩

/-- Paginating the items of some pages again gives the pages back exactly if they were
packed. -/
theorem paginate_flatten_iff {size : Nat} {pages : List (List α)}
    (fits : ∀ page ∈ pages, page.length ≤ size) :
    paginate size pages.flatten = pages ↔
      (∀ page ∈ pages, page ≠ []) ∧ ∀ page ∈ pages.dropLast, page.length = size := by
  rcases Nat.eq_zero_or_pos size with rfl | positive
  · have noItems : pages.flatten = [] := by
      rw [List.flatten_eq_nil_iff]
      intro page member
      exact List.eq_nil_of_length_eq_zero (Nat.le_zero.mp (fits page member))
    rw [noItems]
    constructor
    · rintro rfl
      exact ⟨by simp [paginate], by simp [paginate]⟩
    · rintro ⟨used, _⟩
      cases pages with
      | nil => rfl
      | cons page rest =>
          have empty := (List.flatten_eq_nil_iff.mp noItems) page List.mem_cons_self
          exact absurd empty (used page List.mem_cons_self)
  · obtain ⟨packed, flat⟩ := foldl_place positive (Packed.nil size) pages.flatten
    constructor
    · intro same
      have again : Packed size pages := same ▸ packed
      exact ⟨again.used, again.full⟩
    · rintro ⟨used, full⟩
      exact packed.unique ⟨fits, used, full⟩ flat

end LeanPaging
