import Mathlib.Data.List.Nodup
import Mathlib.Order.Lattice

/-!
Lists of entries with a key. An entry is put in place of the first one with its key or at
the end, so after any number of puts the old entries stand in their order and the new keys
follow in the order of their first put, each with the value put last.
-/

namespace LeanKeyed

variable {κ β : Type} [DecidableEq κ]

def lastValue (key : κ) : List (κ × β) → Option β
  | [] => none
  | entry :: rest => (lastValue key rest).or (if entry.1 = key then some entry.2 else none)

def put (key : κ) (value : β) : List (κ × β) → List (κ × β)
  | [] => [(key, value)]
  | entry :: rest =>
      if entry.1 = key then (key, value) :: rest else entry :: put key value rest

def puts (changes entries : List (κ × β)) : List (κ × β) :=
  changes.foldl (fun entries change => put change.1 change.2 entries) entries

def updated (changes entries : List (κ × β)) : List (κ × β) :=
  entries.map fun entry => (entry.1, (lastValue entry.1 changes).getD entry.2)

/-- The same for the picked entries alone. Whether one is picked depends on the keys before it,
its own, and those after it. -/
def changeAt (picks : List κ → κ → List κ → Bool) (changes : List (κ × β)) (before : List κ) :
    List (κ × β) → List (κ × β)
  | [] => []
  | entry :: rest =>
      (if picks before entry.1 (rest.map Prod.fst)
        then (entry.1, (lastValue entry.1 changes).getD entry.2) else entry) ::
          changeAt picks changes (entry.1 :: before) rest

def isFirst (before : List κ) (key : κ) (_ : List κ) : Bool := key ∉ before

def isLast (_ : List κ) (key : κ) (after : List κ) : Bool := key ∉ after

/-- The keys that are changed but have no entry, in the order of their first change. -/
def freshKeys (changes entries : List (κ × β)) : List κ :=
  ((changes.map Prod.fst).filter fun key => key ∉ entries.map Prod.fst).eraseDups

def freshEntries (changes entries : List (κ × β)) : List (κ × β) :=
  (freshKeys changes entries).filterMap fun key =>
    (lastValue key changes).map fun value => (key, value)

theorem nodup_filter_not_mem_iff {keys known : List κ} :
    (keys.filter fun key => key ∉ known).Nodup ↔ ∀ key, 2 ≤ keys.count key → key ∈ known := by
  rw [List.nodup_iff_count]
  constructor
  · intro single key twice
    by_contra unknown
    have counted := single key
    rw [List.count_filter (by simpa using unknown)] at counted
    omega
  · intro covered key
    by_cases unknown : key ∈ known
    · rw [List.count_eq_zero.mpr (by simp [unknown])]
      omega
    · rw [List.count_filter (by simpa using unknown)]
      by_contra twice
      exact unknown (covered key (by omega))

theorem length_filter_not_mem_cons_lt {keys known : List κ} {key : κ} (listed : key ∈ keys)
    (unknown : key ∉ known) :
    (keys.filter fun other => other ∉ key :: known).length <
      (keys.filter fun other => other ∉ known).length := by
  have split : (keys.filter fun other => other ∉ key :: known) =
      (keys.filter fun other => other ∉ known).filter (· ≠ key) := by
    rw [List.filter_filter]
    exact List.filter_congr fun other _ => by simp
  rw [split, List.length_filter_lt_length_iff_exists]
  exact ⟨key, by simp [listed, unknown], by simp⟩

section LastValue

variable {key : κ} {entries : List (κ × β)}

@[simp] theorem lastValue_nil : lastValue key ([] : List (κ × β)) = none := rfl

theorem lastValue_cons (entry : κ × β) (rest : List (κ × β)) :
    lastValue key (entry :: rest) =
      (lastValue key rest).or (if entry.1 = key then some entry.2 else none) := rfl

theorem lastValue_cons_of_ne {entry : κ × β} (other : entry.1 ≠ key) (rest : List (κ × β)) :
    lastValue key (entry :: rest) = lastValue key rest := by
  rw [lastValue_cons, if_neg other, Option.or_none]

theorem lastValue_append (left right : List (κ × β)) :
    lastValue key (left ++ right) = (lastValue key right).or (lastValue key left) := by
  induction left with
  | nil => simp
  | cons entry rest ih => rw [List.cons_append, lastValue_cons, lastValue_cons, ih, Option.or_assoc]

theorem lastValue_eq_none_iff : lastValue key entries = none ↔ key ∉ entries.map Prod.fst := by
  induction entries with
  | nil => simp
  | cons entry rest ih =>
      rw [lastValue_cons, Option.or_eq_none_iff, ih, List.map_cons, List.mem_cons]
      by_cases same : entry.1 = key
      · simp [same]
      · simp [same, Ne.symm same]

theorem mem_of_lastValue {value : β} (found : lastValue key entries = some value) :
    (key, value) ∈ entries := by
  induction entries with
  | nil => simp at found
  | cons entry rest ih =>
      rw [lastValue_cons, Option.or_eq_some_iff] at found
      rcases found with later | ⟨_, here⟩
      · exact List.mem_cons_of_mem _ (ih later)
      · by_cases same : entry.1 = key
        · rw [if_pos same, Option.some.injEq] at here
          rw [← same, ← here]
          exact List.mem_cons_self
        · rw [if_neg same] at here
          contradiction

omit [DecidableEq κ] in
theorem mem_filter_keys (keep : κ → Bool) :
    key ∈ (entries.filter fun entry => keep entry.1).map Prod.fst ↔
      key ∈ entries.map Prod.fst ∧ keep key = true := by
  have commutes : (entries.filter fun entry => keep entry.1).map Prod.fst =
      (entries.map Prod.fst).filter keep := List.filter_map.symm
  rw [commutes, List.mem_filter]

theorem lastValue_filter (keep : κ → Bool) (key : κ) (entries : List (κ × β)) :
    lastValue key (entries.filter fun entry => keep entry.1) =
      if keep key then lastValue key entries else none := by
  induction entries with
  | nil => simp
  | cons entry rest ih =>
      by_cases same : entry.1 = key
      · cases kept : keep key with
        | true => simp [same, kept, lastValue_cons, ih]
        | false => simpa [same, kept] using ih
      · rw [lastValue_cons_of_ne same, List.filter_cons]
        split
        · rw [lastValue_cons_of_ne same, ih]
        · exact ih

end LastValue

section Updated

@[simp] theorem updated_keys (changes entries : List (κ × β)) :
    (updated changes entries).map Prod.fst = entries.map Prod.fst := by
  simp [updated, Function.comp_def]

theorem lastValue_updated (key : κ) (changes entries : List (κ × β)) :
    lastValue key (updated changes entries) =
      (lastValue key entries).map fun old => (lastValue key changes).getD old := by
  induction entries with
  | nil => rfl
  | cons entry rest ih =>
      have split : updated changes (entry :: rest) =
          (entry.1, (lastValue entry.1 changes).getD entry.2) :: updated changes rest := rfl
      rw [split, lastValue_cons, lastValue_cons, ih]
      by_cases same : entry.1 = key
      · cases lastValue key rest with
        | none => simp [same]
        | some value => simp
      · simp [same]

end Updated

section ChangeAt

variable {picks : List κ → κ → List κ → Bool} {changes entries : List (κ × β)} {before : List κ}

theorem changeAt_cons (entry : κ × β) (rest : List (κ × β)) :
    changeAt picks changes before (entry :: rest) =
      (if picks before entry.1 (rest.map Prod.fst)
        then (entry.1, (lastValue entry.1 changes).getD entry.2) else entry) ::
          changeAt picks changes (entry.1 :: before) rest := rfl

@[simp] theorem changeAt_keys (picks : List κ → κ → List κ → Bool) (changes : List (κ × β))
    (before : List κ) (entries : List (κ × β)) :
    (changeAt picks changes before entries).map Prod.fst = entries.map Prod.fst := by
  induction entries generalizing before with
  | nil => rfl
  | cons entry rest ih =>
      rw [changeAt_cons, List.map_cons, List.map_cons, ih]
      split <;> rfl

theorem changeAt_eq_self
    (unchanged : ∀ entry ∈ entries, (lastValue entry.1 changes).getD entry.2 = entry.2 ∨
      ∀ more after, picks (more ++ before) entry.1 after = false) :
    changeAt picks changes before entries = entries := by
  induction entries generalizing before with
  | nil => rfl
  | cons entry rest ih =>
      obtain ⟨here, later⟩ := List.forall_mem_cons.mp unchanged
      have others : changeAt picks changes (entry.1 :: before) rest = rest := by
        refine ih fun other member => (later other member).imp_right fun unpicked more after => ?_
        rw [← List.singleton_append, ← List.append_assoc]
        exact unpicked _ after
      rw [changeAt_cons, others]
      rcases here with same | unpicked
      · rw [same]
        exact congrArg (· :: rest) (ite_self entry)
      · have skipped : picks before entry.1 (rest.map Prod.fst) = false := unpicked [] _
        rw [skipped, if_neg Bool.false_ne_true]

theorem changeAt_changeAt (picks : List κ → κ → List κ → Bool) (first second : List (κ × β))
    (before : List κ) (entries : List (κ × β)) :
    changeAt picks second before (changeAt picks first before entries) =
      changeAt picks (first ++ second) before entries := by
  induction entries generalizing before with
  | nil => rfl
  | cons entry rest ih =>
      simp only [changeAt_cons]
      by_cases picked : picks before entry.1 (rest.map Prod.fst) = true
      · simp only [if_pos picked, changeAt_keys, ih, lastValue_append]
        cases lastValue entry.1 second with
        | none => rfl
        | some value => rfl
      · simp only [if_neg picked, changeAt_keys, ih]

theorem changeAt_of_nodup (single : ∀ before key after, key ∉ before → key ∉ after →
      picks before key after = true) (changes : List (κ × β))
    (distinct : (entries.map Prod.fst).Nodup) (unseen : ∀ entry ∈ entries, entry.1 ∉ before) :
    changeAt picks changes before entries = updated changes entries := by
  induction entries generalizing before with
  | nil => rfl
  | cons entry rest ih =>
      obtain ⟨fresh, distinct⟩ := List.nodup_cons.mp distinct
      obtain ⟨here, later⟩ := List.forall_mem_cons.mp unseen
      have others : changeAt picks changes (entry.1 :: before) rest = updated changes rest := by
        refine ih distinct fun other member again => ?_
        rcases List.mem_cons.mp again with same | old
        · exact fresh (same ▸ List.mem_map_of_mem member)
        · exact later other member old
      rw [changeAt_cons, if_pos (single _ _ _ here fresh), others]
      rfl

theorem changeAt_cons_of_not_mem {change : κ × β} (fresh : change.1 ∉ entries.map Prod.fst)
    (changes : List (κ × β)) :
    changeAt picks (change :: changes) before entries = changeAt picks changes before entries := by
  induction entries generalizing before with
  | nil => rfl
  | cons entry rest ih =>
      rw [List.map_cons, List.mem_cons, not_or] at fresh
      rw [changeAt_cons, changeAt_cons, ih fresh.2, lastValue_cons_of_ne fresh.1]

theorem changeFirst_append (changes : List (κ × β)) (before : List κ)
    (left right : List (κ × β)) :
    changeAt isFirst changes before (left ++ right) = changeAt isFirst changes before left ++
      changeAt isFirst changes ((left.map Prod.fst).reverse ++ before) right := by
  induction left generalizing before with
  | nil => rfl
  | cons entry rest ih =>
      rw [List.cons_append, changeAt_cons, changeAt_cons, ih, List.cons_append, List.map_cons,
        List.reverse_cons, List.append_assoc, List.singleton_append]
      rfl

theorem getElem?_changeAt (index : Nat) :
    (changeAt picks changes before entries)[index]? = entries[index]?.map fun entry =>
      if picks (((entries.take index).map Prod.fst).reverse ++ before) entry.1
          ((entries.drop (index + 1)).map Prod.fst)
        then (entry.1, (lastValue entry.1 changes).getD entry.2) else entry := by
  induction entries generalizing before index with
  | nil => rfl
  | cons entry rest ih =>
      rw [changeAt_cons]
      cases index with
      | zero => rfl
      | succ index => simp [ih]

theorem changeLast_filter (keep : κ → Bool) (changes : List (κ × β)) (other : List κ) :
    changeAt isLast changes other (entries.filter fun entry => keep entry.1) =
      (changeAt isLast changes before entries).filter fun entry => keep entry.1 := by
  induction entries generalizing before other with
  | nil => rfl
  | cons entry rest ih =>
      rw [changeAt_cons]
      cases kept : keep entry.1 with
      | false =>
          rw [List.filter_cons_of_neg (by simp [kept]), ih other, List.filter_cons_of_neg ?_]
          split <;> simp [kept]
      | true =>
          have last : isLast other entry.1 ((rest.filter fun entry => keep entry.1).map Prod.fst) =
              isLast before entry.1 (rest.map Prod.fst) := by
            rw [isLast, isLast, decide_eq_decide, mem_filter_keys]
            simp [kept]
          rw [List.filter_cons_of_pos (by simpa using kept), changeAt_cons, last, ih,
            List.filter_cons_of_pos ?_]
          split <;> simp [kept]

theorem changeFirst_of_nodup (changes : List (κ × β)) (distinct : (entries.map Prod.fst).Nodup) :
    changeAt isFirst changes [] entries = updated changes entries :=
  changeAt_of_nodup (fun _ _ _ fresh _ => decide_eq_true fresh) changes distinct (by simp)

theorem changeLast_of_nodup (changes : List (κ × β)) (distinct : (entries.map Prod.fst).Nodup) :
    changeAt isLast changes [] entries = updated changes entries :=
  changeAt_of_nodup (fun _ _ _ _ fresh => decide_eq_true fresh) changes distinct (by simp)

end ChangeAt

section Put

variable {key : κ} {value : β} {changes entries : List (κ × β)}

theorem put_cons (entry : κ × β) (rest : List (κ × β)) :
    put key value (entry :: rest) =
      if entry.1 = key then (key, value) :: rest else entry :: put key value rest := rfl

theorem put_of_not_mem (fresh : key ∉ entries.map Prod.fst) :
    put key value entries = entries ++ [(key, value)] := by
  induction entries with
  | nil => rfl
  | cons entry rest ih =>
      rw [List.map_cons, List.mem_cons, not_or] at fresh
      rw [put_cons, if_neg (Ne.symm fresh.1), ih fresh.2, List.cons_append]

theorem put_eq_changeAt {before : List κ} (known : key ∈ entries.map Prod.fst)
    (unseen : key ∉ before) :
    put key value entries = changeAt isFirst [(key, value)] before entries := by
  induction entries generalizing before with
  | nil => simp at known
  | cons entry rest ih =>
      rw [put_cons, changeAt_cons]
      by_cases same : entry.1 = key
      · have others : changeAt isFirst [(key, value)] (entry.1 :: before) rest = rest := by
          refine changeAt_eq_self fun other _ => ?_
          by_cases again : other.1 = key
          · exact Or.inr fun more _ => by simp [isFirst, same, again]
          · exact Or.inl (by simp [lastValue_cons, Ne.symm again])
        have picked : isFirst before entry.1 (rest.map Prod.fst) = true :=
          decide_eq_true (same ▸ unseen)
        rw [others, if_pos same, if_pos picked, same]
        simp [lastValue_cons]
      · have later : key ∈ rest.map Prod.fst := by
          rw [List.map_cons, List.mem_cons] at known
          exact known.resolve_left (Ne.symm same)
        have fresh : key ∉ entry.1 :: before := by simp [unseen, Ne.symm same]
        rw [if_neg same, ih later fresh, lastValue_cons_of_ne (Ne.symm same)]
        exact congrArg (· :: _) (ite_self entry).symm

theorem put_of_mem (distinct : (entries.map Prod.fst).Nodup) (known : key ∈ entries.map Prod.fst) :
    put key value entries = updated [(key, value)] entries := by
  rw [put_eq_changeAt known List.not_mem_nil, changeFirst_of_nodup _ distinct]

theorem mem_put_keys {other : κ} :
    other ∈ (put key value entries).map Prod.fst ↔
      key = other ∨ other ∈ entries.map Prod.fst := by
  by_cases known : key ∈ entries.map Prod.fst
  · rw [put_eq_changeAt known List.not_mem_nil, changeAt_keys]
    exact ⟨Or.inr, fun either => either.elim (fun same => same ▸ known) id⟩
  · rw [put_of_not_mem known, List.map_append, List.mem_append, or_comm]
    simp [eq_comm]

theorem put_keys_nodup (distinct : (entries.map Prod.fst).Nodup) :
    ((put key value entries).map Prod.fst).Nodup := by
  by_cases known : key ∈ entries.map Prod.fst
  · rw [put_of_mem distinct known, updated_keys]
    exact distinct
  · rw [put_of_not_mem known, List.map_append, List.map_cons, List.map_nil, ← List.concat_eq_append]
    exact distinct.concat known

theorem puts_nil (entries : List (κ × β)) : puts [] entries = entries := rfl

theorem puts_cons (change : κ × β) (changes entries : List (κ × β)) :
    puts (change :: changes) entries = puts changes (put change.1 change.2 entries) := rfl

theorem puts_keys_nodup (changes : List (κ × β)) (distinct : (entries.map Prod.fst).Nodup) :
    ((puts changes entries).map Prod.fst).Nodup := by
  induction changes generalizing entries with
  | nil => exact distinct
  | cons change rest ih => exact ih (put_keys_nodup distinct)

theorem freshEntries_congr {others : List (κ × β)}
    (same : entries.map Prod.fst = others.map Prod.fst) :
    freshEntries changes entries = freshEntries changes others := by
  rw [freshEntries, freshEntries, freshKeys, freshKeys, same]

theorem freshEntries_cons_of_mem (change : κ × β)
    (known : change.1 ∈ entries.map Prod.fst) :
    freshEntries (change :: changes) entries = freshEntries changes entries := by
  have keys : freshKeys (change :: changes) entries = freshKeys changes entries := by
    simp only [freshKeys, List.map_cons]
    rw [List.filter_cons_of_neg (by simpa using known)]
  unfold freshEntries
  rw [keys]
  refine List.filterMap_congr fun key member => ?_
  have fresh : key ∉ entries.map Prod.fst := by
    have filtered := List.mem_eraseDups.mp member
    simpa using (List.mem_filter.mp filtered).2
  have other : change.1 ≠ key := fun same => fresh (same ▸ known)
  rw [lastValue_cons_of_ne other]

theorem freshEntries_cons_of_not_mem (change : κ × β)
    (fresh : change.1 ∉ entries.map Prod.fst) :
    freshEntries (change :: changes) entries =
      (change.1, (lastValue change.1 changes).getD change.2) ::
        freshEntries changes (entries ++ [change]) := by
  have keys : freshKeys (change :: changes) entries =
      change.1 :: freshKeys changes (entries ++ [change]) := by
    simp only [freshKeys, List.map_cons]
    rw [List.filter_cons_of_pos (by simpa using fresh), List.eraseDups_cons, List.filter_filter]
    congr 2
    refine List.filter_congr fun key _ => ?_
    rw [Bool.eq_iff_iff]
    simp [List.map_append, not_or, and_comm]
  unfold freshEntries
  rw [keys, List.filterMap_cons]
  have value : lastValue change.1 (change :: changes) =
      some ((lastValue change.1 changes).getD change.2) := by
    rw [lastValue_cons, if_pos rfl]
    cases lastValue change.1 changes with
    | none => rfl
    | some value => rfl
  rw [value]
  simp only [Option.map_some]
  congr 1
  refine List.filterMap_congr fun key member => ?_
  have other : change.1 ≠ key := by
    have filtered := List.mem_eraseDups.mp member
    have unlisted := (List.mem_filter.mp filtered).2
    intro same
    simp [← same] at unlisted
  rw [lastValue_cons_of_ne other]

theorem puts_eq_changeAt (changes entries : List (κ × β)) :
    puts changes entries = changeAt isFirst changes [] entries ++ freshEntries changes entries := by
  induction changes generalizing entries with
  | nil =>
      rw [changeAt_eq_self fun entry _ => Or.inl rfl]
      simp [puts_nil, freshEntries, freshKeys]
  | cons change rest ih =>
      rw [puts_cons, ih]
      by_cases known : change.1 ∈ entries.map Prod.fst
      · rw [put_eq_changeAt known List.not_mem_nil, changeAt_changeAt,
          freshEntries_cons_of_mem change known, freshEntries_congr (changeAt_keys _ _ _ entries),
          List.singleton_append]
      · have first : isFirst (entries.map Prod.fst).reverse change.1 [] = true := by
          simpa [isFirst] using known
        rw [put_of_not_mem known, changeFirst_append, freshEntries_cons_of_not_mem change known,
          changeAt_cons_of_not_mem known, List.append_assoc, List.append_nil]
        simp [changeAt, first]

theorem puts_eq (changes : List (κ × β)) (distinct : (entries.map Prod.fst).Nodup) :
    puts changes entries = updated changes entries ++ freshEntries changes entries := by
  rw [puts_eq_changeAt, changeFirst_of_nodup changes distinct]

theorem lastValue_of_mem_freshEntries {entry : κ × β}
    (fresh : entry ∈ freshEntries changes entries) : lastValue entry.1 changes = some entry.2 := by
  obtain ⟨key, _, given⟩ := List.mem_filterMap.mp fresh
  obtain ⟨value, found, rfl⟩ := Option.map_eq_some_iff.mp given
  exact found

theorem puts_eq_changeAt_all (changes entries : List (κ × β)) :
    puts changes entries =
      changeAt isFirst changes [] (entries ++ freshEntries changes entries) := by
  have settled : changeAt isFirst changes ((entries.map Prod.fst).reverse ++ [])
      (freshEntries changes entries) = freshEntries changes entries := by
    refine changeAt_eq_self fun entry fresh => Or.inl ?_
    rw [lastValue_of_mem_freshEntries fresh]
    rfl
  rw [changeFirst_append, settled, puts_eq_changeAt]

theorem lastValue_put (distinct : (entries.map Prod.fst).Nodup) (other : κ) :
    lastValue other (put key value entries) =
      if key = other then some value else lastValue other entries := by
  by_cases known : key ∈ entries.map Prod.fst
  · obtain ⟨old, found⟩ := Option.ne_none_iff_exists'.mp
      (fun missing => lastValue_eq_none_iff.mp missing known)
    rw [put_of_mem distinct known, lastValue_updated]
    by_cases same : key = other
    · subst same
      simp [found, lastValue_cons]
    · simp [same, lastValue_cons]
  · rw [put_of_not_mem known, lastValue_append]
    by_cases same : key = other
    · simp [same, lastValue_cons]
    · simp [same, lastValue_cons]

theorem lastValue_puts (changes : List (κ × β)) (distinct : (entries.map Prod.fst).Nodup)
    (key : κ) :
    lastValue key (puts changes entries) = (lastValue key changes).or (lastValue key entries) := by
  induction changes generalizing entries with
  | nil => simp [puts_nil]
  | cons change rest ih =>
      rw [puts_cons, ih (put_keys_nodup distinct), lastValue_put distinct, lastValue_cons]
      by_cases same : change.1 = key
      · simp [same]
      · simp [same]

theorem mem_puts_keys (changes : List (κ × β)) :
    key ∈ (puts changes entries).map Prod.fst ↔
      key ∈ changes.map Prod.fst ∨ key ∈ entries.map Prod.fst := by
  induction changes generalizing entries with
  | nil => simp [puts_nil]
  | cons change rest ih =>
      rw [puts_cons, ih, mem_put_keys, List.map_cons, List.mem_cons, or_left_comm, or_assoc,
        eq_comm]

theorem filter_put {keep : κ → Bool} (touched : keep key = false) :
    (put key value entries).filter (fun entry => keep entry.1) =
      entries.filter fun entry => keep entry.1 := by
  induction entries with
  | nil => simp [put, touched]
  | cons entry rest ih =>
      rw [put_cons]
      split
      · rename_i same
        simp [same, touched]
      · rw [List.filter_cons, List.filter_cons, ih]

theorem filter_puts (keep : κ → Bool) (changes : List (κ × β))
    (untouched : ∀ key ∈ changes.map Prod.fst, keep key = false) :
    (puts changes entries).filter (fun entry => keep entry.1) =
      entries.filter fun entry => keep entry.1 := by
  induction changes generalizing entries with
  | nil => rfl
  | cons change rest ih =>
      rw [puts_cons, ih fun key member => untouched key (List.mem_cons_of_mem _ member)]
      exact filter_put (untouched change.1 List.mem_cons_self)

end Put

section Overwrite

def overwrite (known : κ → Option Nat) (entries : List (κ × β)) (change : κ × β) :
    List (κ × β) :=
  match known change.1 with
  | some index => entries.set index change
  | none => entries ++ [change]

structure Locates (known : κ → Option Nat) (keys : List κ) : Prop where
  found : ∀ key ∈ keys, ∃ index, known key = some index ∧ keys[index]? = some key ∧
    key ∉ keys.drop (index + 1)
  missing : ∀ key ∉ keys, known key = none

variable {known : κ → Option Nat} {base : List (κ × β)}

theorem set_eq_changeAt {change : κ × β} {index : Nat} {before : List κ}
    (located : (base.map Prod.fst)[index]? = some change.1)
    (last : change.1 ∉ (base.map Prod.fst).drop (index + 1)) :
    base.set index change = changeAt isLast [change] before base := by
  induction base generalizing index before with
  | nil => simp at located
  | cons entry rest ih =>
      cases index with
      | zero =>
          have same : entry.1 = change.1 := by simpa using located
          have unique : change.1 ∉ rest.map Prod.fst := by simpa using last
          have picked : isLast before entry.1 (rest.map Prod.fst) = true :=
            decide_eq_true (same ▸ unique)
          have others : changeAt isLast [change] (entry.1 :: before) rest = rest := by
            refine changeAt_eq_self fun other member => Or.inl ?_
            have different : change.1 ≠ other.1 :=
              fun again => unique (again ▸ List.mem_map_of_mem member)
            rw [lastValue_cons_of_ne different, lastValue_nil, Option.getD_none]
          rw [List.set_cons_zero, changeAt_cons, if_pos picked, others, same]
          simp [lastValue_cons]
      | succ index =>
          have later : (rest.map Prod.fst)[index]? = some change.1 := by simpa using located
          have kept : (if isLast before entry.1 (rest.map Prod.fst) = true then
              (entry.1, (lastValue entry.1 [change]).getD entry.2) else entry) = entry := by
            by_cases same : entry.1 = change.1
            · have skipped : isLast before entry.1 (rest.map Prod.fst) = false :=
                decide_eq_false (not_not_intro (same ▸ List.mem_of_getElem? later))
              rw [skipped, if_neg Bool.false_ne_true]
            · rw [lastValue_cons_of_ne (Ne.symm same)]
              exact ite_self entry
          rw [List.set_cons_succ, changeAt_cons, kept, ih later (by simpa using last)]

theorem foldl_overwrite (changes extra : List (κ × β))
    (locates : Locates known (base.map Prod.fst)) :
    changes.foldl (overwrite known) (base ++ extra) = changeAt isLast changes [] base ++
      (extra ++ changes.filter fun change => change.1 ∉ base.map Prod.fst) := by
  induction changes generalizing base extra with
  | nil =>
      rw [changeAt_eq_self fun entry _ => Or.inl rfl]
      simp
  | cons change rest ih =>
      rw [List.foldl_cons, overwrite]
      by_cases old : change.1 ∈ base.map Prod.fst
      · obtain ⟨index, position, located, last⟩ := locates.found change.1 old
        have inside : index < base.length := by
          have bound := (List.getElem?_eq_some_iff.mp located).1
          rwa [List.length_map] at bound
        have keys : (changeAt isLast [change] [] base).map Prod.fst = base.map Prod.fst :=
          changeAt_keys _ _ _ base
        rw [position]
        dsimp only
        rw [List.set_append_left index change inside, set_eq_changeAt located last,
          ih extra (keys ▸ locates), changeAt_changeAt, keys,
          List.filter_cons_of_neg (by simpa using old), List.singleton_append]
      · rw [locates.missing change.1 old]
        dsimp only
        rw [List.append_assoc, ih _ locates, changeAt_cons_of_not_mem old,
          List.filter_cons_of_pos (by simpa using old), List.append_assoc, List.singleton_append]

theorem Locates.placed {keys : List κ} {key : κ} {index : Nat} (locates : Locates known keys)
    (position : known key = some index) : keys[index]? = some key := by
  by_cases old : key ∈ keys
  · obtain ⟨other, same, placed, _⟩ := locates.found key old
    rw [position] at same
    rwa [Option.some.inj same]
  · rw [locates.missing key old] at position
    contradiction

omit [DecidableEq κ] in
theorem filter_set (keep : κ → Bool) {entries : List (κ × β)} {change : κ × β} {index : Nat}
    (placed : (entries.map Prod.fst)[index]? = some change.1) (touched : keep change.1 = false) :
    (entries.set index change).filter (fun entry => keep entry.1) =
      entries.filter fun entry => keep entry.1 := by
  induction entries generalizing index with
  | nil => rfl
  | cons entry rest ih =>
      cases index with
      | zero =>
          have same : entry.1 = change.1 := by simpa using placed
          simp [same, touched]
      | succ index =>
          rw [List.set_cons_succ, List.filter_cons, List.filter_cons,
            ih (by simpa using placed)]

omit [DecidableEq κ] in
theorem filter_foldl_overwrite (keep : κ → Bool) (changes : List (κ × β))
    {entries : List (κ × β)}
    (placed : ∀ key index, known key = some index → (entries.map Prod.fst)[index]? = some key)
    (untouched : ∀ key ∈ changes.map Prod.fst, keep key = false) :
    (changes.foldl (overwrite known) entries).filter (fun entry => keep entry.1) =
      entries.filter fun entry => keep entry.1 := by
  induction changes generalizing entries with
  | nil => rfl
  | cons change rest ih =>
      have touched := untouched change.1 List.mem_cons_self
      have later : ∀ key ∈ rest.map Prod.fst, keep key = false :=
        fun key member => untouched key (List.mem_cons_of_mem _ member)
      rw [List.foldl_cons, overwrite]
      cases position : known change.1 with
      | none =>
          dsimp only
          rw [ih _ later, List.filter_append]
          · simp [touched]
          · intro key index found
            have inside := (List.getElem?_eq_some_iff.mp (placed key index found)).1
            rw [List.map_append, List.getElem?_append_left inside, placed key index found]
      | some spot =>
          have here := placed change.1 spot position
          have keys : (entries.set spot change).map Prod.fst = entries.map Prod.fst := by
            obtain ⟨inside, same⟩ := List.getElem?_eq_some_iff.mp here
            rw [List.map_set, ← same, List.set_getElem_self]
          dsimp only
          rw [ih (by rwa [keys]) later, filter_set keep here touched]

end Overwrite

/-- A map: one entry for each of its keys, and the last one inserted counts. -/
structure Table (κ β : Type) where
  entries : List (κ × β)
  distinct : (entries.map Prod.fst).Nodup

namespace Table

def keys {κ : Type} (table : Table κ β) : List κ := table.entries.map Prod.fst

def empty {κ : Type} : Table κ β := ⟨[], List.nodup_nil⟩

def find (table : Table κ β) (key : κ) : Option β := lastValue key table.entries

def insert (table : Table κ β) (key : κ) (value : β) : Table κ β :=
  ⟨put key value table.entries, put_keys_nodup table.distinct⟩

def alter (table : Table κ β) (key : κ) (change : Option β → β) : Table κ β :=
  table.insert key (change (table.find key))

theorem find_eq_some_iff {table : Table κ β} {key : κ} {value : β} :
    table.find key = some value ↔ (key, value) ∈ table.entries := by
  refine ⟨mem_of_lastValue, fun stored => ?_⟩
  have known : key ∈ table.entries.map Prod.fst := List.mem_map_of_mem (f := Prod.fst) stored
  cases found : table.find key with
  | none => exact absurd known (lastValue_eq_none_iff.mp found)
  | some other =>
      have entry := mem_of_lastValue found
      rw [(Prod.mk.inj (List.inj_on_of_nodup_map table.distinct entry stored rfl)).2]

theorem mem_keys_iff {table : Table κ β} {key : κ} :
    key ∈ table.keys ↔ ∃ value, table.find key = some value := by
  rw [← Option.ne_none_iff_exists', ne_eq, find, lastValue_eq_none_iff, not_not, keys]

theorem find_insert (table : Table κ β) (key other : κ) (value : β) :
    (table.insert key value).find other = if key = other then some value else table.find other :=
  lastValue_put table.distinct other

theorem length_insert_le (table : Table κ β) (key : κ) (value : β) :
    (table.insert key value).entries.length ≤ table.entries.length + 1 := by
  change (put key value table.entries).length ≤ _
  by_cases known : key ∈ table.entries.map Prod.fst
  · rw [put_of_mem table.distinct known, updated, List.length_map]
    omega
  · rw [put_of_not_mem known, List.length_append]
    exact Nat.le_refl _

theorem find_alter (table : Table κ β) (key other : κ) (change : Option β → β) :
    (table.alter key change).find other =
      if key = other then some (change (table.find key)) else table.find other :=
  find_insert table key other _

theorem find_foldl_alter {γ : Type} (keyOf : γ → κ) (change : γ → Option β → β) (items : List γ)
    (table : Table κ β) (key : κ) :
    (items.foldl (fun table item => table.alter (keyOf item) (change item)) table).find key =
      (items.filter fun item => keyOf item = key).foldl
        (fun old item => some (change item old)) (table.find key) := by
  induction items generalizing table with
  | nil => rfl
  | cons item rest ih =>
      rw [List.foldl_cons, ih, find_alter]
      by_cases same : keyOf item = key
      · rw [if_pos same, List.filter_cons_of_pos (by simpa using same), List.foldl_cons, same]
      · rw [if_neg same, List.filter_cons_of_neg (by simpa using same)]

theorem find_foldl_alter_within {γ : Type} (keyOf : γ → κ) (change : γ → Option β → β)
    (items : List γ) (start : Option (Table κ β)) (key : κ) :
    ((items.foldl (fun old item => some ((old.getD empty).alter (keyOf item) (change item)))
        start).bind fun table => table.find key) =
      (items.filter fun item => keyOf item = key).foldl (fun old item => some (change item old))
        (start.bind fun table => table.find key) := by
  induction items generalizing start with
  | nil => rfl
  | cons item rest ih =>
      have opened : (start.getD empty).find key = start.bind fun table => table.find key := by
        cases start <;> rfl
      rw [List.foldl_cons, ih, Option.bind_some, find_alter]
      by_cases same : keyOf item = key
      · rw [if_pos same, List.filter_cons_of_pos (by simpa using same), List.foldl_cons, same,
          opened]
      · rw [if_neg same, List.filter_cons_of_neg (by simpa using same), opened]

section InOrder

variable {κ : Type} [LinearOrder κ]

def inOrder (table : Table κ β) : List (κ × β) :=
  table.entries.mergeSort fun a b => a.1 ≤ b.1

theorem inOrder_perm (table : Table κ β) : table.inOrder.Perm table.entries :=
  List.mergeSort_perm _ _

theorem mem_inOrder {table : Table κ β} {entry : κ × β} :
    entry ∈ table.inOrder ↔ table.find entry.1 = some entry.2 :=
  table.inOrder_perm.mem_iff.trans find_eq_some_iff.symm

theorem filter_inOrder (table : Table κ β) (key : κ) :
    table.inOrder.filter (fun entry => entry.1 = key) = (table.find key).toList.map (key, ·) := by
  have distinct : table.inOrder.Nodup :=
    table.inOrder_perm.nodup_iff.mpr (List.Nodup.of_map Prod.fst table.distinct)
  cases found : table.find key with
  | none =>
      refine List.filter_eq_nil_iff.mpr fun entry stored same => ?_
      rw [mem_inOrder, of_decide_eq_true same, found] at stored
      contradiction
  | some value =>
      refine List.perm_singleton.mp ((List.perm_ext_iff_of_nodup (distinct.filter _)
        (List.nodup_singleton _)).mpr fun entry => ?_)
      rw [List.mem_filter, mem_inOrder, decide_eq_true_eq, List.mem_singleton]
      constructor
      · rintro ⟨stored, rfl⟩
        rw [found] at stored
        exact Prod.ext rfl (Option.some.inj stored).symm
      · rintro rfl
        exact ⟨found, rfl⟩

theorem inOrder_sorted (table : Table κ β) :
    table.inOrder.Pairwise fun a b => a.1 < b.1 := by
  have trans (a b c : κ × β) : decide (a.1 ≤ b.1) = true → decide (b.1 ≤ c.1) = true →
      decide (a.1 ≤ c.1) = true := by
    simp only [decide_eq_true_eq]
    exact le_trans
  have total (a b : κ × β) : (decide (a.1 ≤ b.1) || decide (b.1 ≤ a.1)) = true := by
    simpa using le_total a.1 b.1
  have ascending := List.pairwise_mergeSort trans total table.entries
  simp only [decide_eq_true_eq] at ascending
  have distinct : (table.inOrder.map Prod.fst).Nodup :=
    (table.inOrder_perm.map Prod.fst).nodup_iff.mpr table.distinct
  refine (ascending.and (List.pairwise_map.mp distinct)).imp fun both => ?_
  exact lt_of_le_of_ne both.1 both.2

end InOrder

end Table

end LeanKeyed
