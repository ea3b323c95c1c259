import Mathlib.Data.List.Nodup

/-!
Parts of a list chosen by position. When the positions are ranked by a key and the last ones
are dropped, the items that stay keep their order and none that is dropped has a larger key.
-/

namespace LeanSelection

variable {α : Type}

def without (positions : List Nat) (items : List α) : List α :=
  (items.zipIdx.filter fun entry => entry.2 ∉ positions).map Prod.fst

def only (positions : List Nat) (items : List α) : List α :=
  (items.zipIdx.filter fun entry => entry.2 ∈ positions).map Prod.fst

variable {positions : List Nat} {items : List α} {item : α}

theorem without_sublist (positions : List Nat) (items : List α) :
    (without positions items).Sublist items := by
  have cut : (without positions items).Sublist (items.zipIdx.map Prod.fst) :=
    List.filter_sublist.map Prod.fst
  rwa [List.zipIdx_map_fst] at cut

theorem without_append_only_perm (positions : List Nat) (items : List α) :
    (without positions items ++ only positions items).Perm items := by
  have parts := (List.filter_append_perm (fun entry => decide (entry.2 ∉ positions))
    items.zipIdx).map Prod.fst
  rw [List.map_append, List.zipIdx_map_fst] at parts
  refine List.Perm.trans (List.Perm.of_eq ?_) parts
  unfold without only
  congr 2
  refine List.filter_congr fun entry _ => ?_
  simp

theorem mem_without : item ∈ without positions items ↔
    ∃ position, items[position]? = some item ∧ position ∉ positions := by
  simp only [without, List.mem_map, List.mem_filter, decide_eq_true_eq]
  constructor
  · rintro ⟨⟨_, position⟩, ⟨placed, kept⟩, rfl⟩
    exact ⟨position, List.mem_zipIdx_iff_getElem?.mp placed, kept⟩
  · rintro ⟨position, placed, kept⟩
    exact ⟨(item, position), ⟨List.mem_zipIdx_iff_getElem?.mpr placed, kept⟩, rfl⟩

theorem mem_only : item ∈ only positions items ↔
    ∃ position, items[position]? = some item ∧ position ∈ positions := by
  simp only [only, List.mem_map, List.mem_filter, decide_eq_true_eq]
  constructor
  · rintro ⟨⟨_, position⟩, ⟨placed, listed⟩, rfl⟩
    exact ⟨position, List.mem_zipIdx_iff_getElem?.mp placed, listed⟩
  · rintro ⟨position, placed, listed⟩
    exact ⟨(item, position), ⟨List.mem_zipIdx_iff_getElem?.mpr placed, listed⟩, rfl⟩

theorem length_only (distinct : positions.Nodup) (inside : ∀ i ∈ positions, i < items.length) :
    (only positions items).length = positions.length := by
  have indices : (items.zipIdx.filter fun entry => entry.2 ∈ positions).map Prod.snd =
      (List.range items.length).filter fun i => i ∈ positions := by
    rw [List.range_eq_range', ← List.zipIdx_map_snd, List.filter_map]
    rfl
  have same : ((List.range items.length).filter fun i => i ∈ positions).Perm positions := by
    refine (List.perm_ext_iff_of_nodup (List.nodup_range.filter _) distinct).mpr fun i => ?_
    simp only [List.mem_filter, List.mem_range, decide_eq_true_eq]
    exact ⟨fun both => both.2, fun member => ⟨inside i member, member⟩⟩
  calc (only positions items).length
      = ((items.zipIdx.filter fun entry => entry.2 ∈ positions).map Prod.snd).length := by
        simp [only]
    _ = positions.length := by rw [indices, same.length_eq]

section Ranking

/-- All positions of a list in descending order of a key. -/
structure Ranks (key : Nat → Nat) (count : Nat) (ranking : List Nat) : Prop where
  perm : ranking.Perm (List.range count)
  descending : (ranking.map key).Pairwise (· ≥ ·)

variable {key : Nat → Nat} {capacity : Nat} {ranking : List Nat}

theorem Ranks.dropped_le {count i j : Nat} (ranks : Ranks key count ranking) (inside : i < count)
    (kept : i ∉ ranking.drop capacity) (dropped : j ∈ ranking.drop capacity) :
    key j ≤ key i := by
  have listed : i ∈ ranking.take capacity ++ ranking.drop capacity := by
    rw [List.take_append_drop]
    exact ranks.perm.mem_iff.mpr (List.mem_range.mpr inside)
  have first : i ∈ ranking.take capacity := (List.mem_append.mp listed).resolve_right kept
  have sorted := List.pairwise_map.mp ranks.descending
  rw [← List.take_append_drop capacity ranking] at sorted
  exact (List.pairwise_append.mp sorted).2.2 i first j dropped

theorem Ranks.length_without (ranks : Ranks key items.length ranking) :
    (without (ranking.drop capacity) items).length = min items.length capacity := by
  have total := (without_append_only_perm (ranking.drop capacity) items).length_eq
  have inside : ∀ i ∈ ranking.drop capacity, i < items.length := fun i member =>
    List.mem_range.mp (ranks.perm.mem_iff.mp (List.mem_of_mem_drop member))
  have distinct : (ranking.drop capacity).Nodup :=
    (ranks.perm.nodup_iff.mpr List.nodup_range).sublist (List.drop_sublist capacity ranking)
  have lengths := ranks.perm.length_eq
  rw [List.length_append, length_only distinct inside, List.length_drop] at total
  rw [List.length_range] at lengths
  omega

theorem Ranks.only_le_without (ranks : Ranks key items.length ranking) {strong weak : α}
    (kept : strong ∈ without (ranking.drop capacity) items)
    (dropped : weak ∈ only (ranking.drop capacity) items) :
    ∃ i j, items[i]? = some strong ∧ items[j]? = some weak ∧ key j ≤ key i := by
  obtain ⟨i, strongAt, stays⟩ := mem_without.mp kept
  obtain ⟨j, weakAt, leaves⟩ := mem_only.mp dropped
  have inside := (List.getElem?_eq_some_iff.mp strongAt).1
  exact ⟨i, j, strongAt, weakAt, ranks.dropped_le inside stays leaves⟩

end Ranking

theorem pairwise_iff_getElem? {relates : α → α → Prop} {items : List α} :
    items.Pairwise relates ↔ ∀ (p q : Nat) (first second : α), p < q → items[p]? = some first →
      items[q]? = some second → relates first second := by
  rw [List.pairwise_iff_getElem]
  constructor
  · intro related p q first second before atP atQ
    obtain ⟨insideP, rfl⟩ := List.getElem?_eq_some_iff.mp atP
    obtain ⟨insideQ, rfl⟩ := List.getElem?_eq_some_iff.mp atQ
    exact related p q insideP insideQ before
  · intro related p q insideP insideQ before
    exact related p q _ _ before (List.getElem?_eq_getElem insideP)
      (List.getElem?_eq_getElem insideQ)

section Stable

theorem not_sublist_swap {a b : α} (distinct : items.Nodup) (first : [a, b].Sublist items) :
    ¬[b, a].Sublist items := by
  induction items with
  | nil => simp at first
  | cons head rest ih =>
      obtain ⟨fresh, distinct⟩ := List.nodup_cons.mp distinct
      intro second
      rcases List.sublist_cons_iff.mp first with later | ⟨_, same, behind⟩
      · rcases List.sublist_cons_iff.mp second with swapped | ⟨_, same, behind⟩
        · exact ih distinct later swapped
        · obtain ⟨rfl, rfl⟩ := List.cons.inj same
          exact fresh (later.subset (by simp))
      · obtain ⟨rfl, rfl⟩ := List.cons.inj same
        rcases List.sublist_cons_iff.mp second with swapped | ⟨_, same, _⟩
        · exact fresh (swapped.subset (by simp))
        · obtain ⟨rfl, rfl⟩ := List.cons.inj same
          exact fresh (behind.subset (by simp))

theorem sublist_or_swap {a b : α} (here : a ∈ items) (there : b ∈ items) (different : a ≠ b) :
    [a, b].Sublist items ∨ [b, a].Sublist items := by
  obtain ⟨front, back, rfl⟩ := List.append_of_mem here
  rcases List.mem_append.mp there with earlier | later
  · refine .inr (List.Sublist.append (List.singleton_sublist.mpr earlier) ?_)
    exact List.singleton_sublist.mpr List.mem_cons_self
  · have behind := (List.mem_cons.mp later).resolve_left different.symm
    refine .inl (List.Sublist.trans ?_ (List.sublist_append_right front _))
    exact (List.singleton_sublist.mpr behind).cons_cons a

theorem pairwise_mergeSort_descending {before : α → α → Prop} (key : α → Nat)
    (distinct : items.Nodup) (ordered : items.Pairwise before) :
    (items.mergeSort fun a b => key b ≤ key a).Pairwise fun a b =>
      key b < key a ∨ key a = key b ∧ before a b := by
  have trans (a b c : α) : decide (key b ≤ key a) = true → decide (key c ≤ key b) = true →
      decide (key c ≤ key a) = true := by
    simp only [decide_eq_true_eq]
    omega
  have total (a b : α) : (decide (key b ≤ key a) || decide (key a ≤ key b)) = true := by
    simp only [Bool.or_eq_true, decide_eq_true_eq]
    omega
  have perm := List.mergeSort_perm items fun a b => decide (key b ≤ key a)
  have sorted := List.pairwise_mergeSort trans total items
  rw [List.pairwise_iff_forall_sublist] at ordered sorted ⊢
  intro a b pair
  have descends : key b ≤ key a := by simpa using sorted pair
  by_cases tie : key a = key b
  · have sortedDistinct := perm.nodup_iff.mpr distinct
    have different : a ≠ b := by simpa using sortedDistinct.sublist pair
    have here := perm.mem_iff.mp (pair.subset (by simp : a ∈ [a, b]))
    have there := perm.mem_iff.mp (pair.subset (by simp : b ∈ [a, b]))
    rcases sublist_or_swap here there different with within | within
    · exact .inr ⟨tie, ordered within⟩
    · have stays := List.pair_sublist_mergeSort trans total (by simpa using Nat.le_of_eq tie) within
      exact absurd stays (not_sublist_swap sortedDistinct pair)
  · exact .inl (by omega)

theorem mem_take_iff_ahead {ahead : α → α → Prop} [DecidableRel ahead]
    (asymmetric : ∀ a b, ahead a b → ¬ahead b a) (ranked : items.Pairwise ahead) (count : Nat) :
    item ∈ items.take count ↔ item ∈ items ∧
      (items.filter fun other => ahead other item).length < count := by
  induction items generalizing count with
  | nil => simp
  | cons head rest ih =>
      obtain ⟨leads, ranked⟩ := List.pairwise_cons.mp ranked
      cases count with
      | zero => simp
      | succ count =>
          rw [List.take_succ_cons, List.mem_cons, List.mem_cons, ih ranked]
          by_cases same : item = head
          · subst same
            have none_ahead : (rest.filter fun other => decide (ahead other item)) = [] := by
              rw [List.filter_eq_nil_iff]
              intro other member
              simpa using asymmetric _ _ (leads other member)
            have irreflexive : ¬ahead item item := fun loop => asymmetric _ _ loop loop
            simp [irreflexive, none_ahead]
          · constructor
            · rintro (rfl | ⟨member, few⟩)
              · contradiction
              · refine ⟨.inr member, ?_⟩
                rw [List.filter_cons_of_pos (by simpa using leads item member), List.length_cons]
                omega
            · rintro ⟨rfl | member, few⟩
              · contradiction
              · rw [List.filter_cons_of_pos (by simpa using leads item member),
                  List.length_cons] at few
                exact .inr ⟨member, by omega⟩

end Stable

end LeanSelection
