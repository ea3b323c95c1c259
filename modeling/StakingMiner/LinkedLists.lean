import StakingMiner.KeyedLists

/-!
Linked lists whose links are not trusted. Links are followed until there is none, or a key
that was visited before or is not stored, and several lists share one set of visited keys.
-/

namespace LeanLinked

open LeanKeyed

variable {κ ν : Type} (find : κ → Option ν) (next : ν → Option κ)

/-- From the visited keys and a start: the nodes found, and the keys visited afterwards. A
key counts as visited whether or not it is stored. -/
inductive Follows : List κ → Option κ → List (κ × ν) → List κ → Prop
  | stop {visited} : Follows visited none [] visited
  | again {visited key} (old : key ∈ visited) : Follows visited (some key) [] visited
  | dangling {visited key} (fresh : key ∉ visited) (missing : find key = none) :
      Follows visited (some key) [] (key :: visited)
  | node {visited key node rest after} (fresh : key ∉ visited) (found : find key = some node)
      (onward : Follows (key :: visited) (next node) rest after) :
      Follows visited (some key) ((key, node) :: rest) after

inductive FollowsAll : List κ → List (Option κ) → List (κ × ν) → List κ → Prop
  | nil {visited} : FollowsAll visited [] [] visited
  | cons {visited head out between heads rest after}
      (first : Follows find next visited head out between)
      (others : FollowsAll between heads rest after) :
      FollowsAll visited (head :: heads) (out ++ rest) after

inductive Reached (heads : List (Option κ)) : κ → Prop
  | head {key} (head : some key ∈ heads) : Reached heads key
  | link {key node linked} (reached : Reached heads key) (found : find key = some node)
      (link : next node = some linked) : Reached heads linked

/-- A list that is stored as a whole, from its start to a node without a link. -/
inductive Complete : Option κ → List (κ × ν) → Prop
  | nil : Complete none []
  | cons {key node rest} (found : find key = some node) (onward : Complete (next node) rest) :
      Complete (some key) ((key, node) :: rest)

variable {find next} {visited after : List κ} {start : Option κ} {heads : List (Option κ)}
  {out : List (κ × ν)}

section Follows

theorem Follows.deterministic {out' : List (κ × ν)} {after' : List κ}
    (one : Follows find next visited start out after)
    (other : Follows find next visited start out' after') : out = out' ∧ after = after' := by
  induction one generalizing out' after' with
  | stop =>
      cases other
      exact ⟨rfl, rfl⟩
  | again old =>
      cases other with
      | again _ => exact ⟨rfl, rfl⟩
      | dangling fresh _ => exact absurd old fresh
      | node fresh _ _ => exact absurd old fresh
  | dangling fresh missing =>
      cases other with
      | again old => exact absurd old fresh
      | dangling _ _ => exact ⟨rfl, rfl⟩
      | node _ found _ => exact absurd (missing.symm.trans found) (by simp)
  | node fresh found _ ih =>
      cases other with
      | again old => exact absurd old fresh
      | dangling _ missing => exact absurd (missing.symm.trans found) (by simp)
      | node _ found' onward =>
          obtain rfl : _ = _ := Option.some.inj (found.symm.trans found')
          obtain ⟨rfl, rfl⟩ := ih onward
          exact ⟨rfl, rfl⟩

theorem Follows.visits (follows : Follows find next visited start out after) :
    visited ⊆ after ∧ out.map Prod.fst ⊆ after := by
  induction follows with
  | stop | again _ => simp
  | dangling _ _ => exact ⟨List.subset_cons_self _ _, by simp⟩
  | node _ _ _ ih =>
      refine ⟨fun key member => ih.1 (List.mem_cons_of_mem _ member), ?_⟩
      rw [List.map_cons, List.cons_subset]
      exact ⟨ih.1 List.mem_cons_self, ih.2⟩

theorem Follows.fresh (follows : Follows find next visited start out after) :
    (out.map Prod.fst).Nodup ∧ ∀ key ∈ out.map Prod.fst, key ∉ visited := by
  induction follows with
  | stop | again _ | dangling _ _ => simp
  | node fresh _ _ ih =>
      obtain ⟨distinct, unvisited⟩ := ih
      rw [List.map_cons]
      refine ⟨List.nodup_cons.mpr ⟨fun repeated => ?_, distinct⟩, ?_⟩
      · exact unvisited _ repeated List.mem_cons_self
      · rintro key (_ | ⟨_, later⟩)
        · exact fresh
        · exact fun old => unvisited key later (List.mem_cons_of_mem _ old)

theorem Follows.stored (follows : Follows find next visited start out after) :
    ∀ entry ∈ out, find entry.1 = some entry.2 := by
  induction follows with
  | stop | again _ | dangling _ _ => simp
  | node _ found _ ih => exact List.forall_mem_cons.mpr ⟨found, ih⟩

theorem Follows.reached (follows : Follows find next visited start out after)
    (known : ∀ key, start = some key → Reached find next heads key) :
    ∀ entry ∈ out, Reached find next heads entry.1 := by
  induction follows with
  | stop | again _ | dangling _ _ => simp
  | node _ found _ ih =>
      have here := known _ rfl
      exact List.forall_mem_cons.mpr ⟨here, ih fun key link => here.link found link⟩

/-- Each node found uses up a stored key, so with finitely many keys every walk ends. -/
theorem exists_follows [DecidableEq κ] {keys : List κ}
    (finite : ∀ key node, find key = some node → key ∈ keys) (visited : List κ)
    (start : Option κ) : ∃ out after, Follows find next visited start out after := by
  generalize size : (keys.filter fun key => key ∉ visited).length = count
  induction count using Nat.strongRecOn generalizing visited start with
  | ind count ih =>
      cases start with
      | none => exact ⟨[], visited, .stop⟩
      | some key =>
          by_cases old : key ∈ visited
          · exact ⟨[], visited, .again old⟩
          cases found : find key with
          | none => exact ⟨[], key :: visited, .dangling old found⟩
          | some node =>
              have fewer := length_filter_not_mem_cons_lt (finite key node found) old
              rw [size] at fewer
              obtain ⟨rest, after, onward⟩ := ih _ fewer (key :: visited) (next node) rfl
              exact ⟨(key, node) :: rest, after, .node old found onward⟩

end Follows

section FollowsAll

theorem FollowsAll.deterministic {out' : List (κ × ν)} {after' : List κ}
    (one : FollowsAll find next visited heads out after)
    (other : FollowsAll find next visited heads out' after') : out = out' ∧ after = after' := by
  induction one generalizing out' after' with
  | nil =>
      cases other
      exact ⟨rfl, rfl⟩
  | cons first _ ih =>
      cases other with
      | cons first' others =>
          obtain ⟨rfl, rfl⟩ := first.deterministic first'
          obtain ⟨rfl, rfl⟩ := ih others
          exact ⟨rfl, rfl⟩

theorem FollowsAll.fresh (follows : FollowsAll find next visited heads out after) :
    (out.map Prod.fst).Nodup ∧ ∀ key ∈ out.map Prod.fst, key ∉ visited := by
  induction follows with
  | nil => simp
  | cons first _ ih =>
      obtain ⟨distinct, unvisited⟩ := first.fresh
      obtain ⟨restDistinct, restUnvisited⟩ := ih
      obtain ⟨kept, added⟩ := first.visits
      rw [List.map_append]
      refine ⟨List.nodup_append.mpr ⟨distinct, restDistinct, ?_⟩, fun key member => ?_⟩
      · rintro key member _ later rfl
        exact restUnvisited key later (added member)
      · rcases List.mem_append.mp member with member | later
        · exact unvisited key member
        · exact fun old => restUnvisited key later (kept old)

theorem FollowsAll.stored (follows : FollowsAll find next visited heads out after) :
    ∀ entry ∈ out, find entry.1 = some entry.2 := by
  induction follows with
  | nil => simp
  | cons first _ ih => exact List.forall_mem_append.mpr ⟨first.stored, ih⟩

theorem FollowsAll.reached {all : List (Option κ)}
    (follows : FollowsAll find next visited heads out after) (known : heads ⊆ all) :
    ∀ entry ∈ out, Reached find next all entry.1 := by
  induction follows with
  | nil => simp
  | cons first _ ih =>
      rw [List.cons_subset] at known
      refine List.forall_mem_append.mpr ⟨first.reached fun key head => ?_, ih known.2⟩
      exact .head (head ▸ known.1)

theorem FollowsAll.length_le {keys : List κ}
    (finite : ∀ key node, find key = some node → key ∈ keys)
    (follows : FollowsAll find next visited heads out after) : out.length ≤ keys.length := by
  have within : out.map Prod.fst ⊆ keys := by
    intro key member
    obtain ⟨entry, listed, rfl⟩ := List.mem_map.mp member
    exact finite entry.1 entry.2 (follows.stored entry listed)
  simpa using follows.fresh.1.length_le_of_subset within

theorem exists_followsAll [DecidableEq κ] {keys : List κ}
    (finite : ∀ key node, find key = some node → key ∈ keys) (visited : List κ)
    (heads : List (Option κ)) : ∃ out after, FollowsAll find next visited heads out after := by
  induction heads generalizing visited with
  | nil => exact ⟨[], visited, .nil⟩
  | cons head rest ih =>
      obtain ⟨out, between, first⟩ := exists_follows finite visited head
      obtain ⟨more, after, others⟩ := ih between
      exact ⟨out ++ more, after, .cons first others⟩

end FollowsAll

section Complete

theorem Complete.deterministic {out' : List (κ × ν)} (one : Complete find next start out)
    (other : Complete find next start out') : out = out' := by
  induction one generalizing out' with
  | nil =>
      cases other
      rfl
  | cons found _ ih =>
      cases other with
      | cons found' onward =>
          obtain rfl : _ = _ := Option.some.inj (found.symm.trans found')
          rw [ih onward]

theorem Complete.from_mem (complete : Complete find next start out) {entry : κ × ν}
    (member : entry ∈ out) :
    ∃ rest, Complete find next (some entry.1) (entry :: rest) ∧ rest.length < out.length := by
  induction complete with
  | nil => simp at member
  | cons found onward ih =>
      rcases List.mem_cons.mp member with rfl | later
      · exact ⟨_, .cons found onward, by simp⟩
      · obtain ⟨rest, complete, shorter⟩ := ih later
        exact ⟨rest, complete, by simp; omega⟩

theorem Complete.nodup (complete : Complete find next start out) : (out.map Prod.fst).Nodup := by
  induction complete with
  | nil => simp
  | cons found onward ih =>
      rw [List.map_cons]
      refine List.nodup_cons.mpr ⟨fun repeated => ?_, ih⟩
      obtain ⟨entry, member, same⟩ := List.mem_map.mp repeated
      obtain ⟨rest, again, shorter⟩ := onward.from_mem member
      rw [same] at again
      have whole := again.deterministic (.cons found onward)
      have lengths := congrArg List.length whole
      simp only [List.length_cons] at lengths
      omega

theorem Complete.follows (complete : Complete find next start out)
    (apart : ∀ key ∈ out.map Prod.fst, key ∉ visited) :
    ∃ after, Follows find next visited start out after ∧
      ∀ key ∈ after, key ∈ visited ∨ key ∈ out.map Prod.fst := by
  have distinct := complete.nodup
  induction complete generalizing visited with
  | nil => exact ⟨visited, .stop, fun key member => .inl member⟩
  | @cons key node rest found _ ih =>
      rw [List.map_cons] at apart distinct
      obtain ⟨alone, distinct⟩ := List.nodup_cons.mp distinct
      have fresh := apart key List.mem_cons_self
      have later : ∀ other ∈ rest.map Prod.fst, other ∉ key :: visited := by
        intro other member old
        rcases List.mem_cons.mp old with rfl | old
        · exact alone member
        · exact apart other (List.mem_cons_of_mem _ member) old
      obtain ⟨after, onward, bounded⟩ := ih later distinct
      refine ⟨after, .node fresh found onward, fun other member => ?_⟩
      rcases bounded other member with old | listed
      · rcases List.mem_cons.mp old with rfl | old
        · exact .inr List.mem_cons_self
        · exact .inl old
      · exact .inr (List.mem_cons_of_mem _ listed)

theorem followsAll_of_complete {ι : Type} {head : ι → Option κ} {lists : ι → List (κ × ν)}
    {order : List ι} (complete : ∀ i ∈ order, Complete find next (head i) (lists i))
    (apart : order.Pairwise fun i j => ∀ key ∈ (lists i).map Prod.fst, key ∉ (lists j).map Prod.fst)
    (unvisited : ∀ i ∈ order, ∀ key ∈ (lists i).map Prod.fst, key ∉ visited) :
    ∃ after, FollowsAll find next visited (order.map head) (order.flatMap lists) after := by
  induction order generalizing visited with
  | nil => exact ⟨visited, .nil⟩
  | cons first rest ih =>
      rw [List.forall_mem_cons] at complete unvisited
      obtain ⟨here, apart⟩ := List.pairwise_cons.mp apart
      obtain ⟨between, follows, bounded⟩ := complete.1.follows unvisited.1
      have later : ∀ i ∈ rest, ∀ key ∈ (lists i).map Prod.fst, key ∉ between := by
        intro i member key listed old
        rcases bounded key old with old | shared
        · exact unvisited.2 i member key listed old
        · exact here i member key shared listed
      obtain ⟨after, others⟩ := ih complete.2 apart later
      exact ⟨after, .cons follows others⟩

end Complete

end LeanLinked
