import StakingMiner.LinkedLists
import StakingMiner.StakingCore

/-!
The walk through the bags. Without a limit it gives the bag order of the voters, whatever
the links are; the limit only decides how much of that order is taken.
-/

namespace LeanStakingMiner

open LeanKeyed LeanLinked

section Heads

variable {Account : Type} {bags : Table Nat (ListBag Account)}

def voterOf (entry : Account × VoterNode Account) : Account × Nat :=
  (entry.2.id, entry.2.score)

def headOf (bags : Table Nat (ListBag Account)) (bagUpper : Nat) :
    Option Account :=
  (bags.find bagUpper).bind ListBag.head

def bagHeads (bags : Table Nat (ListBag Account)) : List (Option Account) :=
  (sortedBagKeys bags).map (headOf bags)

theorem sortedBagKeys_perm (bags : Table Nat (ListBag Account)) :
    (sortedBagKeys bags).Perm bags.keys :=
  List.mergeSort_perm _ _

theorem sortedBagKeys_sorted (bags : Table Nat (ListBag Account)) :
    (sortedBagKeys bags).Pairwise (· ≥ ·) := by
  have sorted : (sortedBagKeys bags).Pairwise fun a b => decide (b ≤ a) = true :=
    List.pairwise_mergeSort (by simp; omega) (by simp; omega) bags.keys
  simpa using sorted

theorem eq_sortedBagKeys {bagUppers : List Nat} (all : bagUppers.Perm bags.keys)
    (descending : bagUppers.Pairwise (· > ·)) : bagUppers = sortedBagKeys bags := by
  have weakly : bagUppers.Pairwise (· ≥ ·) := descending.imp Nat.le_of_lt
  have antisymm (a b : Nat) (_ : a ∈ bagUppers) (_ : b ∈ sortedBagKeys bags) (first : a ≥ b)
      (second : b ≥ a) : a = b := by omega
  exact (all.trans (sortedBagKeys_perm bags).symm).eq_of_pairwise antisymm weakly
    (sortedBagKeys_sorted bags)

theorem headOf_stored {bagUpper : Nat} (listed : bagUpper ∈ sortedBagKeys bags) :
    ∃ bag, (bagUpper, bag) ∈ bags.entries ∧ headOf bags bagUpper = bag.head := by
  obtain ⟨bag, stored⟩ := Table.mem_keys_iff.mp ((sortedBagKeys_perm bags).mem_iff.mp listed)
  refine ⟨bag, Table.find_eq_some_iff.mp stored, ?_⟩
  rw [headOf, stored, Option.bind_some]

theorem bagHeads_stored : bagHeads bags ⊆ bags.entries.map fun bag => bag.2.head := by
  intro head member
  obtain ⟨bagUpper, listed, rfl⟩ := List.mem_map.mp member
  obtain ⟨bag, stored, same⟩ := headOf_stored listed
  exact List.mem_map.mpr ⟨(bagUpper, bag), stored, same.symm⟩

end Heads

variable {Account : Type} [DecidableEq Account]

/-- The nodes in the order in which the links of the bags, from the highest bag to the
lowest, lead to them for the first time. -/
def BagOrder (nodes : NodeMap Account) (bags : Table Nat (ListBag Account))
    (order : List (Account × VoterNode Account)) : Prop :=
  ∃ processed, FollowsAll nodes.table.find VoterNode.next [] (bagHeads bags) order processed

variable {nodes : NodeMap Account} {bags : Table Nat (ListBag Account)} {fuel : Nat}
  {order : List (Account × VoterNode Account)}

section Walk

variable (limit : Nat) (voters : List (Account × Nat)) {processed after : List Account}
  {out : List (Account × VoterNode Account)}

theorem walkBag_eq {start : Option Account}
    (follows : Follows nodes.table.find VoterNode.next processed start out after)
    (enough : out.length < fuel) :
    ∃ result, walkBag nodes limit fuel start ⟨voters, processed⟩ = some result ∧
      result.voters = voters ++ (out.map voterOf).take (limit - voters.length) ∧
      (voters.length + out.length < limit → result.processed = after) := by
  induction follows generalizing voters fuel with
  | stop => exact ⟨⟨voters, _⟩, by rw [walkBag], by simp, fun _ => rfl⟩
  | @again visited key old =>
      obtain ⟨fuel, rfl⟩ := Nat.exists_eq_add_of_lt enough
      refine ⟨⟨voters, visited⟩, ?_, by simp, fun _ => rfl⟩
      simp [walkBag, old]
  | @dangling visited key fresh missing =>
      obtain ⟨fuel, rfl⟩ := Nat.exists_eq_add_of_lt enough
      by_cases full : limit ≤ voters.length
      · refine ⟨⟨voters, visited⟩, by simp [walkBag, full], by simp, fun room => ?_⟩
        simp at room
        omega
      · exact ⟨⟨voters, key :: visited⟩, by simp [walkBag, full, fresh, missing], by simp,
          fun _ => rfl⟩
  | @node visited key node rest after fresh found onward ih =>
      rw [List.length_cons] at enough ⊢
      obtain ⟨fuel, rfl⟩ : ∃ less, fuel = less + 1 := ⟨fuel - 1, by omega⟩
      by_cases full : limit ≤ voters.length
      · refine ⟨⟨voters, visited⟩, by simp [walkBag, full], ?_, fun room => by omega⟩
        simp [Nat.sub_eq_zero_of_le full]
      · obtain ⟨result, walked, listed, marked⟩ := ih (voters ++ [voterOf (key, node)])
          (show rest.length < fuel by omega)
        refine ⟨result, ?_, ?_, fun room => marked (by simp; omega)⟩
        · simpa [walkBag, full, fresh, found, voterOf] using walked
        · obtain ⟨room, budget⟩ : ∃ room, limit - voters.length = room + 1 :=
            ⟨limit - voters.length - 1, by omega⟩
          have left : limit - (voters ++ [voterOf (key, node)]).length = room := by
            simp
            omega
          rw [listed, left, budget, List.map_cons, List.take_succ_cons, List.append_assoc,
            List.singleton_append]

variable {limit voters}

theorem walkBags_full (full : limit ≤ voters.length) (bagUppers : List Nat) :
    walkBags nodes bags limit fuel bagUppers ⟨voters, processed⟩ = some ⟨voters, processed⟩ := by
  cases bagUppers with
  | nil => rfl
  | cons bagUpper rest => rw [walkBags, if_pos full]

theorem walkBags_cons (room : voters.length < limit) (bagUpper : Nat) (rest : List Nat) :
    walkBags nodes bags limit fuel (bagUpper :: rest) ⟨voters, processed⟩ =
      (walkBag nodes limit fuel (headOf bags bagUpper) ⟨voters, processed⟩).bind
        (walkBags nodes bags limit fuel rest) := by
  rw [walkBags, if_neg (Nat.not_le.mpr room), headOf]
  cases stored : bags.find bagUpper with
  | none => simp [walkBag]
  | some bag =>
      cases head : bag.head with
      | none => simp [walkBag, head]
      | some account => simp [head]

variable (limit voters)

theorem walkBags_eq {bagUppers : List Nat}
    (follows : FollowsAll nodes.table.find VoterNode.next processed
      (bagUppers.map (headOf bags)) out after)
    (enough : out.length < fuel) :
    ∃ result, walkBags nodes bags limit fuel bagUppers ⟨voters, processed⟩ = some result ∧
      result.voters = voters ++ (out.map voterOf).take (limit - voters.length) := by
  induction bagUppers generalizing voters processed out with
  | nil =>
      cases follows
      exact ⟨⟨voters, _⟩, rfl, by simp⟩
  | cons bagUpper rest ih =>
      by_cases full : limit ≤ voters.length
      · exact ⟨⟨voters, processed⟩, walkBags_full full _, by simp [Nat.sub_eq_zero_of_le full]⟩
      cases follows with
      | @cons _ _ here between _ later _ first others =>
          rw [List.length_append] at enough
          obtain ⟨⟨found, marked⟩, walked, listed, complete⟩ :=
            walkBag_eq limit voters first (show here.length < fuel by omega)
          rw [walkBags_cons (by omega), walked, Option.bind_some]
          dsimp only at listed complete
          have length : found.length = voters.length + min (limit - voters.length) here.length := by
            rw [listed, List.length_append, List.length_take, List.length_map]
          rw [List.map_append, List.take_append, List.length_map]
          by_cases room : voters.length + here.length < limit
          · -- the bag was walked to its end, so the marks are the ones of the whole list
            rw [complete room]
            obtain ⟨result, onward, total⟩ := ih found others (by omega)
            refine ⟨result, onward, ?_⟩
            have left : limit - found.length = limit - voters.length - here.length := by omega
            rw [total, left, listed, List.append_assoc]
          · refine ⟨⟨found, marked⟩, walkBags_full (by omega) rest, ?_⟩
            have used : limit - voters.length - here.length = 0 := by omega
            rw [used, List.take_zero, List.append_nil, listed]

end Walk

section Order

theorem stored_of_find (account : Account) (node : VoterNode Account)
    (found : nodes.table.find account = some node) : account ∈ nodes.table.keys :=
  Table.mem_keys_iff.mpr ⟨node, found⟩

theorem exists_bagOrder (nodes : NodeMap Account) (bags : Table Nat (ListBag Account)) :
    ∃ order, BagOrder nodes bags order :=
  exists_followsAll stored_of_find [] (bagHeads bags)

theorem BagOrder.unique {other : List (Account × VoterNode Account)}
    (bagOrder : BagOrder nodes bags order) (another : BagOrder nodes bags other) :
    order = other := by
  obtain ⟨_, follows⟩ := bagOrder
  obtain ⟨_, follows'⟩ := another
  exact (follows.deterministic follows').1

theorem BagOrder.length_le (bagOrder : BagOrder nodes bags order) :
    order.length ≤ nodes.table.entries.length := by
  obtain ⟨_, follows⟩ := bagOrder
  simpa [Table.keys] using follows.length_le stored_of_find

theorem BagOrder.id_eq (bagOrder : BagOrder nodes bags order) :
    ∀ entry ∈ order, entry.2.id = entry.1 := by
  obtain ⟨_, follows⟩ := bagOrder
  exact fun entry member => nodes.keyed entry.1 entry.2 (follows.stored entry member)

theorem BagOrder.accounts (bagOrder : BagOrder nodes bags order) :
    (order.map voterOf).map Prod.fst = order.map Prod.fst := by
  rw [List.map_map]
  exact List.map_congr_left bagOrder.id_eq

theorem votersFrom_eq (bagOrder : BagOrder nodes bags order) (voterLimit : Nat)
    (enough : nodes.table.entries.length < fuel) :
    votersFrom nodes bags voterLimit fuel = some ((order.map voterOf).take (voterLimit + 100)) := by
  have short := bagOrder.length_le
  have addressable := nodes.addressable
  obtain ⟨processed, follows⟩ := bagOrder
  obtain ⟨result, walked, listed⟩ := walkBags_eq (extendedVoterLimit voterLimit) []
    follows (Nat.lt_of_le_of_lt short enough)
  have fits : (order.map voterOf).length ≤ 2 ^ 64 - 1 := by
    rw [List.length_map]
    omega
  rw [votersFrom, walked]
  refine congrArg some ?_
  rw [listed, extendedVoterLimit, List.nil_append, List.length_nil, Nat.sub_zero, ← List.take_take,
    List.take_of_length_le fits]

theorem bagOrder_of_complete {lists : Nat → List (Account × VoterNode Account)}
    (complete : ∀ bag ∈ bags.entries,
      Complete nodes.table.find VoterNode.next bag.2.head (lists bag.1))
    (apart : (sortedBagKeys bags).Pairwise fun i j =>
      ∀ account ∈ (lists i).map Prod.fst, account ∉ (lists j).map Prod.fst) :
    BagOrder nodes bags ((sortedBagKeys bags).flatMap lists) := by
  refine followsAll_of_complete (fun bagUpper listed => ?_) apart (by simp)
  obtain ⟨bag, stored, same⟩ := headOf_stored listed
  rw [same]
  exact complete (bagUpper, bag) stored

end Order

/-- The walk ends on any links, within the limit and without repeating an account. Its
result grows with the limit and, for bags that hold proper lists, is the start of their
concatenation from the highest bag to the lowest. -/
theorem bag_walk_bounded (nodes : NodeMap Account) (bags : Table Nat (ListBag Account))
    (voterLimit : Nat) :
    ∃ voters, (∀ fuel, nodes.table.entries.length < fuel →
        votersFrom nodes bags voterLimit fuel = some voters) ∧
      voters.length ≤ voterLimit + 100 ∧
      (voters.map Prod.fst).Nodup ∧
      (∀ voter ∈ voters, ∃ node, nodes.table.find voter.1 = some node ∧ node.score = voter.2 ∧
        Reached nodes.table.find VoterNode.next (bags.entries.map fun bag => bag.2.head) voter.1) ∧
      (∀ smaller fuel fewer, smaller ≤ voterLimit → nodes.table.entries.length < fuel →
        votersFrom nodes bags smaller fuel = some fewer → fewer <+: voters) ∧
      (∀ (bagUppers : List Nat) (lists : Nat → List (Account × VoterNode Account)),
        bagUppers.Perm bags.keys → bagUppers.Pairwise (· > ·) →
        (∀ bag ∈ bags.entries,
          Complete nodes.table.find VoterNode.next bag.2.head (lists bag.1)) →
        (bagUppers.Pairwise fun i j =>
          ∀ account ∈ (lists i).map Prod.fst, account ∉ (lists j).map Prod.fst) →
        voters = ((bagUppers.flatMap lists).map voterOf).take (voterLimit + 100)) := by
  obtain ⟨order, bagOrder⟩ := exists_bagOrder nodes bags
  have ⟨processed, follows⟩ := bagOrder
  refine ⟨(order.map voterOf).take (voterLimit + 100), fun fuel => ?_, ?_, ?_, ?_, ?_, ?_⟩
  · exact votersFrom_eq bagOrder voterLimit
  · exact List.length_take_le _ _
  · rw [List.map_take, bagOrder.accounts]
    exact follows.fresh.1.sublist (List.take_sublist _ _)
  · intro voter member
    obtain ⟨entry, listed, rfl⟩ := List.mem_map.mp (List.mem_of_mem_take member)
    have reached := follows.reached bagHeads_stored entry listed
    rw [voterOf, bagOrder.id_eq entry listed]
    exact ⟨entry.2, follows.stored entry listed, rfl, reached⟩
  · intro smaller fuel fewer le enough walked
    rw [votersFrom_eq bagOrder smaller enough] at walked
    rw [← Option.some.inj walked]
    exact List.take_prefix_take_left (by omega)
  · intro bagUppers lists all descending complete apart
    rw [eq_sortedBagKeys all descending] at apart ⊢
    rw [bagOrder.unique (bagOrder_of_complete complete apart)]

end LeanStakingMiner
