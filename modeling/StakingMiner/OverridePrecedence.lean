import StakingMiner.OverrideRules

/-!
Which override of an account wins, and when an overridden voter list names an account twice.
-/

namespace LeanStakingMiner

open LeanKeyed LeanTraversal

variable {Account : Type} [DecidableEq Account] {libraries : Libraries Account}

theorem voterIndex_concat (voters : List (NominatorData Account)) (voter : NominatorData Account)
    (account : Account) :
    voterIndex (voters ++ [voter]) account =
      if voter.1 = account then some voters.length else voterIndex voters account := by
  rw [voterIndex, List.zipIdx_append, List.filter_append, Nat.zero_add, List.zipIdx_singleton]
  by_cases same : voter.1 = account
  · rw [if_pos same, List.filter_cons_of_pos (by simpa using same), List.filter_nil,
      List.getLast?_concat, Option.map_some]
  · rw [if_neg same, List.filter_cons_of_neg (by simpa using same), List.filter_nil,
      List.append_nil]
    rfl

theorem voterIndex_locates (voters : List (NominatorData Account)) :
    Locates (voterIndex voters) (voters.map Prod.fst) := by
  induction voters using List.reverseRecOn with
  | nil => exact ⟨fun _ member => absurd member List.not_mem_nil, fun _ _ => rfl⟩
  | append_singleton rest voter ih =>
      rw [List.map_append, List.map_cons, List.map_nil]
      refine ⟨fun account member => ?_, fun account absent => ?_⟩
      · rw [voterIndex_concat]
        by_cases same : voter.1 = account
        · refine ⟨rest.length, if_pos same, ?_, ?_⟩
          · simp [same]
          · rw [List.drop_eq_nil_of_le (by simp)]
            exact List.not_mem_nil
        · have earlier : account ∈ rest.map Prod.fst := by
            rw [List.mem_append, List.mem_singleton] at member
            exact member.resolve_right (Ne.symm same)
          obtain ⟨index, found, located, last⟩ := ih.found account earlier
          have inside := (List.getElem?_eq_some_iff.mp located).1
          refine ⟨index, by rw [if_neg same, found], ?_, ?_⟩
          · rw [List.getElem?_append_left inside, located]
          · rw [List.drop_append_of_le_length inside, List.mem_append, List.mem_singleton]
            exact fun either => either.elim last (Ne.symm same)
      · rw [List.mem_append, List.mem_singleton, not_or] at absent
        rw [voterIndex_concat, if_neg (Ne.symm absent.2), ih.missing account absent.1]

namespace ParsedOverrides

variable (parsed : ParsedOverrides Account) {candidates : List (ValidatorData Account)}
  {voters : List (NominatorData Account)}

omit [DecidableEq Account] in
theorem selfVotes_keys (account : Account) :
    account ∈ parsed.selfVotes.map Prod.fst ↔
      ∃ stake, stake ≠ 0 ∧ (account, stake) ∈ parsed.candidatesInclude := by
  simp only [selfVotes, List.map_map, List.mem_map, List.mem_filter, Function.comp_apply]
  constructor
  · rintro ⟨entry, ⟨member, nonzero⟩, rfl⟩
    exact ⟨entry.2, by simpa using nonzero, member⟩
  · rintro ⟨stake, nonzero, member⟩
    exact ⟨(account, stake), ⟨member, by simpa using nonzero⟩, rfl⟩

theorem mapped_nodup (distinct : (voters.map Prod.fst).Nodup) :
    ((parsed.mappedVoters voters).map Prod.fst).Nodup :=
  (puts_keys_nodup parsed.selfVotes distinct).sublist (List.filter_sublist.map Prod.fst)

theorem mem_mapped_keys (account : Account) :
    account ∈ (parsed.mappedVoters voters).map Prod.fst ↔
      account ∈ (puts parsed.selfVotes voters).map Prod.fst ∧ account ∉ parsed.votersExclude := by
  have kept : account ∈ (parsed.mappedVoters voters).map Prod.fst ↔
      account ∈ (puts parsed.selfVotes voters).map Prod.fst ∧
        decide (account ∉ parsed.votersExclude) = true :=
    mem_filter_keys fun account => decide (account ∉ parsed.votersExclude)
  rw [kept, decide_eq_true_eq]

theorem mapped_keys (account : Account) :
    account ∈ (parsed.mappedVoters voters).map Prod.fst ↔
      (account ∈ voters.map Prod.fst ∨
        ∃ stake, stake ≠ 0 ∧ (account, stake) ∈ parsed.candidatesInclude) ∧
      account ∉ parsed.votersExclude := by
  rw [mem_mapped_keys, mem_puts_keys parsed.selfVotes, selfVotes_keys, or_comm]

theorem apply_voters_eq :
    (parsed.apply candidates voters).2 =
      changeAt isLast parsed.votersInclude [] (parsed.mappedVoters voters) ++
        parsed.votersInclude.filter fun entry =>
          entry.1 ∉ (parsed.mappedVoters voters).map Prod.fst := by
  have folded := foldl_overwrite parsed.votersInclude []
    (voterIndex_locates (parsed.mappedVoters voters))
  rw [List.append_nil, List.nil_append] at folded
  exact folded

theorem apply_voters (distinct : (voters.map Prod.fst).Nodup) :
    (parsed.apply candidates voters).2 =
      updated parsed.votersInclude (parsed.mappedVoters voters) ++
        parsed.votersInclude.filter fun entry =>
          entry.1 ∉ (parsed.mappedVoters voters).map Prod.fst := by
  rw [apply_voters_eq, changeLast_of_nodup _ (parsed.mapped_nodup distinct)]

theorem apply_voters_nodup_iff (distinct : (voters.map Prod.fst).Nodup) :
    ((parsed.apply candidates voters).2.map Prod.fst).Nodup ↔
      ∀ account, 2 ≤ (parsed.votersInclude.map Prod.fst).count account →
        account ∈ (parsed.mappedVoters voters).map Prod.fst := by
  have appended : ((parsed.votersInclude.filter fun entry =>
        entry.1 ∉ (parsed.mappedVoters voters).map Prod.fst).map Prod.fst) =
      (parsed.votersInclude.map Prod.fst).filter fun account =>
        account ∉ (parsed.mappedVoters voters).map Prod.fst := by
    rw [List.filter_map]
    rfl
  rw [parsed.apply_voters distinct, List.map_append, updated_keys, appended, List.nodup_append',
    nodup_filter_not_mem_iff]
  constructor
  · exact fun parts => parts.2.1
  · intro covered
    refine ⟨parsed.mapped_nodup distinct, covered, fun account old fresh => ?_⟩
    have unknown := (List.mem_filter.mp fresh).2
    simp only [decide_eq_true_eq] at unknown
    exact unknown old

theorem lastValue_selfVotes (account : Account) :
    lastValue account parsed.selfVotes =
      (lastValue account (parsed.candidatesInclude.filter fun entry => entry.2 ≠ 0)).map
        fun stake => (stake, [account]) := by
  unfold selfVotes
  induction parsed.candidatesInclude.filter fun entry => entry.2 ≠ 0 with
  | nil => rfl
  | cons entry rest ih =>
      rw [List.map_cons, lastValue_cons, lastValue_cons, ih]
      by_cases same : entry.1 = account
      · cases lastValue account rest with
        | none => simp [same]
        | some stake => simp
      · simp [same]

theorem lastValue_apply_voters (distinct : (voters.map Prod.fst).Nodup) (account : Account) :
    lastValue account (parsed.apply candidates voters).2 =
      (lastValue account parsed.votersInclude).or
        (if account ∈ parsed.votersExclude then none
        else (lastValue account parsed.selfVotes).or (lastValue account voters)) := by
  have mapped : lastValue account (parsed.mappedVoters voters) =
      if account ∈ parsed.votersExclude then none
      else (lastValue account parsed.selfVotes).or (lastValue account voters) := by
    have filtered := lastValue_filter (fun account => decide (account ∉ parsed.votersExclude))
      account (puts parsed.selfVotes voters)
    rw [lastValue_puts parsed.selfVotes distinct] at filtered
    unfold mappedVoters
    rw [filtered]
    by_cases excluded : account ∈ parsed.votersExclude
    · simp [excluded]
    · simp [excluded]
  have appended := lastValue_filter
    (fun account => decide (account ∉ (parsed.mappedVoters voters).map Prod.fst)) account
    parsed.votersInclude
  rw [parsed.apply_voters distinct, lastValue_append, lastValue_updated, appended, ← mapped]
  cases found : lastValue account (parsed.mappedVoters voters) with
  | none =>
      have unknown := lastValue_eq_none_iff.mp found
      simp [unknown]
  | some old =>
      have known : account ∈ (parsed.mappedVoters voters).map Prod.fst := by
        by_contra unknown
        rw [lastValue_eq_none_iff.mpr unknown] at found
        contradiction
      rw [if_neg (by simpa using known)]
      cases lastValue account parsed.votersInclude with
      | none => rfl
      | some value => rfl

def Names (account : Account) : Prop :=
  account ∈ parsed.candidatesInclude.map Prod.fst ∨ account ∈ parsed.candidatesExclude ∨
    account ∈ parsed.votersInclude.map Prod.fst ∨ account ∈ parsed.votersExclude

instance (account : Account) : Decidable (parsed.Names account) :=
  inferInstanceAs (Decidable (_ ∨ _))

theorem unnamed_voters (candidates : List (ValidatorData Account))
    (voters : List (NominatorData Account)) :
    ((parsed.apply candidates voters).2.filter fun entry => ¬parsed.Names entry.1) =
      voters.filter fun entry => ¬parsed.Names entry.1 := by
  let unnamed : Account → Bool := fun account => decide ¬parsed.Names account
  have named {account : Account} (names : parsed.Names account) : unnamed account = false := by
    simpa [unnamed] using names
  have included : ∀ account ∈ parsed.votersInclude.map Prod.fst, unnamed account = false :=
    fun account member => named (Or.inr (Or.inr (Or.inl member)))
  have voted : ∀ account ∈ parsed.selfVotes.map Prod.fst, unnamed account = false := by
    intro account member
    obtain ⟨stake, _, entry⟩ := (parsed.selfVotes_keys account).mp member
    exact named (Or.inl (List.mem_map_of_mem entry))
  have kept (entry : NominatorData Account) :
      (unnamed entry.1 && decide (entry.1 ∉ parsed.votersExclude)) = unnamed entry.1 := by
    by_cases names : parsed.Names entry.1
    · simp [named names]
    · have remains : entry.1 ∉ parsed.votersExclude :=
        fun excluded => names (Or.inr (Or.inr (Or.inr excluded)))
      simp [remains]
  calc (parsed.apply candidates voters).2.filter (fun entry => unnamed entry.1)
      = (parsed.mappedVoters voters).filter fun entry => unnamed entry.1 :=
        filter_foldl_overwrite unnamed parsed.votersInclude
          (fun _ _ => (voterIndex_locates (parsed.mappedVoters voters)).placed) included
    _ = (puts parsed.selfVotes voters).filter fun entry => unnamed entry.1 := by
        rw [mappedVoters, List.filter_filter, List.filter_congr fun entry _ => kept entry]
    _ = voters.filter fun entry => unnamed entry.1 :=
        filter_puts unnamed parsed.selfVotes voted

theorem apply_candidates (distinct : (candidates.map Prod.fst).Nodup) :
    (parsed.apply candidates voters).1 =
      updated parsed.candidatesInclude (parsed.remainingCandidates candidates) ++
        freshEntries parsed.candidatesInclude (parsed.remainingCandidates candidates) :=
  puts_eq parsed.candidatesInclude (distinct.sublist (List.filter_sublist.map Prod.fst))

end ParsedOverrides

omit [DecidableEq Account] in
theorem parsedVoter_eq_none_iff (override : String × Nat × List String) :
    parsedVoter libraries override = none ↔
      ∃ address ∈ override.1 :: override.2.2, accountOf libraries address = none := by
  unfold parsedVoter
  cases found : accountOf libraries override.1 with
  | none => simp [found]
  | some account =>
      simp only [Option.bind_eq_bind, Option.bind_some, List.mem_cons, exists_eq_or_imp, found,
        reduceCtorEq, false_or, ← mapM_eq_none_iff]
      cases override.2.2.mapM (accountOf libraries) with
      | none => simp
      | some targets => simp

omit [DecidableEq Account] in
theorem parsed_eq_none_iff_lists (overrides : ElectionOverrides) :
    overrides.parsed libraries = none ↔
      overrides.candidatesExclude.mapM (accountOf libraries) = none ∨
      overrides.candidatesInclude.mapM (CandidateInclude.parsed libraries) = none ∨
      overrides.votersExclude.mapM (accountOf libraries) = none ∨
      overrides.votersInclude.mapM (parsedVoter libraries) = none := by
  unfold ElectionOverrides.parsed
  cases overrides.candidatesExclude.mapM (accountOf libraries) with
  | none => simp
  | some _ =>
      cases overrides.candidatesInclude.mapM (CandidateInclude.parsed libraries) with
      | none => simp
      | some _ =>
          cases overrides.votersExclude.mapM (accountOf libraries) with
          | none => simp
          | some _ =>
              cases overrides.votersInclude.mapM (parsedVoter libraries) with
              | none => simp
              | some _ => simp

omit [DecidableEq Account] in
theorem parsed_eq_none_iff (overrides : ElectionOverrides) :
    overrides.parsed libraries = none ↔
      ∃ address ∈ overrides.addresses, accountOf libraries address = none := by
  have includes : overrides.candidatesInclude.mapM (CandidateInclude.parsed libraries) = none ↔
      ∃ address, (∃ candidate ∈ overrides.candidatesInclude, candidate.parts.1 = address) ∧
        accountOf libraries address = none := by
    simp [mapM_eq_none_iff, CandidateInclude.parsed]
  have voters : overrides.votersInclude.mapM (parsedVoter libraries) = none ↔
      ∃ address, (∃ override ∈ overrides.votersInclude, address ∈ override.1 :: override.2.2) ∧
        accountOf libraries address = none := by
    simp only [mapM_eq_none_iff, parsedVoter_eq_none_iff]
    constructor
    · rintro ⟨override, member, address, listed, unread⟩
      exact ⟨address, ⟨override, member, listed⟩, unread⟩
    · rintro ⟨address, ⟨override, member, listed⟩, unread⟩
      exact ⟨override, member, address, listed, unread⟩
  rw [parsed_eq_none_iff_lists, mapM_eq_none_iff, includes, mapM_eq_none_iff, voters]
  simp only [ElectionOverrides.addresses, List.mem_append, List.mem_map, List.mem_flatMap,
    or_and_right, exists_or, or_assoc]

theorem applyOverrides_ok {parsed : ParsedOverrides Account} {overrides : ElectionOverrides}
    (read : overrides.parsed libraries = some parsed) (candidates : List (ValidatorData Account))
    (voters : List (NominatorData Account)) :
    applyOverrides libraries candidates voters overrides =
      .ok (parsed.apply candidates voters) := by
  have result : (applyOverrides libraries candidates voters overrides).toOption =
      (overrides.parsed libraries).map fun parsed => parsed.apply candidates voters :=
    applyOverrides_toOption candidates voters overrides
  rw [read] at result
  exact toOption_eq_some_iff.mp result

theorem applyOverrides_error_iff (candidates : List (ValidatorData Account))
    (voters : List (NominatorData Account)) (overrides : ElectionOverrides) :
    (∃ error, applyOverrides libraries candidates voters overrides = .error error) ↔
      ∃ address ∈ overrides.addresses, ∃ error, libraries.parseAccount address = .error error := by
  rw [← toOption_eq_none_iff, applyOverrides_toOption, Option.map_eq_none_iff, parsed_eq_none_iff]
  simp only [accountOf, toOption_eq_none_iff]

theorem applyOverrides_parsed {overrides : ElectionOverrides}
    {candidates : List (ValidatorData Account)} {voters : List (NominatorData Account)}
    {result : List (ValidatorData Account) × List (NominatorData Account)}
    (applied : applyOverrides libraries candidates voters overrides = .ok result) :
    ∃ parsed, overrides.parsed libraries = some parsed ∧
      result = parsed.apply candidates voters := by
  have reads : (applyOverrides libraries candidates voters overrides).toOption =
      (overrides.parsed libraries).map fun parsed => parsed.apply candidates voters :=
    applyOverrides_toOption candidates voters overrides
  rw [applied] at reads
  obtain ⟨parsed, read, same⟩ := Option.map_eq_some_iff.mp reads.symm
  exact ⟨parsed, read, same.symm⟩

/-- The voters that overrides leave have distinct accounts exactly if no account is included
twice as a voter, unless the index map of the last stage knows it. -/
theorem overridden_voters_distinct_iff (libraries : Libraries Account)
    (candidates : List (ValidatorData Account)) (voters : List (NominatorData Account))
    (overrides : ElectionOverrides) (distinct : (voters.map Prod.fst).Nodup)
    (result : List (ValidatorData Account) × List (NominatorData Account))
    (applied : applyOverrides libraries candidates voters overrides = .ok result) :
    ∃ parsed, overrides.parsed libraries = some parsed ∧
      ((result.2.map Prod.fst).Nodup ↔
        ∀ account, 2 ≤ (parsed.votersInclude.map Prod.fst).count account →
          (account ∈ voters.map Prod.fst ∨
            ∃ stake, stake ≠ 0 ∧ (account, stake) ∈ parsed.candidatesInclude) ∧
          account ∉ parsed.votersExclude) := by
  obtain ⟨parsed, read, rfl⟩ := applyOverrides_parsed applied
  refine ⟨parsed, read, ?_⟩
  rw [parsed.apply_voters_nodup_iff distinct]
  simp only [parsed.mapped_keys]

def alice : String := "5GrwvaEF5zXb26Fz9rcQpDWS57CtERHpNehXCPcNoHGKutQY"

def bob : String := "5FHneW46xGXgs5mUiveU4sbTyGBzmstUspZC92UhjJM694ty"

def devLibraries : Libraries Nat :=
  { sampleLibraries with
    parseAccount := fun text =>
      if text = alice then .ok 1 else if text = bob then .ok 2 else .error "InvalidLength" }

theorem overridden_voters_distinct_iff_alice :
    ∃ parsed, ElectionOverrides.parsed devLibraries
        ⟨[], [], [(alice, 5, [bob]), (alice, 6, [bob])], []⟩ = some parsed ∧
      ((([(1, 6, [2])] : List (NominatorData Nat)).map Prod.fst).Nodup ↔
        ∀ account, 2 ≤ (parsed.votersInclude.map Prod.fst).count account →
          (account ∈ ([(1, 4, [2])] : List (NominatorData Nat)).map Prod.fst ∨
            ∃ stake, stake ≠ 0 ∧ (account, stake) ∈ parsed.candidatesInclude) ∧
          account ∉ parsed.votersExclude) :=
  overridden_voters_distinct_iff devLibraries [] [(1, 4, [2])]
    ⟨[], [], [(alice, 5, [bob]), (alice, 6, [bob])], []⟩ (by decide) ([], [(1, 6, [2])]) rfl

/-- An account that is no voter on chain is included twice as a voter: both entries are
appended. -/
theorem included_voter_repeated :
    ∃ candidates voters,
      applyOverrides devLibraries [] [] ⟨[], [], [(alice, 5, [bob]), (alice, 6, [bob])], []⟩ =
        .ok (candidates, voters) ∧ ¬(voters.map Prod.fst).Nodup :=
  ⟨[], [(1, 5, [2]), (1, 6, [2])], rfl, by decide⟩

/-- Overrides fail exactly if an address cannot be read. Otherwise the remaining candidates
keep their order, new ones follow in the order of their first entry and the last entry gives
the stake; for voters a later stage wins over an earlier one and a later entry over an earlier
entry, and voters that are not named stay as they are. -/
theorem overrides_take_precedence (libraries : Libraries Account)
    (candidates : List (ValidatorData Account)) (voters : List (NominatorData Account))
    (overrides : ElectionOverrides) (distinctCandidates : (candidates.map Prod.fst).Nodup)
    (distinctVoters : (voters.map Prod.fst).Nodup) :
    ((∃ error, applyOverrides libraries candidates voters overrides = .error error) ↔
      ∃ address ∈ overrides.addresses, ∃ error, libraries.parseAccount address = .error error) ∧
    ((∀ address ∈ overrides.addresses, ∃ account, libraries.parseAccount address = .ok account) →
      ∃ parsed newCandidates newVoters, overrides.parsed libraries = some parsed ∧
        applyOverrides libraries candidates voters overrides = .ok (newCandidates, newVoters) ∧
        (let remaining := candidates.filter fun entry => entry.1 ∉ parsed.candidatesExclude
        let included := parsed.candidatesInclude
        let fresh := ((included.map Prod.fst).filter fun account =>
          account ∉ remaining.map Prod.fst).eraseDups
        newCandidates =
          (remaining.map fun entry => (entry.1, (lastValue entry.1 included).getD entry.2)) ++
            fresh.filterMap fun account =>
              (lastValue account included).map fun stake => (account, stake)) ∧
        (∀ account, lastValue account newVoters =
          (lastValue account parsed.votersInclude).or
            (if account ∈ parsed.votersExclude then none
            else ((lastValue account
                (parsed.candidatesInclude.filter fun entry => entry.2 ≠ 0)).map
                  fun stake => (stake, [account])).or (lastValue account voters))) ∧
        (newVoters.filter fun entry => ¬parsed.Names entry.1) =
          voters.filter fun entry => ¬parsed.Names entry.1) := by
  refine ⟨applyOverrides_error_iff candidates voters overrides, fun readable => ?_⟩
  obtain ⟨parsed, read⟩ : ∃ parsed, overrides.parsed libraries = some parsed := by
    refine Option.ne_none_iff_exists'.mp fun unread => ?_
    obtain ⟨address, member, missing⟩ := (parsed_eq_none_iff overrides).mp unread
    obtain ⟨account, found⟩ := readable address member
    rw [accountOf, found] at missing
    contradiction
  refine ⟨parsed, (parsed.apply candidates voters).1, (parsed.apply candidates voters).2, read,
    applyOverrides_ok read candidates voters, parsed.apply_candidates distinctCandidates, ?_,
    parsed.unnamed_voters candidates voters⟩
  intro account
  rw [← parsed.lastValue_selfVotes]
  exact parsed.lastValue_apply_voters distinctVoters account

theorem overrides_take_precedence_bob :
    ∃ newCandidates newVoters,
      applyOverrides devLibraries [(1, 10)] [(2, 7, [1])] ⟨[.withSelfStake bob 3], [], [], []⟩ =
        .ok (newCandidates, newVoters) ∧ lastValue 2 newVoters = some (3, [2]) := by
  obtain ⟨_, succeeds⟩ := overrides_take_precedence devLibraries [(1, 10)] [(2, 7, [1])]
    ⟨[.withSelfStake bob 3], [], [], []⟩ (by decide) (by decide)
  obtain ⟨parsed, newCandidates, newVoters, read, applied, _, last, _⟩ :=
    succeeds fun address member => ⟨2, by rw [List.mem_singleton.mp member]; rfl⟩
  obtain rfl := Option.some.inj read
  exact ⟨newCandidates, newVoters, applied, last 2⟩

end LeanStakingMiner
