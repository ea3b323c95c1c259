import StakingMiner.ElectionDataCore
import StakingMiner.KeyedLists
import StakingMiner.Traversals

/-!
What overrides mean once their addresses are read. The accounts of the parsed overrides are
put into the candidates and the voters; `apply_overrides` does exactly this whenever every
address can be read, and fails otherwise.
-/

namespace LeanStakingMiner

open LeanKeyed LeanTraversal

variable {Account : Type} [DecidableEq Account]

structure ParsedOverrides (Account : Type) where
  candidatesInclude : List (ValidatorData Account)
  candidatesExclude : List Account
  votersInclude : List (NominatorData Account)
  votersExclude : List Account

namespace ParsedOverrides

variable (parsed : ParsedOverrides Account)

def selfVotes : List (NominatorData Account) :=
  (parsed.candidatesInclude.filter fun entry => entry.2 ≠ 0).map fun entry =>
    (entry.1, entry.2, [entry.1])

def remainingCandidates (candidates : List (ValidatorData Account)) :
    List (ValidatorData Account) :=
  candidates.filter fun entry => entry.1 ∉ parsed.candidatesExclude

def mappedVoters (voters : List (NominatorData Account)) : List (NominatorData Account) :=
  (puts parsed.selfVotes voters).filter fun entry => entry.1 ∉ parsed.votersExclude

def apply (candidates : List (ValidatorData Account)) (voters : List (NominatorData Account)) :
    List (ValidatorData Account) × List (NominatorData Account) :=
  let mapped := parsed.mappedVoters voters
  (puts parsed.candidatesInclude (parsed.remainingCandidates candidates),
    parsed.votersInclude.foldl (overwrite (voterIndex mapped)) mapped)

end ParsedOverrides

section Parsing

variable (libraries : Libraries Account)

def accountOf (address : String) : Option Account := (libraries.parseAccount address).toOption

def CandidateInclude.parsed (candidate : CandidateInclude) : Option (ValidatorData Account) :=
  (accountOf libraries candidate.parts.1).map fun account => (account, candidate.parts.2)

def parsedVoter (override : String × Nat × List String) : Option (NominatorData Account) := do
  let account ← accountOf libraries override.1
  let targets ← override.2.2.mapM (accountOf libraries)
  pure (account, override.2.1, targets)

def ElectionOverrides.parsed (overrides : ElectionOverrides) :
    Option (ParsedOverrides Account) := do
  let candidatesExclude ← overrides.candidatesExclude.mapM (accountOf libraries)
  let candidatesInclude ← overrides.candidatesInclude.mapM (CandidateInclude.parsed libraries)
  let votersExclude ← overrides.votersExclude.mapM (accountOf libraries)
  let votersInclude ← overrides.votersInclude.mapM (parsedVoter libraries)
  pure ⟨candidatesInclude, candidatesExclude, votersInclude, votersExclude⟩

def ElectionOverrides.addresses (overrides : ElectionOverrides) : List String :=
  overrides.candidatesExclude ++ overrides.candidatesInclude.map (fun entry => entry.parts.1) ++
    overrides.votersExclude ++ overrides.votersInclude.flatMap fun entry => entry.1 :: entry.2.2

end Parsing

variable {libraries : Libraries Account}

omit [DecidableEq Account] in
theorem parseAs_toOption (role address : String) :
    (parseAs libraries role address).toOption = accountOf libraries address := by
  unfold parseAs accountOf
  cases libraries.parseAccount address with
  | ok account => rfl
  | error message => rfl

omit [DecidableEq Account] in
theorem mapM_parseAs_toOption (role : String) (addresses : List String) :
    (addresses.mapM (parseAs libraries role)).toOption =
      addresses.mapM (accountOf libraries) := by
  rw [toOption_mapM]
  congr 1
  funext address
  exact parseAs_toOption role address

theorem upsert_eq_put {β : Type} (account : Account) (value : β)
    {change : Account × β → Account × β}
    (changes : ∀ entry, entry.1 = account → change entry = (account, value))
    (entries : List (Account × β)) :
    upsert (fun entry => entry.1 = account) change (account, value) entries =
      put account value entries := by
  induction entries with
  | nil => rfl
  | cons entry rest ih =>
      by_cases same : entry.1 = account
      · simp [upsert, put, same, changes entry same]
      · simp [upsert, put, same, ih]

def includeParsed (data : List (ValidatorData Account) × List (NominatorData Account))
    (entry : ValidatorData Account) :
    List (ValidatorData Account) × List (NominatorData Account) :=
  (put entry.1 entry.2 data.1,
    if entry.2 = 0 then data.2 else put entry.1 (entry.2, [entry.1]) data.2)

theorem includeCandidate_toOption
    (data : List (ValidatorData Account) × List (NominatorData Account))
    (candidate : CandidateInclude) :
    (includeCandidate libraries data candidate).toOption =
      (candidate.parsed libraries).map (includeParsed data) := by
  unfold includeCandidate CandidateInclude.parsed
  obtain ⟨address, selfStake⟩ := candidate.parts
  dsimp only
  rw [toOption_bind, parseAs_toOption]
  cases accountOf libraries address with
  | none => rfl
  | some account =>
      simp only [Option.bind_eq_bind, Option.bind_some, Option.map_some, includeParsed]
      rw [upsert_eq_put account selfStake (fun entry same => by rw [same]),
        upsert_eq_put account (selfStake, [account]) (fun _ _ => rfl)]
      by_cases bare : selfStake = 0
      · simp only [bare, if_true]
        rfl
      · simp only [bare, if_false]
        rfl

theorem foldl_includeParsed (entries : List (ValidatorData Account))
    (candidates : List (ValidatorData Account)) (voters : List (NominatorData Account)) :
    entries.foldl includeParsed (candidates, voters) = (puts entries candidates,
      puts ((entries.filter fun entry => entry.2 ≠ 0).map fun entry =>
        (entry.1, entry.2, [entry.1])) voters) := by
  induction entries generalizing candidates voters with
  | nil => rfl
  | cons entry rest ih =>
      rw [List.foldl_cons, includeParsed, ih, puts_cons]
      by_cases bare : entry.2 = 0
      · simp [bare]
      · simp [bare, puts_cons]

theorem includeVoter_toOption (mapped voters : List (NominatorData Account))
    (override : String × Nat × List String) :
    (includeVoter libraries mapped voters override).toOption =
      (parsedVoter libraries override).map (overwrite (voterIndex mapped) voters) := by
  obtain ⟨address, stake, targetAddresses⟩ := override
  unfold includeVoter parsedVoter
  dsimp only
  rw [toOption_bind, parseAs_toOption]
  cases accountOf libraries address with
  | none => rfl
  | some account =>
      simp only [Option.bind_eq_bind, Option.bind_some]
      rw [toOption_bind, mapM_parseAs_toOption]
      cases targetAddresses.mapM (accountOf libraries) with
      | none => rfl
      | some targets =>
          simp only [Option.bind_eq_bind, Option.bind_some, Option.pure_def, Option.map_some,
            overwrite]
          cases voterIndex mapped account with
          | none => rfl
          | some index => rfl

/-- `apply_overrides` succeeds exactly if every address can be read, and then it does what the
parsed overrides say. -/
theorem applyOverrides_toOption (candidates : List (ValidatorData Account))
    (voters : List (NominatorData Account)) (overrides : ElectionOverrides) :
    (applyOverrides libraries candidates voters overrides).toOption =
      (overrides.parsed libraries).map fun parsed => parsed.apply candidates voters := by
  unfold applyOverrides ElectionOverrides.parsed
  rw [toOption_bind, mapM_parseAs_toOption]
  cases overrides.candidatesExclude.mapM (accountOf libraries) with
  | none => rfl
  | some candidatesExclude =>
      simp only [Option.bind_eq_bind, Option.bind_some]
      rw [toOption_bind, toOption_foldlM includeCandidate_toOption]
      cases overrides.candidatesInclude.mapM (CandidateInclude.parsed libraries) with
      | none => rfl
      | some candidatesInclude =>
          simp only [Option.map_some, Option.bind_eq_bind, Option.bind_some, foldl_includeParsed]
          rw [toOption_bind, mapM_parseAs_toOption]
          cases overrides.votersExclude.mapM (accountOf libraries) with
          | none => rfl
          | some votersExclude =>
              simp only [Option.bind_eq_bind, Option.bind_some]
              rw [toOption_bind, toOption_foldlM (includeVoter_toOption _)]
              cases overrides.votersInclude.mapM (parsedVoter libraries) with
              | none => rfl
              | some votersInclude => rfl

end LeanStakingMiner
