import StakingMiner.ConfigCore
import StakingMiner.PredictedValidators
import StakingMiner.ServerLogic
import StakingMiner.TokenAmounts

/-!
The decimals that a node reports reach every printed amount unchecked. The power of ten they
stand for fits into a `u128` up to 38 decimals, and only so far are the amounts right.
-/

namespace LeanStakingMiner

open LeanDecimal LeanJson LeanProgram LeanTraversal

/-- `planck_to_token` in a build with overflow checks, where the power panics. -/
def planckToTokenChecked (planck decimals : Nat) (symbol : String) : Option String :=
  if 2 ^ 128 ≤ 10 ^ decimals then none else planckToToken planck decimals symbol

section Shown

variable {Account : Type} (decimals : Nat)

def ValidatorShown (view : ValidatorView Account) (info : ValidatorInfo) : Prop :=
  Denotes decimals info.totalStake view.totalStake ∧
    Denotes decimals info.selfStake view.selfStake ∧
    List.Forall₂ (fun backing shown => Denotes decimals shown.allocatedStake backing.2)
      view.nominators info.nominators

def NominatorShown (view : NominatorView Account) (prediction : NominatorPrediction) : Prop :=
  Denotes decimals prediction.stake view.stake ∧
    List.Forall₂ (fun backing shown => Denotes decimals shown.allocatedStake backing.2)
      view.activeValidators prediction.activeValidators

/-- Whatever is predicted, building the predictions does not panic, and every amount in them,
read back, is the one that was computed. -/
def PredictsExactly : Prop :=
  ∀ (Account Solution : Type) [LinearOrder Account]
    (libraries : PredictionLibraries Account Solution) (context : PredictionContext)
    (bounds : ElectionBounds) (solution : Solution)
    (targetSnapshot : TargetSnapshotPage Account bounds)
    (voterSnapshot : List (VoterSnapshotPage Account bounds)),
    context.tokenDecimals = decimals →
    let built := buildPredictionsFromSolution libraries context bounds solution targetSnapshot
      voterSnapshot
    built ≠ .panic ∧ ∀ pages validators nominators,
      libraries.checkFeasibility bounds solution (.truncateFrom _ voterSnapshot) targetSnapshot
        context.desiredTargets = .ok pages →
      built = .ok (validators, nominators) →
      List.Forall₂ (ValidatorShown decimals) (validatorViews pages context.desiredTargets)
          validators.results ∧
        List.Forall₂ (NominatorShown decimals)
          (nominatorViews pages context.desiredTargets (allVoters voterSnapshot))
          nominators.nominators

end Shown

section Power

variable {decimals : Nat}

theorem power_fits_iff : 10 ^ decimals < 2 ^ 128 ↔ decimals ≤ 38 := by
  constructor
  · intro fits
    by_contra large
    have grows : 10 ^ 39 ≤ 10 ^ decimals := Nat.pow_le_pow_right (by decide) (by omega)
    omega
  · intro small
    have grows : 10 ^ decimals ≤ 10 ^ 38 := Nat.pow_le_pow_right (by decide) small
    omega

theorem planckToTokenChecked_defined_iff (planck : Nat) (symbol : String) :
    planckToTokenChecked planck decimals symbol ≠ none ↔ 10 ^ decimals < 2 ^ 128 := by
  rw [planckToTokenChecked]
  split
  · next overflows => simp only [ne_eq, not_true_eq_false, false_iff, not_lt, overflows]
  · next fits =>
      have fits : 10 ^ decimals < 2 ^ 128 := Nat.lt_of_not_le fits
      rw [planckToToken_eq fits]
      simpa only [ne_eq, reduceCtorEq, not_false_eq_true, true_iff] using fits

theorem planckToToken_of_zero (zero : 10 ^ decimals % 2 ^ 128 = 0) (planck : Nat)
    (symbol : String) : planckToToken planck decimals symbol = none := by
  rw [planckToToken, if_pos zero]

theorem planckToToken_divisor {symbol text : String}
    (printed : planckToToken (10 ^ decimals % 2 ^ 128) decimals symbol = some text) :
    text = "1 " ++ symbol := by
  have positive : 10 ^ decimals % 2 ^ 128 ≠ 0 := by
    intro zero
    rw [planckToToken_of_zero zero] at printed
    contradiction
  have whole := Nat.div_self (Nat.pos_of_ne_zero positive)
  simp only [planckToToken, if_neg positive, Nat.mod_self, if_pos, whole] at printed
  exact (Option.some.inj printed).symm

theorem fits_of_denotes {symbol text : String}
    (printed : planckToToken (10 ^ decimals % 2 ^ 128) decimals symbol = some text)
    (denotes : Denotes decimals text (10 ^ decimals % 2 ^ 128)) : 10 ^ decimals < 2 ^ 128 := by
  obtain ⟨value, read, exactly⟩ := denotes
  have digit : Nat.toDigits 10 1 = ['1'] := by decide
  have amount : amountOf text = Nat.toDigits 10 1 := by
    rw [planckToToken_divisor printed, amountOf, String.toList_append, digit]
    simp
  rw [amount, readDecimal_whole (isNumeral_toDigits 1), numeralValue,
    Nat.ofDigitChars_ten_toDigits] at read
  cases read
  have power : 10 ^ decimals = 10 ^ decimals % 2 ^ 128 := by
    rw [Nat.cast_one, one_mul] at exactly
    exact_mod_cast exactly
  rw [power]
  exact Nat.mod_lt _ (by decide)

end Power

section Predictions

variable {Account Solution : Type} {libraries : PredictionLibraries Account Solution}
  {context : PredictionContext}

theorem allocations_denote {γ : Type} (shown : Account → String → γ) (stakeOf : γ → String)
    (kept : ∀ account text, stakeOf (shown account text) = text)
    (fits : 10 ^ context.tokenDecimals < 2 ^ 128) {stakes : List (Account × Nat)} {texts : List γ}
    (printed : (stakes.mapM fun entry => do
      pure (shown entry.1 (← context.token entry.2))) = some texts) :
    List.Forall₂ (fun entry text => Denotes context.tokenDecimals (stakeOf text) entry.2)
      stakes texts := by
  refine forall₂_of_mapM_some (fun entry text allocation => ?_) printed
  obtain ⟨amount, stake, given⟩ := Option.bind_eq_some_iff.mp allocation
  cases given
  rw [kept]
  exact denotes_of_printed fits stake

theorem validator_shown (fits : 10 ^ context.tokenDecimals < 2 ^ 128)
    (view : ValidatorView Account) (info : ValidatorInfo)
    (printed : view.print libraries context = some info) :
    ValidatorShown context.tokenDecimals view info := by
  simp only [ValidatorView.print, Option.bind_eq_bind, Option.pure_def,
    Option.bind_eq_some_iff] at printed
  obtain ⟨shown, nominators, total, totalStake, self, selfStake, given⟩ := printed
  cases given
  refine ⟨denotes_of_printed fits totalStake, denotes_of_printed fits selfStake, ?_⟩
  exact allocations_denote (fun account => NominatorAllocation.mk
    (libraries.encodeAccountId account context.ss58Prefix)) NominatorAllocation.allocatedStake
    (fun _ _ => rfl) fits nominators

theorem nominator_shown (fits : 10 ^ context.tokenDecimals < 2 ^ 128)
    (view : NominatorView Account) (prediction : NominatorPrediction)
    (printed : view.print libraries context = some prediction) :
    NominatorShown context.tokenDecimals view prediction := by
  simp only [NominatorView.print, Option.bind_eq_bind, Option.pure_def,
    Option.bind_eq_some_iff] at printed
  obtain ⟨shown, active, total, stake, given⟩ := printed
  cases given
  refine ⟨denotes_of_printed fits stake, ?_⟩
  exact allocations_denote (fun account => ValidatorStakeAllocation.mk
    (libraries.encodeAccountId account context.ss58Prefix)) ValidatorStakeAllocation.allocatedStake
    (fun _ _ => rfl) fits active

theorem totalStake_of_print (view : ValidatorView Account) (info : ValidatorInfo)
    (printed : view.print libraries context = some info) :
    context.token view.totalStake = some info.totalStake := by
  simp only [ValidatorView.print, Option.bind_eq_bind, Option.pure_def,
    Option.bind_eq_some_iff] at printed
  obtain ⟨_, _, _, totalStake, _, _, given⟩ := printed
  rw [totalStake, ← Option.some.inj given]

theorem predictsExactly_of_fits {decimals : Nat} (fits : 10 ^ decimals < 2 ^ 128) :
    PredictsExactly decimals := by
  intro Account Solution _ libraries context bounds solution targetSnapshot voterSnapshot same
  subst same
  refine ⟨fun panics => ?_, fun pages validators nominators feasible built => ?_⟩
  · cases feasible : libraries.checkFeasibility bounds solution (.truncateFrom _ voterSnapshot)
      targetSnapshot context.desiredTargets with
    | error err =>
        rw [buildPredictionsFromSolution, feasible] at panics
        cases panics
    | ok pages =>
        have divisible : 10 ^ context.tokenDecimals % 2 ^ 128 ≠ 0 := by
          rw [Nat.mod_eq_of_lt fits]
          exact (Nat.pow_pos (by decide)).ne'
        obtain ⟨validators, nominators, built⟩ := exists_built feasible divisible
        rw [panics] at built
        cases built
  · obtain ⟨printed, shown⟩ := built_prints feasible built
    exact ⟨forall₂_of_mapM_some (validator_shown fits) printed,
      forall₂_of_mapM_some (nominator_shown fits) shown⟩

end Predictions

section Overflow

def wrappedStake (decimals : Nat) : List (PageSupports Nat) :=
  [[(1, ⟨10 ^ decimals % 2 ^ 128, []⟩)]]

def decimalsContext (decimals : Nat) : PredictionContext := ⟨0, 1, 0, 0, decimals, "DOT", .staking⟩

theorem validatorViews_wrappedStake (decimals : Nat) :
    validatorViews (wrappedStake decimals) 1 = [⟨1, 10 ^ decimals % 2 ^ 128, 0, []⟩] := by
  have bound : 10 ^ decimals % 2 ^ 128 ≤ 2 ^ 128 - 1 :=
    Nat.le_sub_one_of_lt (Nat.mod_lt _ (by decide))
  have order : (ranked (wrappedStake decimals)).Perm [1] := ranked_perm
  have single := List.perm_singleton.mp order
  have merges : merged (wrappedStake decimals) 1 = ⟨10 ^ decimals % 2 ^ 128, []⟩ := by
    have supports : supportsOf (wrappedStake decimals) 1 = [⟨10 ^ decimals % 2 ^ 128, []⟩] := rfl
    rw [merged, totalOf, backing, supports, List.map_singleton, List.sum_singleton,
      Nat.min_eq_left bound]
    rfl
  rw [validatorViews_eq, single]
  simp [validatorView, merges]

theorem fits_of_predictsExactly {decimals : Nat} (predicts : PredictsExactly decimals) :
    10 ^ decimals < 2 ^ 128 := by
  have feasible : (supportsMiner (wrappedStake decimals)).checkFeasibility ⟨1, 1, 1, 1⟩ ()
      (.truncateFrom _ []) ⟨[], by decide⟩ (decimalsContext decimals).desiredTargets =
        .ok (wrappedStake decimals) := rfl
  obtain ⟨returns, exactly⟩ := predicts Nat Unit (supportsMiner (wrappedStake decimals))
    (decimalsContext decimals) ⟨1, 1, 1, 1⟩ () ⟨[], by decide⟩ [] rfl
  obtain ⟨validators, nominators, built⟩ := exists_built_of_ne_panic feasible returns
  have shown := (exactly _ _ _ feasible built).1
  have printed := forall₂_of_mapM_some totalStake_of_print (built_prints feasible built).1
  have views := validatorViews_wrappedStake decimals
  rw [show (decimalsContext decimals).desiredTargets = 1 from rfl, views] at shown printed
  obtain ⟨info, rest, ⟨denotes, _⟩, _, results⟩ := List.forall₂_cons_left_iff.mp shown
  rw [results, List.forall₂_cons] at printed
  exact fits_of_denotes printed.1 denotes

theorem predictsExactly_iff (decimals : Nat) : PredictsExactly decimals ↔ decimals ≤ 38 :=
  ⟨fun predicts => power_fits_iff.mp (fits_of_predictsExactly predicts),
    fun small => predictsExactly_of_fits (power_fits_iff.mpr small)⟩

end Overflow

section Replies

variable {C : PredictChain} {env : Environment (ServerOp C) ServerResp}
variable {history trace : Trace (ServerOp C) ServerResp} {store : Unit}

theorem getSs58Prefix_silent {ss58Prefix : Nat} {event : Event (ServerOp C) ServerResp}
    (ended : run env getSs58Prefix () history = ⟨.ok ss58Prefix, store, trace⟩)
    (member : event ∈ trace) : event.1 ≠ .systemProperties := by
  have silent : (Monitor.issuing ServerResp fun op : ServerOp C =>
      op ≠ .systemProperties).Permits getSs58Prefix :=
    issues_getSs58Prefix (by simp) (by simp)
  have issued := run_issued env history (silent () ())
  rw [ended] at issued
  exact issued event member

theorem decimals_of_getChainProperties {properties : ChainProperties}
    {accountPrefix decimals : Nat} {symbol : String}
    (returned : run env getChainProperties () history =
      ⟨.ok (accountPrefix, decimals, symbol), store, trace⟩)
    (replied : ⟨.systemProperties, .ok properties⟩ ∈ trace) :
    decimals = properties.tokenDecimals.getD 10 := by
  obtain ⟨_, _, _, connected, rfl⟩ := run_read returned
  obtain ⟨response, _, given, described, rfl⟩ := run_read connected
  obtain ⟨ss58Prefix, _, _, _, prefixed, last, rfl⟩ := run_seq_ok described
  obtain ⟨same, rfl⟩ := run_return last
  cases same
  rcases List.mem_cons.mp replied with other | replied
  · cases other
  · rcases List.mem_cons.mp replied with here | later
    · have answered := eq_of_heq (Sigma.mk.inj here).2
      rw [← answered] at given
      rw [Except.ok.inj given]
    · rw [List.append_nil] at later
      exact absurd rfl (getSs58Prefix_silent prefixed later)

end Replies

/-- The amounts are right exactly when the node reports at most 38 decimals, or none. -/
theorem reported_decimals_exact_iff {C : PredictChain} {env : Environment (ServerOp C) ServerResp}
    {history : Trace (ServerOp C) ServerResp} {properties : ChainProperties}
    {accountPrefix decimals : Nat} {symbol : String}
    (returned : (run env getChainProperties () history).outcome =
      .ok (accountPrefix, decimals, symbol))
    (replied : ⟨.systemProperties, .ok properties⟩ ∈
      (run env getChainProperties () history).trace) :
    (∀ planck, planckToTokenChecked planck decimals symbol ≠ none ↔
        ∀ reported, properties.tokenDecimals = some reported → reported ≤ 38) ∧
      (PredictsExactly decimals ↔
        ∀ reported, properties.tokenDecimals = some reported → reported ≤ 38) := by
  rcases ended : run env getChainProperties () history with ⟨outcome, store, trace⟩
  rw [ended] at returned replied
  obtain rfl : outcome = _ := returned
  have small : decimals ≤ 38 ↔
      ∀ reported, properties.tokenDecimals = some reported → reported ≤ 38 := by
    rw [decimals_of_getChainProperties ended replied]
    cases properties.tokenDecimals with
    | none => simp
    | some reported => simp
  refine ⟨fun planck => ?_, ?_⟩
  · rw [planckToTokenChecked_defined_iff, power_fits_iff, small]
  · rw [predictsExactly_iff, small]

def propertiesReply (tokenDecimals : UInt64) : Json :=
  .object [("tokenDecimals", .number (.posInt tokenDecimals)), ("tokenSymbol", .string "DOT")]

def replyingAnswer (reply : Json) : (op : ServerOp samplePredictChain) → ServerResp op
  | .rpcClient => .ok ()
  | .systemProperties => (decodeChainProperties reply).elim (.error "") .ok
  | .atCurrentBlock => .ok 0
  | .ss58Prefix _ => .ok 0
  | op => offline op

def replying (reply : Json) : Environment (ServerOp samplePredictChain) ServerResp :=
  ⟨fun _ => replyingAnswer reply, fun _ _ => false⟩

theorem reported_decimals_exact_iff_ten :
    (run (replying (propertiesReply 10)) getChainProperties () []).outcome = .ok (0, 10, "DOT") ∧
      planckToTokenChecked 15 10 "DOT" ≠ none ∧ PredictsExactly 10 := by
  have returned : (run (replying (propertiesReply 10)) getChainProperties () []).outcome =
      .ok (0, 10, "DOT") := rfl
  have replied : ⟨.systemProperties, .ok ⟨some "DOT", some 10⟩⟩ ∈
      (run (replying (propertiesReply 10)) getChainProperties () []).trace :=
    List.mem_of_getElem? (i := 1) rfl
  have ⟨defined, predicts⟩ := reported_decimals_exact_iff returned replied
  refine ⟨returned, (defined 15).mpr ?_, predicts.mpr ?_⟩
  · rintro reported ⟨⟩
    decide
  · rintro reported ⟨⟩
    decide

/-- With 39 decimals a checked build panics on every amount, and a wrapping one prints less than
a third of a token as one token; with 128 decimals it divides by zero. -/
theorem reported_decimals_overflow :
    (run (replying (propertiesReply 39)) getChainProperties () []).outcome = .ok (0, 39, "DOT") ∧
      (∀ planck, planckToTokenChecked planck 39 "DOT" = none) ∧
      3 * (10 ^ 39 % 2 ^ 128) < 10 ^ 39 ∧
      planckToToken (10 ^ 39 % 2 ^ 128) 39 "DOT" = some "1 DOT" ∧
      ¬PredictsExactly 39 ∧
      (run (replying (propertiesReply 128)) getChainProperties () []).outcome =
        .ok (0, 128, "DOT") ∧
      ∀ planck, planckToToken planck 128 "DOT" = none := by
  refine ⟨rfl, fun planck => if_pos (by decide), by decide, by decide, ?_, rfl,
    fun planck => planckToToken_of_zero (by decide) planck "DOT"⟩
  rw [predictsExactly_iff]
  decide

end LeanStakingMiner
