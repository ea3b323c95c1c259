import Mathlib.Data.Prod.Lex
import StakingMiner.LexMargin
import StakingMiner.MinerCore

/-!
`score_better` against the best registered score. The code compares with every registered
score, the strategies speak of the best one; with a threshold the two differ where a lower
score is close enough on one component for a later one to decide.
-/

namespace LeanStakingMiner

open LeanProgram LeanMargin

variable {T : MinerConfig}

def accuracy : Nat := 1000000000

theorem accuracy_pos : 0 < accuracy := Nat.succ_pos _

def mulCeil (epsilon : Perbill) (value : Nat) : Nat := epsilon * value ⌈/⌉ accuracy

/-- `ThresholdOrd::tcmp` of the SDK. No value exceeds a bound that saturates, so the bounds
need not saturate here. -/
def tcmp (this that threshold : Nat) : Ordering :=
  if threshold = 0 then compare this that
  else if that + threshold < this then .gt
  else if this < that - threshold then .lt
  else .eq

def compareComponent (threshold : Perbill) (this that : Nat) : Bool × Ordering :=
  (decide (that ≤ this), tcmp this that (mulCeil threshold that))

def firstDecides : Bool × Ordering → Bool × Ordering → Bool × Ordering → Bool
  | (_, .gt), _, _ => true
  | (true, .eq), (_, .gt), _ => true
  | (true, .eq), (true, .eq), (_, .lt) => true
  | _, _, _ => false

/-- `ElectionScore::strict_threshold_better` of the SDK. -/
def strictThresholdBetter (this that : ElectionScore) (threshold : Perbill) : Bool :=
  firstDecides (compareComponent threshold this.minimalStake that.minimalStake)
    (compareComponent threshold this.sumStake that.sumStake)
    (compareComponent threshold this.sumStakeSquared that.sumStakeSquared)

theorem tcmp_gt_iff (this that threshold : Nat) :
    tcmp this that threshold = .gt ↔ that + threshold < this := by
  unfold tcmp
  split
  · rename_i zero
    simp [zero, compare_gt_iff_gt]
  · split
    · simpa
    · split <;> simp <;> omega

theorem tcmp_lt_iff (this that threshold : Nat) :
    tcmp this that threshold = .lt ↔ this < that - threshold := by
  unfold tcmp
  split
  · rename_i zero
    simp [zero, compare_lt_iff_lt]
  · split
    · simp
      omega
    · split <;> simp <;> omega

def stakeMargin (epsilon : Perbill) : Margin Nat := Margin.above epsilon accuracy

def squaredMargin (epsilon : Perbill) : Margin Natᵒᵈ :=
  Margin.below epsilon accuracy accuracy_pos

def ElectionScore.parts (score : ElectionScore) : Nat × Nat × Natᵒᵈ :=
  (score.minimalStake, score.sumStake, OrderDual.toDual score.sumStakeSquared)

def ElectionScore.rank (score : ElectionScore) : Nat ×ₗ Nat ×ₗ Natᵒᵈ :=
  toLex (score.minimalStake, toLex (score.sumStake, OrderDual.toDual score.sumStakeSquared))

def StakeBetter (epsilon : Perbill) : Nat × Natᵒᵈ → Nat × Natᵒᵈ → Prop :=
  (stakeMargin epsilon).Beats (squaredMargin epsilon).Exceeds

def Better (epsilon : Perbill) : Nat × Nat × Natᵒᵈ → Nat × Nat × Natᵒᵈ → Prop :=
  (stakeMargin epsilon).Beats (StakeBetter epsilon)

def decided (component : Bool × Ordering) (rest : Bool) : Bool :=
  match component.2 with
  | .gt => true
  | .eq => component.1 && rest
  | .lt => false

theorem firstDecides_eq (first second third : Bool × Ordering) :
    firstDecides first second third = decided first (decided second (third.2 == .lt)) := by
  obtain ⟨firstMeets, firstOrder⟩ := first
  obtain ⟨secondMeets, secondOrder⟩ := second
  obtain ⟨thirdMeets, thirdOrder⟩ := third
  cases firstOrder <;> cases firstMeets <;> cases secondOrder <;> cases secondMeets <;>
    cases thirdOrder <;> rfl

theorem decided_iff (threshold : Perbill) (this that : Nat) (rest : Bool) :
    decided (compareComponent threshold this that) rest = true ↔
      (stakeMargin threshold).Exceeds this that ∨
        (stakeMargin threshold).Within this that ∧ rest = true := by
  change _ ↔ that + mulCeil threshold that < this ∨
    (that ≤ this ∧ this ≤ that + mulCeil threshold that) ∧ rest = true
  rw [decided, compareComponent]
  generalize mulCeil threshold that = margin
  cases order : tcmp this that margin with
  | gt =>
      have exceeds := (tcmp_gt_iff this that margin).mp order
      simp [exceeds]
  | lt =>
      have lower := (tcmp_lt_iff this that margin).mp order
      simp only [Bool.false_eq_true, false_iff]
      omega
  | eq =>
      have near : ¬ that + margin < this := by
        rw [← tcmp_gt_iff, order]
        nofun
      simp [near, not_lt.mp near]

theorem squared_exceeds_iff (threshold : Perbill) (this that : Nat) :
    (squaredMargin threshold).Exceeds (OrderDual.toDual this) (OrderDual.toDual that) ↔
      (compareComponent threshold this that).2 = .lt := by
  rw [compareComponent, tcmp_lt_iff]
  exact below_exceeds_iff threshold accuracy accuracy_pos this that

theorem strictThresholdBetter_iff (this that : ElectionScore) (threshold : Perbill) :
    strictThresholdBetter this that threshold = true ↔
      Better threshold this.parts that.parts := by
  rw [strictThresholdBetter, firstDecides_eq, decided_iff, decided_iff, beq_iff_eq,
    ← squared_exceeds_iff]
  rw [Better, Margin.Beats, StakeBetter, Margin.Beats]
  simp only [ElectionScore.parts]

theorem rank_le {other best : ElectionScore} (below : other.rank ≤ best.rank) :
    other.parts.1 ≤ best.parts.1 ∧ (other.parts.1 = best.parts.1 →
      other.parts.2.1 ≤ best.parts.2.1 ∧ (other.parts.2.1 = best.parts.2.1 →
        other.parts.2.2 ≤ best.parts.2.2)) := by
  rcases Prod.Lex.toLex_le_toLex.mp below with lower | ⟨same, later⟩
  · exact ⟨lower.le, fun same => absurd same lower.ne⟩
  · refine ⟨same.le, fun _ => ?_⟩
    rcases Prod.Lex.toLex_le_toLex.mp later with lower | ⟨same, last⟩
    · exact ⟨lower.le, fun same => absurd same lower.ne⟩
    · exact ⟨same.le, fun _ => last⟩

/-- A registered score below the best that the comparison with the best does not settle.
With `ClaimBetterThan` it is close enough to ours on a stake for a later component to count,
and we do not win there. With `ClaimNoWorseThan` it is level with ours on a stake on which
the best is higher, and it wins on a later component. -/
def Unsettled (ours best other : ElectionScore) : SubmissionStrategy → Prop
  | .always | .ifLeading => False
  | .claimBetterThan epsilon =>
      (stakeMargin epsilon).LeavesOpen (StakeBetter epsilon)
        ((stakeMargin epsilon).LeavesOpen (squaredMargin epsilon).Exceeds fun _ _ _ => False)
        ours.parts best.parts other.parts
  | .claimNoWorseThan epsilon =>
      Overtakes (StakeBetter epsilon)
        (Overtakes (squaredMargin epsilon).Exceeds fun _ _ _ => False)
        ours.parts best.parts other.parts

theorem better_other_iff {epsilon : Perbill} {ours best other : ElectionScore}
    (below : other.rank ≤ best.rank) (beats : Better epsilon ours.parts best.parts) :
    Better epsilon ours.parts other.parts ↔
      ¬ Unsettled ours best other (.claimBetterThan epsilon) := by
  obtain ⟨first, sameFirst⟩ := rank_le below
  refine Margin.Beats.other_iff beats first fun same won => ?_
  obtain ⟨second, sameSecond⟩ := sameFirst same
  refine Margin.Beats.other_iff won second fun level exceeds => ?_
  simp only [not_false_eq_true, iff_true]
  exact exceeds.of_le (sameSecond level)

theorem other_better_iff {epsilon : Perbill} {ours best other : ElectionScore}
    (below : other.rank ≤ best.rank) (unbeaten : ¬ Better epsilon best.parts ours.parts) :
    Better epsilon other.parts ours.parts ↔
      Unsettled ours best other (.claimNoWorseThan epsilon) := by
  obtain ⟨first, sameFirst⟩ := rank_le below
  refine other_beats_iff unbeaten first fun same lost => ?_
  obtain ⟨second, sameSecond⟩ := sameFirst same
  refine other_beats_iff lost second fun level behind => ?_
  simp only [iff_false]
  exact fun exceeds => behind (lt_of_lt_of_le exceeds (sameSecond level))

theorem stakeMargin_zero (value : Nat) : (stakeMargin 0).upper value = value := by
  simp [stakeMargin, Margin.above]

theorem zero_settled {ours best other : ElectionScore}
    (beats : Better 0 ours.parts best.parts) :
    ¬ Unsettled ours best other (.claimBetterThan 0) := by
  rintro ⟨near, ⟨lower, _⟩ | ⟨same, sumNear, ⟨sumLower, _⟩ | ⟨_, never⟩⟩⟩
  · rw [stakeMargin_zero] at near
    exact absurd (lower.trans_le beats.first_le) (not_lt.mpr near)
  · have won := beats.won (same ▸ near)
    rw [stakeMargin_zero] at sumNear
    exact absurd (sumLower.trans_le won.first_le) (not_lt.mpr sumNear)
  · exact never

theorem passes_other_iff (sdk : T.strictThresholdBetter = strictThresholdBetter)
    {strategy : SubmissionStrategy} {ours best other : ElectionScore}
    (below : other.rank ≤ best.rank) (passed : scorePassesStrategy T ours best strategy = true) :
    scorePassesStrategy T ours other strategy = true ↔ ¬ Unsettled ours best other strategy := by
  cases strategy with
  | always => simp [scorePassesStrategy, Unsettled]
  | ifLeading =>
      simp only [scorePassesStrategy, sdk, strictThresholdBetter_iff] at passed ⊢
      rw [better_other_iff below passed]
      exact iff_of_true (zero_settled passed) (not_false)
  | claimBetterThan epsilon =>
      simp only [scorePassesStrategy, sdk, strictThresholdBetter_iff] at passed ⊢
      exact better_other_iff below passed
  | claimNoWorseThan epsilon =>
      simp only [scorePassesStrategy, sdk, Bool.not_eq_true', ← Bool.not_eq_true,
        strictThresholdBetter_iff] at passed ⊢
      exact not_congr (other_better_iff below passed)

theorem scoreBetter_run (env : MinerEnv T) (history : MinerTrace T) (storage : AtBlock)
    (score : ElectionScore) (round : Nat) (strategy : SubmissionStrategy)
    {scores : List (AccountId × ElectionScore)}
    (read : env.answer history (.sortedScores storage round) = .ok scores) :
    (run env (scoreBetter storage score round strategy) () history).outcome =
      .ok (scores.all fun entry => scorePassesStrategy T score entry.2 strategy) := by
  change (run env (Program.bind (rpc (env.answer history (.sortedScores storage round))) _) ()
    _).outcome = _
  rw [read]
  rfl

abbrev scoreConfig : MinerConfig := { sampleConfig with strictThresholdBetter }

-- The cases of the source's own test of the two percent strategies.
example : [50, 100, 102, 103].map (fun stake => scorePassesStrategy scoreConfig ⟨stake, 0, 0⟩
    ⟨100, 0, 0⟩ (.claimBetterThan 20000000)) = [false, false, false, true] := by decide

example : [50, 97, 98, 103].map (fun stake => scorePassesStrategy scoreConfig ⟨stake, 0, 0⟩
    ⟨100, 0, 0⟩ (.claimNoWorseThan 20000000)) = [false, false, true, true] := by decide

/-- `score_better` agrees with the comparison against the best registered score exactly when
we do not pass the best or it leaves no registered score unsettled. -/
theorem score_better_matches_best_iff (sdk : T.strictThresholdBetter = strictThresholdBetter)
    (env : MinerEnv T) (history : MinerTrace T) (storage : AtBlock) (score : ElectionScore)
    (round : Nat) (strategy : SubmissionStrategy) (scores : List (AccountId × ElectionScore))
    (read : env.answer history (.sortedScores storage round) = .ok scores) :
    let better := (run env (scoreBetter storage score round strategy) () history).outcome
    (scores = [] → better = .ok true) ∧
      ∀ best ∈ scores.map Prod.snd, (∀ other ∈ scores.map Prod.snd, other.rank ≤ best.rank) →
        ((better = .ok true ↔ scorePassesStrategy T score best strategy = true) ↔
          (scorePassesStrategy T score best strategy = true →
            ∀ other ∈ scores.map Prod.snd, ¬ Unsettled score best other strategy)) := by
  intro better
  have returned : better = .ok true ↔
      ∀ other ∈ scores.map Prod.snd, scorePassesStrategy T score other strategy = true := by
    rw [show better = _ from scoreBetter_run env history storage score round strategy read]
    simp only [Outcome.ok.injEq, List.all_eq_true, List.forall_mem_map]
  refine ⟨fun empty => returned.mpr (by simp [empty]), fun best member greatest => ?_⟩
  rw [returned]
  constructor
  · intro agrees passed other registered
    exact (passes_other_iff sdk (greatest other registered) passed).mp
      (agrees.mpr passed other registered)
  · intro settled
    refine ⟨fun all => all best member, fun passed other registered => ?_⟩
    exact (passes_other_iff sdk (greatest other registered) passed).mpr
      (settled passed other registered)

def scoreAnswer (scores : List (AccountId × ElectionScore)) : (op : Op scoreConfig) → Resp op
  | .sortedScores _ _ => .ok scores
  | op => unavailable op

def scoreNode (scores : List (AccountId × ElectionScore)) : MinerEnv scoreConfig :=
  ⟨fun _ => scoreAnswer scores, fun _ _ => false⟩

theorem score_better_matches_best_iff_two :
    let ours : ElectionScore := ⟨103, 0, 0⟩
    let best : ElectionScore := ⟨100, 100, 0⟩
    let lower : ElectionScore := ⟨90, 1000, 0⟩
    (run (scoreNode [(1, lower), (2, best)])
        (scoreBetter 50 ours 7 (.claimBetterThan 20000000)) () []).outcome = .ok true ↔
      scorePassesStrategy scoreConfig ours best (.claimBetterThan 20000000) = true := by
  intro ours best lower
  have below : lower.rank ≤ best.rank := Prod.Lex.toLex_le_toLex.mpr (Or.inl (by decide))
  have greatest (other) (listed : other ∈ [lower, best]) : other.rank ≤ best.rank := by
    rcases List.mem_pair.mp listed with rfl | rfl
    · exact below
    · exact le_rfl
  refine ((score_better_matches_best_iff (T := scoreConfig) rfl
    (scoreNode [(1, lower), (2, best)]) [] 50 ours 7 (.claimBetterThan 20000000)
    [(1, lower), (2, best)] rfl).2 best (by simp) greatest).mpr fun passed other listed => ?_
  refine (passes_other_iff rfl (greatest other listed) passed).mp ?_
  rcases List.mem_pair.mp listed with rfl | rfl
  · decide
  · exact passed

/-- Our score beats the best one by its total stake. A registered score with a slightly lower
minimal stake is within two percent of ours there and has the higher total. -/
theorem score_better_stopped_by_lower_score :
    let ours : ElectionScore := ⟨100, 200, 0⟩
    let best : ElectionScore := ⟨100, 100, 0⟩
    let other : ElectionScore := ⟨99, 1000, 0⟩
    other.rank ≤ best.rank ∧
      scorePassesStrategy scoreConfig ours best (.claimBetterThan 20000000) = true ∧
      (run (scoreNode [(1, other), (2, best)])
        (scoreBetter 50 ours 7 (.claimBetterThan 20000000)) () []).outcome = .ok false := by
  intro ours best other
  refine ⟨Prod.Lex.toLex_le_toLex.mpr (Or.inl (by decide)), by decide, by decide⟩

end LeanStakingMiner
