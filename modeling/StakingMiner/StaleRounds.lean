import StakingMiner.MinerLogic
import StakingMiner.ProgramTrace

/-!
Submitting while the chain moves on. Heads are read from a chain that gives every block
a phase and a round; `submit` looks at the phase of the head alone, so a later signed
phase lets it register a score in another round.
-/

namespace LeanStakingMiner

open LeanProgram

variable {T : MinerConfig}

structure RoundChain where
  phase : AtBlock → Phase
  round : AtBlock → Nat

def nextHead (head : AtBlock) : (op : Op T) → Resp op → AtBlock
  | .storageAtHead, .ok newer => newer
  | _, _ => head

def headRead (first : AtBlock) : MinerTrace T → AtBlock
  | [] => first
  | ⟨op, answer⟩ :: rest => headRead (nextHead first op answer) rest

/-- Heads never go back and stay up to `last`; the phase is the one of the block read. -/
def headMonitor (chain : RoundChain) (last : AtBlock) (round : Nat) :
    Monitor (Op T) Resp AtBlock where
  expects head op answer :=
    match op, answer with
    | .storageAtHead, .ok newer => head ≤ newer ∧ newer ≤ last
    | .currentPhase _ storage, .ok phase => phase = some (chain.phase storage)
    | _, _ => True
  allows head op := op.kind = .register → chain.round head = round
  next := nextHead

variable {chain : RoundChain} {first head last : AtBlock} {round minBlocks : Nat}

@[simp] theorem headMonitor_allows (op : Op T) :
    (headMonitor chain last round).allows head op ↔
      (op.kind = .register → chain.round head = round) := Iff.rfl

@[simp] theorem headMonitor_next (op : Op T) (answer : Resp op) :
    (headMonitor chain last round).next head op answer = nextHead head op answer := rfl

theorem headMonitor_accepts {trace : MinerTrace T} {before after : MinerTrace T}
    {event : Event (Op T) Resp}
    (accepted : (headMonitor chain last round).Accepts first trace)
    (split : trace = before ++ event :: after) (registers : event.1.kind = .register) :
    chain.round (headRead first before) = round := by
  subst split
  induction before generalizing first with
  | nil => exact accepted.1 registers
  | cons earlier rest ih => exact ih accepted.2

/-- No signed phase long enough to submit in belongs to another round. -/
def SignedInRound (chain : RoundChain) (first last : AtBlock) (minBlocks round : Nat) : Prop :=
  ∀ head, first ≤ head → head ≤ last → ∀ blocks, chain.phase head = .signed blocks →
    minBlocks < blocks → chain.round head = round

theorem headMonitor_still {kinds : List OpKind} (still : .head ∉ kinds)
    (inRound : chain.round head = round) (op : Op T) (member : op.kind ∈ kinds) :
    (headMonitor chain last round).Ignores head op := by
  refine ⟨fun _ => inRound, fun answer => ?_⟩
  cases op <;> first | exact absurd member still | rfl

theorem Issues.silent {kinds : List OpKind} {task : Task T Unit} {post : Outcome Error Unit → Prop}
    (issues : Issues kinds task post) (silent : .register ∉ kinds) :
    wp (headMonitor chain last round) task (fun outcome _ _ => post outcome) () head := by
  refine wp_free_of_issuing issues ?_
  intro head op member registers
  rw [registers] at member
  exact absurd member silent

theorem validated_head (validRound : Nat) {rest : Phase → Task T Unit}
    (second : ∀ head blocks, first ≤ head → head ≤ last → chain.phase head = .signed blocks →
      minBlocks < blocks →
      wp (headMonitor chain last round) (rest (.signed blocks)) (fun _ _ _ => True) () head) :
    wp (headMonitor chain last round) (do
        let phase ← readPhase .validation
        validateSignedPhaseOrBail phase validRound minBlocks
        rest phase) (fun _ _ _ => True) () first := by
  simp only [readPhase, wp_bind, wp_ask, followedBy_ok]
  refine ⟨by simp [Op.kind], ?_⟩
  rintro (error | head) bounds
  · trivial
  refine ⟨by simp [Op.kind], ?_⟩
  rintro (error | found) shown
  · trivial
  change wp _ (validateSignedPhaseOrBail (found.getD .off) validRound minBlocks >>=
    fun _ => rest (found.getD .off)) _ () head
  rw [wp_bind]
  have phaseRead : found.getD .off = chain.phase head := by
    rw [show found = some (chain.phase head) from shown]
    rfl
  have validated : Issues _ (validateSignedPhaseOrBail (found.getD .off) validRound minBlocks) _ :=
    validateSignedPhaseOrBail_issues (T := T) (found.getD .off) validRound minBlocks
  by_cases long : ∃ blocks, found.getD .off = .signed blocks ∧ minBlocks < blocks
  · obtain ⟨blocks, signed, enough⟩ := long
    rw [signed]
    have short : ¬blocks ≤ minBlocks := by omega
    simp only [validateSignedPhaseOrBail, short, ↓reduceIte, wp_return, followedBy_ok]
    exact second head blocks bounds.1 bounds.2 (phaseRead.symm.trans signed) enough
  · refine wp_mono (validated.silent (by simp)) ?_
    rintro (_ | error | _) _ after ⟨_, passed⟩
    · exact absurd (passed rfl) long
    · trivial
    · trivial

theorem submit_head (solution : PagedRawSolution T) (chunkSize : Nat)
    (inRound : SignedInRound chain first last minBlocks round) :
    wp (headMonitor chain last round) (submit solution chunkSize round minBlocks)
      (fun _ _ _ => True) () first := by
  refine validated_head round fun head blocks newer upTo phase enough => ?_
  have same := inRound head newer upTo blocks phase enough
  refine (registerAndConfirm_issues solution.score blocks).seq
    (headMonitor_still (by simp) same) ?_ (fun _ _ => trivial) (fun _ => trivial)
  intro _ _
  have others : Issues [.head, .phase, .submission, .other, .nonce, .bail, .page, .events] (do
      revalidate round minBlocks
      submitAllPages solution.solutionPages chunkSize round minBlocks) fun _ => True :=
    ((revalidate_issues round minBlocks).mono (by simp) fun _ holds => holds).andThen
      fun _ => submitAllPages_issues solution.solutionPages chunkSize round minBlocks
  exact others.silent (by simp)

def RegistersIn (chain : RoundChain) (round : Nat) (first : AtBlock) (trace : MinerTrace T) : Prop :=
  ∀ before score nonce mortality answer after,
    trace = before ++ ⟨.submitAndWatch (.registerScore score) nonce mortality, answer⟩ :: after →
      chain.round (headRead first before) = round

def headAnswers (head : AtBlock) (blocks : Nat) : (op : Op T) → Resp op
  | .storageAtHead => .ok head
  | .currentPhase _ _ => .ok (some (.signed blocks))
  | .accountNonce | .atCurrentBlock => .ok 0
  | .createSigned _ _ => .ok ()
  | .submitAndWatch _ _ _ => .ok 0
  | op => unavailable op

theorem submit_trace_at (solution : PagedRawSolution T) (chunkSize round head : Nat)
    {minBlocks blocks : Nat} (enough : minBlocks < blocks) :
    (run ⟨fun _ => headAnswers head blocks, fun _ _ => false⟩
      (submit solution chunkSize round minBlocks) () []).trace =
      [⟨.storageAtHead, .ok head⟩, ⟨.currentPhase .validation head, .ok (some (.signed blocks))⟩,
        ⟨.accountNonce, .ok 0⟩, ⟨.atCurrentBlock, .ok 0⟩,
        ⟨.createSigned (.registerScore solution.score) 0, .ok ()⟩,
        ⟨.submitAndWatch (.registerScore solution.score) 0 (some ((blocks + 1) % 2 ^ 32)), .ok 0⟩,
        ⟨.waitForFinalized 0, .error .backendError⟩] := by
  have short : ¬blocks ≤ minBlocks := by omega
  have validated : (validateSignedPhaseOrBail (.signed blocks) round minBlocks : Task T Unit) =
      pure () := by
    simp only [validateSignedPhaseOrBail, short, ↓reduceIte]
  change (Result.prepend _ (Result.prepend _ (run _
    (validateSignedPhaseOrBail (.signed blocks) round minBlocks >>= _) () _))).trace = _
  rw [validated, return_bind]
  rfl

/-- Every score is registered in its own round exactly when no later head shows another
round's signed phase with enough blocks left. -/
theorem submit_registers_in_round_iff (chain : RoundChain) (solution : PagedRawSolution T)
    (chunkSize minBlocks : Nat) (first last : AtBlock) :
    (∀ env : MinerEnv T,
      let trace := (run env (submit solution chunkSize solution.round minBlocks) () []).trace
      (headMonitor chain last solution.round).Expected first trace →
        RegistersIn chain solution.round first trace) ↔
      SignedInRound chain first last minBlocks solution.round := by
  constructor
  · intro registers head newer upTo blocks signed enough
    have inRound := registers ⟨fun _ => headAnswers head blocks, fun _ _ => false⟩
    rw [submit_trace_at solution chunkSize solution.round head enough] at inRound
    have expected := inRound ⟨⟨newer, upTo⟩, congrArg some signed.symm, trivial, trivial, trivial,
      trivial, trivial, trivial⟩
    exact expected [_, _, _, _, _] _ _ _ _ _ rfl
  · intro inRound env trace expected before score nonce mortality answer after split
    have accepted := (wp_run env [] (submit_head solution chunkSize inRound) expected).1
    exact headMonitor_accepts accepted split rfl

def twoRounds : RoundChain where
  phase head := if head = 100 ∨ head = 150 then .signed 20 else .off
  round head := if head < 150 then 7 else 8

/-- A block queued in round 7 is handled after round 8's signed phase has begun. -/
theorem submit_registers_stale_score :
    let trace := (run ⟨fun _ => headAnswers 150 20, fun _ _ => false⟩
      (submit (⟨[3], ⟨1, 1, 1⟩, 7⟩ : PagedRawSolution sampleConfig) 0 7 10) () []).trace
    (headMonitor twoRounds 150 7).Expected 100 trace ∧ ¬RegistersIn twoRounds 7 100 trace := by
  have sent := submit_trace_at (⟨[3], ⟨1, 1, 1⟩, 7⟩ : PagedRawSolution sampleConfig) 0 7 150
    (show 10 < 20 by decide)
  simp only [sent]
  constructor
  · exact ⟨(by decide : 100 ≤ 150 ∧ 150 ≤ 150), rfl, trivial, trivial, trivial, trivial, trivial,
      trivial⟩
  · intro registers
    exact absurd (registers [_, _, _, _, _] _ _ _ _ _ rfl) (by decide)

end LeanStakingMiner
