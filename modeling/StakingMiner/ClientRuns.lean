import StakingMiner.ClientLogic
import StakingMiner.ProcessLogic
import StakingMiner.ProgramEnds

/-!
Concurrent failovers of one client. Every interleaving of `reconnect` calls keeps the
shared fields consistent whenever the write lock is free, and of the calls that started
from one generation at most one installs its client.
-/

namespace LeanStakingMiner

open LeanProgram

section Shared

variable {ι : Type} [DecidableEq ι] {endpoints : List String} {world : ClientWorld}
variable {ghosts : ι → CallGhost} {call : ι}

def CallPhase.holds : CallPhase → Bool
  | .outside | .returned => false
  | _ => true

def CallPhase.writing : CallPhase → Bool
  | .installed _ | .indexed => true
  | _ => false

theorem CallPhase.holds_of_writing {phase : CallPhase} (writing : phase.writing = true) :
    phase.holds = true := by
  cases phase <;> first | rfl | cases writing

namespace ClientWorld

def Indexed (endpoints : List String) (world : ClientWorld) : Prop :=
  endpoints[world.currentEndpointIndex]? = some world.chainApi.uri

def Uncounted (world : ClientWorld) (ghost : CallGhost) : Prop :=
  ghost.wrote = true ∧ ghost.captured = some world.reconnectGeneration ∧ 0 < world.installs ∧
    world.reconnectGeneration = (world.installs - 1) % 2 ^ 64

def Fits (endpoints : List String) (world : ClientWorld) (ghost : CallGhost) : Prop :=
  match ghost.phase with
  | .current => ghost.captured = some world.reconnectGeneration
  | .installed client => world.chainApi = client ∧ world.Uncounted ghost
  | .indexed => world.Indexed endpoints ∧ world.Uncounted ghost
  | _ => True

theorem fits_of_outside {ghost : CallGhost} (outside : ghost.phase.holds = false) :
    world.Fits endpoints ghost := by
  unfold Fits
  cases phase : ghost.phase <;> first | trivial | (rw [phase] at outside; cases outside)

end ClientWorld

structure SharedFields (endpoints : List String) (world : ClientWorld) (ghosts : ι → CallGhost) :
    Prop where
  exclusive : Exclusive (fun call => (ghosts call).phase.holds = true) world.locked
  fits : ∀ call, world.Fits endpoints (ghosts call)
  settled : (∀ call, (ghosts call).phase.writing = false) → world.Indexed endpoints ∧
    world.reconnectGeneration = world.installs % 2 ^ 64
  failed : ∀ call, (ghosts call).failed = true →
    (ghosts call).phase = .returned ∧ (ghosts call).wrote = false

omit [DecidableEq ι] in
theorem SharedFields.others_outside (shared : SharedFields endpoints world ghosts)
    (holds : (ghosts call).phase.holds = true) (other : ι) (apart : other ≠ call) :
    (ghosts other).phase.holds = false :=
  Bool.eq_false_iff.mpr (shared.exclusive.alone holds apart)

omit [DecidableEq ι] in
theorem SharedFields.others_idle (shared : SharedFields endpoints world ghosts)
    (holds : (ghosts call).phase.holds = true) (other : ι) (apart : other ≠ call) :
    (ghosts other).phase.writing = false := by
  refine Bool.eq_false_iff.mpr fun writing => ?_
  exact shared.exclusive.alone holds apart (CallPhase.holds_of_writing writing)

omit [DecidableEq ι] in
theorem SharedFields.captured_of_current (shared : SharedFields endpoints world ghosts)
    (current : (ghosts call).phase = .current) :
    (ghosts call).captured = some world.reconnectGeneration := by
  have fits := shared.fits call
  unfold ClientWorld.Fits at fits
  rwa [current] at fits

omit [DecidableEq ι] in
theorem SharedFields.of_installed (shared : SharedFields endpoints world ghosts)
    {client : ChainClient} (installed : (ghosts call).phase = .installed client) :
    world.chainApi = client ∧ world.Uncounted (ghosts call) := by
  have fits := shared.fits call
  unfold ClientWorld.Fits at fits
  rwa [installed] at fits

omit [DecidableEq ι] in
theorem SharedFields.of_indexed (shared : SharedFields endpoints world ghosts)
    (indexed : (ghosts call).phase = .indexed) :
    world.Indexed endpoints ∧ world.Uncounted (ghosts call) := by
  have fits := shared.fits call
  unfold ClientWorld.Fits at fits
  rwa [indexed] at fits

omit [DecidableEq ι] in
theorem SharedFields.settled_of_others (shared : SharedFields endpoints world ghosts)
    (own : (ghosts call).phase.writing = false)
    (others : ∀ other, other ≠ call → (ghosts other).phase.writing = false) :
    world.Indexed endpoints ∧ world.reconnectGeneration = world.installs % 2 ^ 64 := by
  refine shared.settled fun other => ?_
  by_cases same : other = call
  · rwa [same]
  · exact others other same

theorem exclusive_update {locked : Bool} {ghost : CallGhost}
    (exclusive : Exclusive (fun call => (ghosts call).phase.holds = true) locked)
    (same : ghost.phase.holds = true → (ghosts call).phase.holds = true) :
    Exclusive (fun other => (Function.update ghosts call ghost other).phase.holds = true)
      locked :=
  exclusive.update (fun ghost : CallGhost => ghost.phase.holds = true) same

theorem SharedFields.update (shared : SharedFields endpoints world ghosts) {after : ClientWorld}
    {ghost : CallGhost}
    (exclusive : Exclusive
      (fun other => (Function.update ghosts call ghost other).phase.holds = true) after.locked)
    (own : after.Fits endpoints ghost)
    (others : ∀ other, other ≠ call → after.Fits endpoints (ghosts other))
    (settled : ghost.phase.writing = false →
      (∀ other, other ≠ call → (ghosts other).phase.writing = false) →
        after.Indexed endpoints ∧ after.reconnectGeneration = after.installs % 2 ^ 64)
    (failed : ghost.failed = true → ghost.phase = .returned ∧ ghost.wrote = false) :
    SharedFields endpoints after (Function.update ghosts call ghost) := by
  refine ⟨exclusive, ?_, ?_, ?_⟩
  · exact (Function.forall_update_iff ghosts fun _ ghost => after.Fits endpoints ghost).mpr
      ⟨own, others⟩
  · intro quiet
    obtain ⟨ownQuiet, othersQuiet⟩ :=
      (Function.forall_update_iff ghosts fun _ ghost => ghost.phase.writing = false).mp quiet
    exact settled ownQuiet othersQuiet
  · exact (Function.forall_update_iff ghosts fun _ ghost =>
      ghost.failed = true → ghost.phase = .returned ∧ ghost.wrote = false).mpr
      ⟨failed, fun other _ => shared.failed other⟩

theorem SharedFields.updateRunning (shared : SharedFields endpoints world ghosts)
    {after : ClientWorld} {ghost : CallGhost} (running : (ghosts call).phase ≠ .returned)
    (failed : ghost.failed = (ghosts call).failed)
    (exclusive : Exclusive
      (fun other => (Function.update ghosts call ghost other).phase.holds = true) after.locked)
    (own : after.Fits endpoints ghost)
    (others : ∀ other, other ≠ call → after.Fits endpoints (ghosts other))
    (settled : ghost.phase.writing = false →
      (∀ other, other ≠ call → (ghosts other).phase.writing = false) →
        after.Indexed endpoints ∧ after.reconnectGeneration = after.installs % 2 ^ 64) :
    SharedFields endpoints after (Function.update ghosts call ghost) := by
  refine shared.update exclusive own others settled ?_
  intro fails
  exact absurd (shared.failed call (failed.symm.trans fails)).1 running

theorem SharedFields.loadGeneration (shared : SharedFields endpoints world ghosts) :
    SharedFields endpoints world (Function.update ghosts call
      ((ghosts call).next .loadGeneration world.reconnectGeneration)) := by
  have fits := shared.fits call
  by_cases checked : (ghosts call).phase = .locked ∧
      (ghosts call).captured = some world.reconnectGeneration
  · have known : (ghosts call).next .loadGeneration world.reconnectGeneration =
        { ghosts call with phase := .current } := by
      simp [CallGhost.next, checked]
    rw [known]
    refine shared.updateRunning (by simp [checked.1]) rfl (exclusive_update shared.exclusive ?_)
      checked.2 (fun other _ => shared.fits other) ?_
    · intro _
      rw [checked.1]
      rfl
    · intro _ others
      exact shared.settled_of_others (by rw [checked.1]; rfl) others
  · have known : (ghosts call).next .loadGeneration world.reconnectGeneration =
        { ghosts call with
          captured := (ghosts call).captured.or (some world.reconnectGeneration) } := by
      simp only [CallGhost.next, if_neg checked]
    rw [known]
    refine shared.update (exclusive_update shared.exclusive id) ?_
      (fun other _ => shared.fits other) ?_ (shared.failed call)
    · unfold ClientWorld.Fits ClientWorld.Uncounted at fits ⊢
      revert fits
      cases (ghosts call).phase <;> simp +contextual
    · intro own others
      exact shared.settled_of_others own others

theorem SharedFields.writeLock (shared : SharedFields endpoints world ghosts)
    (outside : (ghosts call).phase = .outside) (free : world.locked = false) :
    SharedFields endpoints (world.next .writeLock)
      (Function.update ghosts call ((ghosts call).next .writeLock ())) := by
  have exclusive := shared.exclusive
  rw [free] at exclusive
  refine shared.updateRunning (by simp [outside]) rfl
    (exclusive.acquire fun ghost : CallGhost => ghost.phase.holds = true) trivial
    (fun other _ => shared.fits other) ?_
  intro _ others
  exact shared.settled_of_others (by rw [outside]; rfl) others

theorem SharedFields.unlock (shared : SharedFields endpoints world ghosts)
    (done : (ghosts call).phase = .locked ∨ (ghosts call).phase = .counted) :
    SharedFields endpoints (world.next .unlock)
      (Function.update ghosts call ((ghosts call).next .unlock ())) := by
  have holds : (ghosts call).phase.holds = true := by
    rcases done with phase | phase <;> rw [phase] <;> rfl
  have written : (ghosts call).phase.writing = false := by
    rcases done with phase | phase <;> rw [phase] <;> rfl
  refine shared.updateRunning ?_ rfl (shared.exclusive.release
    (fun ghost : CallGhost => ghost.phase.holds = true) holds Bool.false_ne_true) trivial
    (fun other _ => shared.fits other) ?_
  · rcases done with phase | phase <;> simp [phase]
  · intro _ others
    exact shared.settled_of_others written others

theorem SharedFields.installClient (shared : SharedFields endpoints world ghosts)
    (current : (ghosts call).phase = .current) (client : ChainClient) :
    SharedFields endpoints (world.next (.installClient client))
      (Function.update ghosts call ((ghosts call).next (.installClient client) ())) := by
  have holds : (ghosts call).phase.holds = true := by rw [current]; rfl
  have captured := shared.captured_of_current current
  have counted := (shared.settled_of_others (by rw [current]; rfl) (shared.others_idle holds)).2
  refine shared.updateRunning (by simp [current]) rfl
    (exclusive_update shared.exclusive fun _ => holds)
    ⟨rfl, rfl, captured, Nat.succ_pos _, counted⟩ ?_ ?_
  · intro other apart
    exact ClientWorld.fits_of_outside (shared.others_outside holds other apart)
  · intro writing
    cases writing

theorem SharedFields.storeIndex (shared : SharedFields endpoints world ghosts)
    {client : ChainClient} (installed : (ghosts call).phase = .installed client) {index : Nat}
    (reaches : endpoints[index]? = some client.uri) :
    SharedFields endpoints (world.next (.storeIndex index))
      (Function.update ghosts call ((ghosts call).next (.storeIndex index) ())) := by
  have holds : (ghosts call).phase.holds = true := by rw [installed]; rfl
  obtain ⟨chainApi, _, uncounted⟩ := shared.of_installed installed
  refine shared.updateRunning (by simp [installed]) rfl
    (exclusive_update shared.exclusive fun _ => holds) ?_ ?_ ?_
  · refine ⟨?_, rfl, uncounted⟩
    change endpoints[index]? = some world.chainApi.uri
    rw [chainApi, reaches]
  · intro other apart
    exact ClientWorld.fits_of_outside (shared.others_outside holds other apart)
  · intro writing
    cases writing

theorem SharedFields.fetchAddGeneration (shared : SharedFields endpoints world ghosts)
    (indexed : (ghosts call).phase = .indexed) :
    SharedFields endpoints (world.next .fetchAddGeneration) (Function.update ghosts call
      ((ghosts call).next .fetchAddGeneration world.reconnectGeneration)) := by
  have holds : (ghosts call).phase.holds = true := by rw [indexed]; rfl
  obtain ⟨consistent, _, _, positive, lagging⟩ := shared.of_indexed indexed
  refine shared.updateRunning (by simp [indexed]) rfl
    (exclusive_update shared.exclusive fun _ => holds) trivial ?_ ?_
  · intro other apart
    exact ClientWorld.fits_of_outside (shared.others_outside holds other apart)
  · intro _ _
    refine ⟨consistent, ?_⟩
    change (world.reconnectGeneration + 1) % 2 ^ 64 = world.installs % 2 ^ 64
    omega

omit [DecidableEq ι] in
theorem outside_of_returns {result : Except Error Unit}
    (allowed : (ghosts call).allows endpoints (.returned result)) :
    (ghosts call).phase = .outside := by
  cases result with
  | ok value => exact allowed
  | error error => exact allowed.1

theorem SharedFields.returned (shared : SharedFields endpoints world ghosts)
    {result : Except Error Unit} (allowed : (ghosts call).allows endpoints (.returned result)) :
    SharedFields endpoints world
      (Function.update ghosts call ((ghosts call).next (.returned result) ())) := by
  have outside := outside_of_returns allowed
  have settled (others : ∀ other, other ≠ call → (ghosts other).phase.writing = false) :
      world.Indexed endpoints ∧ world.reconnectGeneration = world.installs % 2 ^ 64 :=
    shared.settled_of_others (by rw [outside]; rfl) others
  cases result with
  | ok value =>
      exact shared.updateRunning (by simp [outside]) rfl
        (exclusive_update shared.exclusive Bool.noConfusion) trivial
        (fun other _ => shared.fits other) fun _ => settled
  | error error =>
      exact shared.update (exclusive_update shared.exclusive Bool.noConfusion) trivial
        (fun other _ => shared.fits other) (fun _ => settled) fun _ => ⟨rfl, allowed.2⟩

theorem SharedFields.step (shared : SharedFields endpoints world ghosts) {op : ClientOp}
    {answer : ClientResp op} (allowed : (ghosts call).allows endpoints op)
    (offered : world.offers op answer) :
    SharedFields endpoints (world.next op)
      (Function.update ghosts call ((ghosts call).next op answer)) := by
  cases op with
  | loadGeneration => exact offered ▸ shared.loadGeneration
  | writeLock => exact shared.writeLock allowed offered.1
  | installClient client => exact shared.installClient allowed client
  | storeIndex index =>
      obtain ⟨client, installed, reaches⟩ := allowed
      exact shared.storeIndex installed reaches
  | fetchAddGeneration => exact offered ▸ shared.fetchAddGeneration allowed
  | unlock => exact shared.unlock allowed
  | returned result => exact shared.returned allowed
  | _ =>
      change SharedFields endpoints world (Function.update ghosts call (ghosts call))
      rwa [Function.update_eq_self]

/-- A call that has written started from an older generation, or is still writing. No two
such calls started from the same one. -/
structure Deduplicated (world : ClientWorld) (ghosts : ι → CallGhost) : Prop where
  written : ∀ call, (ghosts call).wrote = true → ∃ generation,
    (ghosts call).captured = some generation ∧ generation ≤ world.reconnectGeneration ∧
      (generation = world.reconnectGeneration → (ghosts call).phase.writing = true)
  distinct : ∀ first second, (ghosts first).wrote = true → (ghosts second).wrote = true →
    (ghosts first).captured = (ghosts second).captured → first = second

theorem Deduplicated.distinct_update (dedup : Deduplicated world ghosts) {ghost : CallGhost}
    (wrote : ghost.wrote = true → (ghosts call).wrote = true)
    (captured : (ghosts call).wrote = true → ghost.captured = (ghosts call).captured)
    (first second : ι) (hasFirst : (Function.update ghosts call ghost first).wrote = true)
    (hasSecond : (Function.update ghosts call ghost second).wrote = true)
    (same : (Function.update ghosts call ghost first).captured =
      (Function.update ghosts call ghost second).captured) : first = second := by
  have before : ∀ other, (Function.update ghosts call ghost other).wrote = true →
      (ghosts other).wrote = true ∧
        (Function.update ghosts call ghost other).captured = (ghosts other).captured :=
    (Function.forall_update_iff ghosts fun other ghost => ghost.wrote = true →
      (ghosts other).wrote = true ∧ ghost.captured = (ghosts other).captured).mpr
      ⟨fun has => ⟨wrote has, captured (wrote has)⟩, fun _ _ has => ⟨has, rfl⟩⟩
  obtain ⟨firstWrote, firstSame⟩ := before first hasFirst
  obtain ⟨secondWrote, secondSame⟩ := before second hasSecond
  rw [firstSame, secondSame] at same
  exact dedup.distinct first second firstWrote secondWrote same

theorem Deduplicated.update (dedup : Deduplicated world ghosts) {after : ClientWorld}
    {ghost : CallGhost} (generation : after.reconnectGeneration = world.reconnectGeneration)
    (wrote : ghost.wrote = true → (ghosts call).wrote = true)
    (captured : (ghosts call).wrote = true → ghost.captured = (ghosts call).captured)
    (writing : (ghosts call).phase.writing = true → ghost.phase.writing = true) :
    Deduplicated after (Function.update ghosts call ghost) := by
  refine ⟨?_, dedup.distinct_update wrote captured⟩
  rw [generation]
  refine (Function.forall_update_iff ghosts fun _ ghost => ghost.wrote = true → ∃ generation,
    ghost.captured = some generation ∧ generation ≤ world.reconnectGeneration ∧
      (generation = world.reconnectGeneration → ghost.phase.writing = true)).mpr
    ⟨?_, fun other _ => dedup.written other⟩
  intro has
  obtain ⟨started, capturedBy, bounded, last⟩ := dedup.written call (wrote has)
  exact ⟨started, (captured (wrote has)).trans capturedBy, bounded,
    fun same => writing (last same)⟩

theorem Deduplicated.installClient (dedup : Deduplicated world ghosts)
    (shared : SharedFields endpoints world ghosts) (current : (ghosts call).phase = .current)
    (client : ChainClient) :
    Deduplicated (world.next (.installClient client))
      (Function.update ghosts call ((ghosts call).next (.installClient client) ())) := by
  have holds : (ghosts call).phase.holds = true := by rw [current]; rfl
  have captured := shared.captured_of_current current
  have older (other : ι) (apart : other ≠ call) (wrote : (ghosts other).wrote = true) :
      (ghosts other).captured ≠ some world.reconnectGeneration := by
    intro same
    obtain ⟨started, capturedBy, _, last⟩ := dedup.written other wrote
    have writing := last (Option.some.inj (capturedBy.symm.trans same))
    rw [shared.others_idle holds other apart] at writing
    cases writing
  constructor
  · refine (Function.forall_update_iff ghosts fun _ ghost => ghost.wrote = true → ∃ generation,
      ghost.captured = some generation ∧ generation ≤ world.reconnectGeneration ∧
        (generation = world.reconnectGeneration → ghost.phase.writing = true)).mpr
      ⟨?_, fun other _ => dedup.written other⟩
    intro _
    exact ⟨_, captured, Nat.le_refl _, fun _ => rfl⟩
  · intro first second hasFirst hasSecond same
    by_cases firstOwn : first = call <;> by_cases secondOwn : second = call
    · rw [firstOwn, secondOwn]
    · subst firstOwn
      rw [Function.update_self, Function.update_of_ne secondOwn] at same
      rw [Function.update_of_ne secondOwn] at hasSecond
      exact absurd (same.symm.trans captured) (older second secondOwn hasSecond)
    · subst secondOwn
      rw [Function.update_self, Function.update_of_ne firstOwn] at same
      rw [Function.update_of_ne firstOwn] at hasFirst
      exact absurd (same.trans captured) (older first firstOwn hasFirst)
    · rw [Function.update_of_ne firstOwn] at hasFirst same
      rw [Function.update_of_ne secondOwn] at hasSecond same
      exact dedup.distinct first second hasFirst hasSecond same

omit [DecidableEq ι] in
theorem SharedFields.wrote_of_writing (shared : SharedFields endpoints world ghosts)
    (writing : (ghosts call).phase.writing = true) : (ghosts call).wrote = true := by
  cases phase : (ghosts call).phase with
  | installed client => exact (shared.of_installed phase).2.1
  | indexed => exact (shared.of_indexed phase).2.1
  | _ =>
      rw [phase] at writing
      cases writing

theorem Deduplicated.fetchAddGeneration (dedup : Deduplicated world ghosts)
    (shared : SharedFields endpoints world ghosts) (indexed : (ghosts call).phase = .indexed)
    (bounded : world.installs < 2 ^ 64) :
    Deduplicated (world.next .fetchAddGeneration) (Function.update ghosts call
      ((ghosts call).next .fetchAddGeneration world.reconnectGeneration)) := by
  obtain ⟨_, wrote, captured, positive, lagging⟩ := shared.of_indexed indexed
  have counted : (world.next .fetchAddGeneration).reconnectGeneration =
      world.reconnectGeneration + 1 := by
    change (world.reconnectGeneration + 1) % 2 ^ 64 = _
    omega
  refine ⟨?_, dedup.distinct_update (fun _ => wrote) fun _ => rfl⟩
  rw [counted]
  refine (Function.forall_update_iff ghosts fun _ ghost => ghost.wrote = true → ∃ generation,
    ghost.captured = some generation ∧ generation ≤ world.reconnectGeneration + 1 ∧
      (generation = world.reconnectGeneration + 1 → ghost.phase.writing = true)).mpr ⟨?_, ?_⟩
  · intro _
    exact ⟨_, captured, by omega, by omega⟩
  · intro other _ has
    obtain ⟨started, capturedBy, older, _⟩ := dedup.written other has
    exact ⟨started, capturedBy, by omega, by omega⟩

theorem Deduplicated.step (dedup : Deduplicated world ghosts)
    (shared : SharedFields endpoints world ghosts) {op : ClientOp} {answer : ClientResp op}
    (allowed : (ghosts call).allows endpoints op) (offered : world.offers op answer)
    (bounded : world.installs < 2 ^ 64) :
    Deduplicated (world.next op) (Function.update ghosts call ((ghosts call).next op answer)) := by
  cases op with
  | loadGeneration =>
      refine dedup.update rfl id ?_ ?_
      · intro wrote
        obtain ⟨started, captured, _⟩ := dedup.written call wrote
        simp [CallGhost.next, captured]
      · intro writing
        simp only [CallGhost.next]
        split
        · rename_i checked
          rw [checked.1] at writing
          cases writing
        · exact writing
  | writeLock =>
      refine dedup.update rfl id (fun _ => rfl) ?_
      intro writing
      rw [show (ghosts call).phase = .outside from allowed] at writing
      cases writing
  | installClient client => exact dedup.installClient shared allowed client
  | storeIndex index =>
      obtain ⟨client, installed, _⟩ := allowed
      have writing : (ghosts call).phase.writing = true := by rw [installed]; rfl
      exact dedup.update rfl (fun _ => shared.wrote_of_writing writing) (fun _ => rfl) fun _ => rfl
  | fetchAddGeneration => exact offered ▸ dedup.fetchAddGeneration shared allowed bounded
  | unlock =>
      refine dedup.update rfl id (fun _ => rfl) ?_
      intro writing
      rcases allowed with phase | phase <;> rw [phase] at writing <;> cases writing
  | returned result =>
      have outside := outside_of_returns allowed
      have idle : (ghosts call).phase.writing = true → False := by
        rw [outside]
        exact Bool.noConfusion
      cases result with
      | ok value => exact dedup.update rfl id (fun _ => rfl) fun writing => (idle writing).elim
      | error error => exact dedup.update rfl id (fun _ => rfl) fun writing => (idle writing).elim
  | _ =>
      change Deduplicated world (Function.update ghosts call (ghosts call))
      rwa [Function.update_eq_self]

end Shared

section Runs

variable {ι : Type} [DecidableEq ι] {client : Client}

def ClientInvariant (endpoints : List String) (world : ClientWorld) (ghosts : ι → CallGhost) :
    Prop :=
  SharedFields endpoints world ghosts ∧ (world.installs < 2 ^ 64 → Deduplicated world ghosts)

theorem ClientWorld.installs_le (world : ClientWorld) (op : ClientOp) :
    world.installs ≤ (world.next op).installs := by
  cases op with
  | installClient client => exact Nat.le_succ _
  | _ => exact Nat.le_refl _

theorem reconnects_invariant (connected : client.world.Indexed client.endpoints)
    (new : client.reconnectGeneration = 0)
    {meets : (reconnects ι).State → ι × Event ClientOp ClientResp → Prop}
    {state : (reconnects ι).State}
    (run : (reconnects ι).Runs meets (reconnectsStart ι client) state) :
    ClientInvariant client.endpoints state.world
      (state.ghosts (callMonitor client.endpoints) .start) := by
  have related : state.Related (callMonitor client.endpoints) .start
      (ClientInvariant client.endpoints) := by
    refine run.related rfl ?_ ?_ ?_ ?_ ?_ ?_
    · intro call
      exact wp_mono (reconnectCall_follows client.endpoints) fun _ _ _ _ _ => trivial
    · intro call store ghost
      trivial
    · have outside (call : ι) : ¬CallGhost.start.phase.holds = true := Bool.false_ne_true
      refine ⟨⟨⟨?_, ?_⟩, fun _ => trivial, fun _ => ⟨connected, new⟩, ?_⟩, fun _ => ⟨?_, ?_⟩⟩
      · exact fun call holds => absurd holds (outside call)
      · exact fun call _ holds => absurd holds (outside call)
      · exact fun _ => Bool.noConfusion
      · exact fun _ => Bool.noConfusion
      · exact fun _ _ => Bool.noConfusion
    · intro world ghosts call op answer _ _
      trivial
    · intro state call op answer ⟨shared, dedup⟩ allowed offered _
      refine ⟨shared.step allowed offered, fun bounded => ?_⟩
      have earlier : state.world.installs < 2 ^ 64 :=
        Nat.lt_of_le_of_lt (ClientWorld.installs_le state.world op) bounded
      exact (dedup earlier).step shared allowed offered earlier
    · rintro world ghosts after ⟨shared, dedup⟩ ⟨_, readers, rfl⟩
      exact ⟨⟨shared.exclusive, shared.fits, shared.settled, shared.failed⟩,
        fun bounded => ⟨(dedup bounded).written, (dedup bounded).distinct⟩⟩
  exact related.2

def ClientOp.writes : ClientOp → Bool
  | .installClient _ | .storeIndex _ | .fetchAddGeneration => true
  | _ => false

def ClientOp.fails : ClientOp → Bool
  | .returned (.error _) => true
  | _ => false

def loadedGeneration : Event ClientOp ClientResp → Option Nat
  | ⟨.loadGeneration, generation⟩ => some generation
  | _ => none

def capturedGeneration (trace : Trace ClientOp ClientResp) : Option Nat :=
  trace.findSome? loadedGeneration

def Installs (trace : Trace ClientOp ClientResp) : Prop :=
  ∃ client, ⟨.installClient client, ()⟩ ∈ trace

def ClientOp.Preserves (op : ClientOp) : Prop :=
  ∀ world : ClientWorld, (world.next op).chainApi = world.chainApi ∧
    (world.next op).currentEndpointIndex = world.currentEndpointIndex ∧
    (world.next op).reconnectGeneration = world.reconnectGeneration

theorem preserves_of_not_writes {op : ClientOp} (reads : op.writes = false) : op.Preserves := by
  intro world
  cases op <;> first | exact absurd reads Bool.noConfusion | exact ⟨rfl, rfl, rfl⟩

theorem after_captured (endpoints : List String) (ghost : CallGhost)
    (trace : Trace ClientOp ClientResp) :
    ((callMonitor endpoints).after ghost trace).captured =
      ghost.captured.or (capturedGeneration trace) := by
  induction trace generalizing ghost with
  | nil => simp [capturedGeneration]
  | cons event rest ih =>
      obtain ⟨op, answer⟩ := event
      have stepped : (ghost.next op answer).captured =
          ghost.captured.or (loadedGeneration ⟨op, answer⟩) := by
        cases op with
        | returned result => cases result <;> simp [CallGhost.next, loadedGeneration]
        | _ => simp [CallGhost.next, loadedGeneration]
      rw [Monitor.after_cons, ih]
      change (ghost.next op answer).captured.or _ = _
      rw [stepped, Option.or_assoc]
      congr 1
      simp only [capturedGeneration, List.findSome?_cons]
      cases loadedGeneration ⟨op, answer⟩ <;> rfl

theorem after_wrote (endpoints : List String) (trace : Trace ClientOp ClientResp) :
    ((callMonitor endpoints).after .start trace).wrote = true ↔
      ∃ event ∈ trace, event.1.writes = true := by
  have marked := (callMonitor endpoints).after_marked (fun ghost => ghost.wrote = true)
    (fun event => event.1.writes = true) ?_ .start trace
  · simpa [CallGhost.start] using marked
  · rintro ghost ⟨op, answer⟩
    cases op with
    | returned result => cases result <;> simp [callMonitor, CallGhost.next, ClientOp.writes]
    | _ => simp [callMonitor, CallGhost.next, ClientOp.writes]

theorem after_failed (endpoints : List String) (trace : Trace ClientOp ClientResp) :
    ((callMonitor endpoints).after .start trace).failed = true ↔
      ∃ event ∈ trace, event.1.fails = true := by
  have marked := (callMonitor endpoints).after_marked (fun ghost => ghost.failed = true)
    (fun event => event.1.fails = true) ?_ .start trace
  · simpa [CallGhost.start] using marked
  · rintro ghost ⟨op, answer⟩
    cases op with
    | returned result => cases result <;> simp [callMonitor, CallGhost.next, ClientOp.fails]
    | _ => simp [callMonitor, CallGhost.next, ClientOp.fails]

theorem newClientWith_run {env : Environment ClientOp ClientResp} {useLegacy : Bool}
    {uris : String} {history : Trace ClientOp ClientResp}
    (made : (run env (newClientWith useLegacy uris) () history).outcome = .ok client) :
    client.world.Indexed client.endpoints ∧ client.reconnectGeneration = 0 :=
  (ends_of_issuing (newClientWith_connected useLegacy uris)).1 client made

/-- For a client made by `Client::new` and any interleaving of `reconnect` calls on its
clones: the shared fields agree whenever the write lock is free, at most one of the calls
that loaded the same generation installs a client, and a call that returns an error has
changed nothing. -/
theorem reconnect_calls_deduplicated {env : Environment ClientOp ClientResp} {useLegacy : Bool}
    {uris : String} {history : Trace ClientOp ClientResp}
    (made : (run env (newClientWith useLegacy uris) () history).outcome = .ok client)
    {state : (reconnects ι).State}
    (run : (reconnects ι).Runs (fun _ _ => True) (reconnectsStart ι client) state) :
    (state.world.locked = false →
      client.endpoints[state.world.currentEndpointIndex]? = some state.world.chainApi.uri ∧
      (state.world.installs < 2 ^ 64 →
        state.world.reconnectGeneration = state.world.installs)) ∧
    (state.world.installs < 2 ^ 64 → ∀ first second, Installs (state.trace first) →
      Installs (state.trace second) →
      capturedGeneration (state.trace first) = capturedGeneration (state.trace second) →
        first = second) ∧
    (∀ call error, ⟨.returned (.error error), ()⟩ ∈ state.trace call →
      ∀ event ∈ state.trace call, event.1.Preserves) := by
  obtain ⟨connected, new⟩ := newClientWith_run made
  obtain ⟨shared, dedup⟩ := reconnects_invariant connected new run
  have wrote (call : ι) (installs : Installs (state.trace call)) :
      (state.ghosts (callMonitor client.endpoints) .start call).wrote = true := by
    obtain ⟨installed, member⟩ := installs
    exact (after_wrote client.endpoints _).mpr ⟨_, member, rfl⟩
  refine ⟨?_, ?_, ?_⟩
  · intro free
    have idle (call : ι) :
        (state.ghosts (callMonitor client.endpoints) .start call).phase.writing = false := by
      by_contra writing
      rw [Bool.not_eq_false] at writing
      have locked := shared.exclusive.locked_of call (CallPhase.holds_of_writing writing)
      exact Bool.false_ne_true (free.symm.trans locked)
    obtain ⟨indexed, counted⟩ := shared.settled idle
    refine ⟨indexed, fun bounded => ?_⟩
    rw [counted, Nat.mod_eq_of_lt bounded]
  · intro bounded first second installsFirst installsSecond same
    refine (dedup bounded).distinct first second (wrote first installsFirst)
      (wrote second installsSecond) ?_
    simp only [Process.State.ghosts, after_captured, same]
  · intro call error member event seen
    have failed := (after_failed client.endpoints (state.trace call)).mpr ⟨_, member, rfl⟩
    have untouched := (shared.failed call failed).2
    refine preserves_of_not_writes ?_
    by_contra writes
    rw [Bool.not_eq_false] at writes
    have written := (after_wrote client.endpoints (state.trace call)).mpr ⟨event, seen, writes⟩
    exact Bool.false_ne_true (untouched.symm.trans written)

end Runs

def poolAnswer (generation : Nat) : (op : ClientOp) → ClientResp op
  | .buildRpc _ => .ok ()
  | .fromBackend _ _ => .ok 7
  | .loadGeneration => generation
  | .loadIndex => 0
  | .fetchAddGeneration => generation
  | .onConnectionTimeout | .sleep _ | .writeLock | .installClient _ | .storeIndex _ => ()
  | .onEndpointSwitch | .unlock | .returned _ => ()

def poolEnv : Environment ClientOp ClientResp := ⟨fun _ op => poolAnswer 0 op, fun _ _ => false⟩

def poolClient : Client := ⟨⟨"wss://a", false, 7⟩, ["wss://a", "wss://b"], 0, 0⟩

theorem pool_made : (run poolEnv (Client.new "wss://a, wss://b") () []).outcome =
    .ok poolClient := by
  decide +kernel

def bothLoaded : (reconnects Bool).State :=
  ((reconnectsStart Bool poolClient).advances true (poolAnswer 0) 2).advances false (poolAnswer 0) 2

def oneInstalled : (reconnects Bool).State :=
  (bothLoaded.advances true (poolAnswer 0) 20).advances false (poolAnswer 1) 20

theorem oneInstalled_runs :
    (reconnects Bool).Runs (fun _ _ => True) (reconnectsStart Bool poolClient) oneInstalled := by
  apply Process.Runs.play
  · apply Process.Runs.play
    · apply Process.Runs.play
      · apply Process.Runs.refl.play
        repeat refine ⟨by trivial, ?_⟩
        trivial
      · repeat refine ⟨by trivial, ?_⟩
        trivial
    · repeat refine ⟨by trivial, ?_⟩
      trivial
  · repeat refine ⟨by trivial, ?_⟩
    trivial

theorem reconnect_calls_deduplicated_two :
    capturedGeneration (oneInstalled.trace true) = some 0 ∧
      capturedGeneration (oneInstalled.trace false) = some 0 ∧
      Installs (oneInstalled.trace true) ∧ ¬Installs (oneInstalled.trace false) ∧
      poolClient.endpoints[oneInstalled.world.currentEndpointIndex]? =
        some oneInstalled.world.chainApi.uri ∧ oneInstalled.world.reconnectGeneration = 1 := by
  have installed : Installs (oneInstalled.trace true) :=
    ⟨⟨"wss://b", false, 7⟩, List.mem_of_getElem? (i := 6) rfl⟩
  obtain ⟨agree, dedup, _⟩ := reconnect_calls_deduplicated pool_made oneInstalled_runs
  obtain ⟨indexed, counted⟩ := agree rfl
  refine ⟨rfl, rfl, installed, ?_, indexed, counted (by decide)⟩
  intro again
  exact Bool.noConfusion (dedup (by decide) true false installed again rfl)

end LeanStakingMiner
