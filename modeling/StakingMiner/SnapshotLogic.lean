import StakingMiner.ChainLogic
import StakingMiner.ProgramTrace
import StakingMiner.SnapshotCore

/-!
The snapshot cache against the pages on chain. Every cached page stays with the hash it
was stored under; as equal hashes mean equal pages, a cached page is only reused when
the chain holds the same one.
-/

namespace LeanStakingMiner

open LeanProgram

variable {T : MinerConfig}

/-- The paged snapshots in the storage of every block, with the hashes kept for them. -/
structure SnapshotChain (T : MinerConfig) where
  voterPage : AtBlock → Nat → Nat → Option T.VoterPage
  targetPage : AtBlock → Nat → Nat → Option T.TargetPage
  voterHash : T.VoterPage → Hash
  targetHash : T.TargetPage → Hash
  voterHash_injective : Function.Injective voterHash
  targetHash_injective : Function.Injective targetHash

/-- The answer is one the chain can give; reads may fail, miss or not decode. -/
def SnapshotChain.Agrees (chain : SnapshotChain T) (nPages : Nat) : (op : Op T) → Resp op → Prop
  | .voterSnapshotHash storage round page, .ok (some (some hash)) =>
      ∃ voter, chain.voterPage storage round page = some voter ∧ chain.voterHash voter = hash
  | .voterSnapshot storage round page, .ok (some (some voter)) =>
      chain.voterPage storage round page = some voter
  | .targetSnapshotHash storage round page, .ok (some (some hash)) =>
      ∃ target, chain.targetPage storage round page = some target ∧
        chain.targetHash target = hash
  | .targetSnapshot storage round page, .ok (some (some target)) =>
      chain.targetPage storage round page = some target
  | .pages, bound => bound = nPages
  | _, _ => True

def chainMonitor (chain : SnapshotChain T) (nPages : Nat) :
    Monitor (Op T) Resp (MinerTrace T) :=
  Monitor.tracing (chain.Agrees nPages) fun _ _ => True

/-- Every cached page is stored under its own hash, and its index is in range. -/
structure Snapshot.Faithful (chain : SnapshotChain T) (nPages : Nat) (snapshot : Snapshot T) :
    Prop where
  pages : snapshot.nPages = nPages
  target : ∀ target hash, snapshot.target = some (target, hash) → chain.targetHash target = hash
  voter : ∀ (page : Nat) voter hash, snapshot.voter[page]? = some (voter, hash) →
    page < nPages ∧ chain.voterHash voter = hash

variable {chain : SnapshotChain T} {nPages : Nat} {snapshot : Snapshot T} {trace : MinerTrace T}

theorem Snapshot.faithful_new (chain : SnapshotChain T) (nPages : Nat) :
    (Snapshot.new nPages).Faithful chain nPages := by
  refine ⟨rfl, ?_, ?_⟩
  · simp [Snapshot.new]
  · simp [Snapshot.new]

theorem Snapshot.Faithful.clear (faithful : snapshot.Faithful chain nPages) :
    snapshot.clear.Faithful chain nPages := by
  refine ⟨faithful.pages, ?_, ?_⟩
  · simp [Snapshot.clear]
  · simp [Snapshot.clear]

def HoldsVoter (chain : SnapshotChain T) (storage : AtBlock) (round page : Nat)
    (snapshot : Snapshot T) : Prop :=
  ∃ voter hash, snapshot.voter[page]? = some (voter, hash) ∧
    chain.voterPage storage round page = some voter

def HoldsTarget (chain : SnapshotChain T) (storage : AtBlock) (round page : Nat)
    (snapshot : Snapshot T) : Prop :=
  ∃ target hash, snapshot.target = some (target, hash) ∧
    chain.targetPage storage round page = some target

theorem needsVoterPage_false {page : Nat} {voter : T.VoterPage}
    (faithful : snapshot.Faithful chain nPages)
    (kept : snapshot.needsVoterPage page (chain.voterHash voter) = false) :
    ∃ hash, snapshot.voter[page]? = some (voter, hash) := by
  unfold Snapshot.needsVoterPage at kept
  split at kept
  · rename_i cached hash found
    have stored := (faithful.voter page cached hash found).2
    have same : cached = voter := by
      apply chain.voterHash_injective
      rw [stored]
      simpa using kept
    exact ⟨hash, same ▸ found⟩
  · contradiction

theorem needsTargetSnapshot_false {target : T.TargetPage}
    (faithful : snapshot.Faithful chain nPages)
    (kept : snapshot.needsTargetSnapshot (chain.targetHash target) = false) :
    ∃ hash, snapshot.target = some (target, hash) := by
  unfold Snapshot.needsTargetSnapshot at kept
  split at kept
  · rename_i cached hash found
    have stored := faithful.target cached hash found
    have same : cached = target := by
      apply chain.targetHash_injective
      rw [stored]
      simpa using kept
    exact ⟨hash, same ▸ found⟩
  · contradiction

theorem setVoterPage_lookup {page : Nat} (voter : T.VoterPage) (hash : Hash)
    (inside : page < snapshot.nPages) :
    ∃ updated, snapshot.setVoterPage page voter hash = some updated ∧
      updated.nPages = snapshot.nPages ∧ updated.target = snapshot.target ∧
      ∀ other, updated.voter[other]? =
        if page = other then some (voter, hash) else snapshot.voter[other]? := by
  refine ⟨{ snapshot with voter := snapshot.voter.insert page (voter, hash) }, if_pos inside,
    rfl, rfl, ?_⟩
  intro other
  simp [Std.TreeMap.getElem?_insert]

theorem setVoterPage_faithful {page : Nat} (voter : T.VoterPage)
    (faithful : snapshot.Faithful chain nPages) (bound : page < nPages) :
    ∃ updated, snapshot.setVoterPage page voter (chain.voterHash voter) = some updated ∧
      updated.Faithful chain nPages ∧ updated.target = snapshot.target ∧
      ∀ other, updated.voter[other]? =
        if page = other then some (voter, chain.voterHash voter) else snapshot.voter[other]? := by
  have inside : page < snapshot.nPages := by
    rw [faithful.pages]
    exact bound
  obtain ⟨updated, stored, pages, target, lookup⟩ :=
    setVoterPage_lookup voter (chain.voterHash voter) inside
  refine ⟨updated, stored, ⟨pages.trans faithful.pages, ?_, ?_⟩, target, lookup⟩
  · rw [target]
    exact faithful.target
  · intro other stored hash found
    rw [lookup other] at found
    by_cases same : page = other
    · simp only [same, ↓reduceIte, Option.some.injEq, Prod.mk.injEq] at found
      obtain ⟨rfl, rfl⟩ := found
      exact ⟨by omega, rfl⟩
    · simp only [same, ↓reduceIte] at found
      exact faithful.voter other stored hash found

@[simp] theorem chainMonitor_allows (op : Op T) :
    (chainMonitor chain nPages).allows trace op ↔ True := Iff.rfl

@[simp] theorem chainMonitor_expects (op : Op T) (answer : Resp op) :
    (chainMonitor chain nPages).expects trace op answer ↔ chain.Agrees nPages op answer := Iff.rfl

@[simp] theorem chainMonitor_next (op : Op T) (answer : Resp op) :
    (chainMonitor chain nPages).next trace op answer = trace ++ [⟨op, answer⟩] := rfl

section Fetch

variable {σ γ α β : Type} {M : Monitor (Op T) Resp γ} {store : σ} {ghost : γ}

def fetched : Read (Option (Option α)) → Outcome Error α
  | .error error => .err (.subxt error)
  | .ok none => .err .emptySnapshot
  | .ok (some none) => .err .codec
  | .ok (some (some value)) => .ok value

theorem wp_fetched {post : Outcome Error α → σ → γ → Prop}
    (answer : Read (Option (Option α))) :
    wp M (rpc answer >>= present : Miner T σ α) post store ghost ↔
      post (fetched answer) store ghost := by
  rcases answer with error | _ | _ | value <;> exact Iff.rfl

theorem fetched_cases (answer : Read (Option (Option α))) :
    (∃ error, fetched answer = .err error) ∨
      ∃ value, answer = .ok (some (some value)) ∧ fetched answer = .ok value := by
  rcases answer with error | _ | _ | value
  · exact Or.inl ⟨_, rfl⟩
  · exact Or.inl ⟨_, rfl⟩
  · exact Or.inl ⟨_, rfl⟩
  · exact Or.inr ⟨value, rfl, rfl⟩

theorem wp_fetch_seq {post : Outcome Error β → σ → γ → Prop} (op : Op T)
    (read : Resp op → Read (Option (Option α))) {rest : α → Miner T σ β}
    (allowed : M.allows ghost op)
    (missing : ∀ answer error, post (.err error) store (M.next ghost op answer))
    (found : ∀ answer value, M.expects ghost op answer → read answer = .ok (some (some value)) →
      wp M (rest value) post store (M.next ghost op answer)) :
    wp M ((ask op >>= fun answer => rpc (read answer) >>= present) >>= rest) post store ghost := by
  rw [wp_bind, wp_bind, wp_ask]
  refine ⟨allowed, fun answer expected => ?_⟩
  rw [followedBy_ok, wp_fetched]
  rcases fetched_cases (read answer) with ⟨error, failed⟩ | ⟨value, answered, returned⟩
  · rw [failed, followedBy_err]
    exact missing answer error
  · rw [returned, followedBy_ok]
    exact found answer value expected answered

end Fetch

theorem checkAndUpdateVoterSnapshot_issues (page round : Nat) (storage : AtBlock)
    (snapshot : Snapshot T) :
    wp (kindMonitor [.snapshot]) (checkAndUpdateVoterSnapshot page round storage)
      (fun _ _ _ => True) snapshot () := by
  refine wp_fetch_seq (.voterSnapshotHash storage round page) id (by simp [Op.kind])
    (fun _ _ => trivial) fun _ hash _ _ => ?_
  rw [wp_bind, wp_load, followedBy_ok]
  split
  · refine wp_fetch_seq (.voterSnapshot storage round page) id (by simp [Op.kind])
      (fun _ _ => trivial) fun _ voter _ _ => ?_
    simp only [storeVoterPage, wp]
    split
    · trivial
    · trivial
  · trivial

theorem checkAndUpdateTargetSnapshot_issues (page round : Nat) (storage : AtBlock)
    (snapshot : Snapshot T) :
    wp (kindMonitor [.snapshot]) (checkAndUpdateTargetSnapshot page round storage)
      (fun _ _ _ => True) snapshot () := by
  refine wp_fetch_seq (.targetSnapshotHash storage round page) id (by simp [Op.kind])
    (fun _ _ => trivial) fun _ hash _ _ => ?_
  rw [wp_bind, wp_load, followedBy_ok]
  split
  · exact wp_fetch_seq (.targetSnapshot storage round page) id (by simp [Op.kind])
      (fun _ _ => trivial) fun _ target _ _ => trivial
  · trivial

theorem fetchVoterPages_issues (round : Nat) (storage : AtBlock) (pages : List Nat)
    (snapshot : Snapshot T) :
    wp (kindMonitor [.snapshot]) (fetchVoterPages round storage pages) (fun _ _ _ => True)
      snapshot () := by
  induction pages generalizing snapshot with
  | nil => trivial
  | cons page rest ih =>
      refine wp_seq (checkAndUpdateVoterSnapshot_issues page round storage snapshot) ?_
        (by simp) (by simp)
      intro _ store _ _
      exact ih store

theorem fetchVoterPagesLossy_issues (round : Nat) (storage : AtBlock) (pages : List Nat)
    (snapshot : Snapshot T) :
    wp (kindMonitor [.snapshot]) (fetchVoterPagesLossy round storage pages) (fun _ _ _ => True)
      snapshot () := by
  induction pages generalizing snapshot with
  | nil => trivial
  | cons page rest ih =>
      simp only [fetchVoterPagesLossy, wp_bind, wp_attempt]
      refine wp_mono (checkAndUpdateVoterSnapshot_issues page round storage snapshot) ?_
      rintro (_ | error | _) store _ _
      · exact ih store
      · simp only [caught, followedBy_ok]
        split
        · exact ih store
        · exact ih store
        · trivial
      · trivial

theorem fetchMissingSnapshots_issues (storage : AtBlock) (round : Nat) (snapshot : Snapshot T) :
    wp (kindMonitor [.snapshot]) (fetchMissingSnapshots storage round) (fun _ _ _ => True)
      snapshot () := by
  simp only [fetchMissingSnapshots, wp_bind, wp_load, followedBy_ok]
  refine wp_mono (fetchVoterPages_issues round storage _ snapshot) ?_
  rintro (_ | error | _) store _ _
  · exact checkAndUpdateTargetSnapshot_issues _ round storage store
  · trivial
  · trivial

theorem fetchMissingSnapshotsLossy_issues (storage : AtBlock) (round : Nat)
    (snapshot : Snapshot T) :
    wp (kindMonitor [.snapshot]) (fetchMissingSnapshotsLossy storage round) (fun _ _ _ => True)
      snapshot () := by
  simp only [fetchMissingSnapshotsLossy, wp_bind, wp_load, followedBy_ok]
  refine wp_mono (fetchVoterPagesLossy_issues round storage _ snapshot) ?_
  rintro (_ | error | _) store _ _
  · simp only [followedBy_ok, wp_bind, wp_attempt]
    refine wp_mono (checkAndUpdateTargetSnapshot_issues _ round storage store) ?_
    rintro (_ | error | _) final _ _
    · trivial
    · trivial
    · trivial
  · trivial
  · trivial

theorem checkAndUpdateVoterSnapshot_spec (page round : Nat) (storage : AtBlock)
    (faithful : snapshot.Faithful chain nPages) (bound : page < nPages) :
    wp (chainMonitor chain nPages) (checkAndUpdateVoterSnapshot page round storage)
      (fun outcome store _ => outcome ≠ .panic ∧ store.Faithful chain nPages ∧
        store.target = snapshot.target ∧
        (∀ other, other ≠ page → store.voter[other]? = snapshot.voter[other]?) ∧
        (outcome = .ok () → HoldsVoter chain storage round page store)) snapshot trace := by
  refine wp_fetch_seq (.voterSnapshotHash storage round page) id trivial
    (fun _ _ => by simp [faithful]) ?_
  rintro answer hash agrees rfl
  obtain ⟨voter, onChain, rfl⟩ := agrees
  rw [wp_bind, wp_load, followedBy_ok]
  split
  · refine wp_fetch_seq (.voterSnapshot storage round page) id trivial
      (fun _ _ => by simp [faithful]) ?_
    rintro answer fetched agrees rfl
    obtain rfl : fetched = voter := Option.some.inj (agrees.symm.trans onChain)
    obtain ⟨updated, stored, kept, target, lookup⟩ := setVoterPage_faithful fetched faithful bound
    simp only [storeVoterPage, wp, stored]
    refine ⟨by simp, kept, target, ?_, ?_⟩
    · intro other different
      rw [lookup other, if_neg (Ne.symm different)]
    · intro _
      exact ⟨fetched, chain.voterHash fetched, by rw [lookup page, if_pos rfl], onChain⟩
  · rename_i kept
    obtain ⟨hash, found⟩ := needsVoterPage_false faithful (by simpa using kept)
    refine ⟨by simp, faithful, rfl, fun _ _ => rfl, fun _ => ?_⟩
    exact ⟨voter, hash, found, onChain⟩

theorem checkAndUpdateTargetSnapshot_spec (page round : Nat) (storage : AtBlock)
    (faithful : snapshot.Faithful chain nPages) :
    wp (chainMonitor chain nPages) (checkAndUpdateTargetSnapshot page round storage)
      (fun outcome store _ => outcome ≠ .panic ∧ store.Faithful chain nPages ∧
        store.voter = snapshot.voter ∧
        (outcome = .ok () → HoldsTarget chain storage round page store)) snapshot trace := by
  refine wp_fetch_seq (.targetSnapshotHash storage round page) id trivial
    (fun _ _ => by simp [faithful]) ?_
  rintro answer hash agrees rfl
  obtain ⟨target, onChain, rfl⟩ := agrees
  rw [wp_bind, wp_load, followedBy_ok]
  split
  · refine wp_fetch_seq (.targetSnapshot storage round page) id trivial
      (fun _ _ => by simp [faithful]) ?_
    rintro answer fetched agrees rfl
    obtain rfl : fetched = target := Option.some.inj (agrees.symm.trans onChain)
    rw [wp_modify]
    refine ⟨by simp, ⟨faithful.pages, ?_, faithful.voter⟩, rfl, fun _ => ?_⟩
    · intro stored hash found
      simp only [Snapshot.setTargetSnapshot, Option.some.injEq, Prod.mk.injEq] at found
      obtain ⟨rfl, rfl⟩ := found
      rfl
    · exact ⟨fetched, chain.targetHash fetched, rfl, onChain⟩
  · rename_i kept
    obtain ⟨hash, found⟩ := needsTargetSnapshot_false faithful (by simpa using kept)
    refine ⟨by simp, faithful, rfl, fun _ => ?_⟩
    exact ⟨target, hash, found, onChain⟩

theorem fetchVoterPages_spec (round : Nat) (storage : AtBlock) (pages : List Nat)
    (snapshot : Snapshot T) (faithful : snapshot.Faithful chain nPages)
    (bounds : ∀ page ∈ pages, page < nPages) (trace : MinerTrace T) :
    wp (chainMonitor chain nPages) (fetchVoterPages round storage pages)
      (fun outcome store _ => outcome ≠ .panic ∧ store.Faithful chain nPages ∧
        (∀ other, other ∉ pages → store.voter[other]? = snapshot.voter[other]?) ∧
        (outcome = .ok () → ∀ page ∈ pages, HoldsVoter chain storage round page store))
      snapshot trace := by
  induction pages generalizing snapshot trace with
  | nil => simp [fetchVoterPages, faithful]
  | cons page rest ih =>
      refine wp_seq (checkAndUpdateVoterSnapshot_spec page round storage faithful
        (bounds page (by simp))) ?_ ?_ ?_
      · rintro _ store after ⟨_, kept, _, others, holds⟩
        refine wp_mono (ih store kept (fun other member => bounds other (by simp [member])) after) ?_
        rintro outcome final _ ⟨calm, finalKept, unchanged, fetched⟩
        refine ⟨calm, finalKept, ?_, ?_⟩
        · intro other absent
          rw [List.mem_cons, not_or] at absent
          rw [unchanged other absent.2, others other absent.1]
        · intro finished other member
          by_cases later : other ∈ rest
          · exact fetched finished other later
          · have same : other = page := by simpa [later] using member
            obtain ⟨voter, hash, found, onChain⟩ := holds rfl
            subst other
            exact ⟨voter, hash, by rw [unchanged page later, found], onChain⟩
      · rintro error store after ⟨calm, kept, _, others, _⟩
        refine ⟨by simp, kept, fun other absent => others other ?_, by simp⟩
        intro same
        exact absent (by simp [same])
      · rintro store after ⟨calm, _⟩
        exact absurd rfl calm

theorem fetchVoterPagesLossy_spec (round : Nat) (storage : AtBlock) (pages : List Nat)
    (snapshot : Snapshot T) (faithful : snapshot.Faithful chain nPages)
    (bounds : ∀ page ∈ pages, page < nPages) (trace : MinerTrace T) :
    wp (chainMonitor chain nPages) (fetchVoterPagesLossy round storage pages)
      (fun outcome store _ => outcome ≠ .panic ∧ store.Faithful chain nPages) snapshot trace := by
  induction pages generalizing snapshot trace with
  | nil => simp [fetchVoterPagesLossy, faithful]
  | cons page rest ih =>
      simp only [fetchVoterPagesLossy, wp_bind, wp_attempt]
      refine wp_mono (checkAndUpdateVoterSnapshot_spec page round storage faithful
        (bounds page (by simp))) ?_
      rintro (_ | error | _) store after ⟨calm, kept, _⟩
      · exact ih store kept (fun other member => bounds other (by simp [member])) after
      · simp only [caught, followedBy_ok]
        split
        · exact ih store kept (fun other member => bounds other (by simp [member])) after
        · exact ih store kept (fun other member => bounds other (by simp [member])) after
        · exact ⟨by simp, kept⟩
      · exact absurd rfl calm

theorem fetchMissingSnapshotsLossy_spec (round : Nat) (storage : AtBlock) (trace : MinerTrace T)
    (faithful : snapshot.Faithful chain nPages) :
    wp (chainMonitor chain nPages) (fetchMissingSnapshotsLossy storage round)
      (fun outcome store _ => outcome ≠ .panic ∧ store.Faithful chain nPages) snapshot trace := by
  have bounds (page : Nat) (member : page ∈ List.range snapshot.nPages) : page < nPages := by
    rw [← faithful.pages]
    exact List.mem_range.mp member
  simp only [fetchMissingSnapshotsLossy, wp_bind, wp_load, followedBy_ok]
  refine wp_mono (fetchVoterPagesLossy_spec round storage _ snapshot faithful bounds trace) ?_
  rintro (_ | error | _) store after ⟨calm, kept⟩
  · simp only [followedBy_ok, wp_bind, wp_attempt]
    refine wp_mono (checkAndUpdateTargetSnapshot_spec _ round storage kept) ?_
    rintro (_ | error | _) final _ ⟨stillCalm, finalKept, _⟩
    · exact ⟨by simp, finalKept⟩
    · exact ⟨by simp, finalKept⟩
    · exact absurd rfl stillCalm
  · exact ⟨by simp, kept⟩
  · exact absurd rfl calm

def HoldsSnapshot (chain : SnapshotChain T) (nPages : Nat) (storage : AtBlock) (round : Nat)
    (target : T.TargetPage) (voters : List T.VoterPage) : Prop :=
  chain.targetPage storage round (lastPage nPages) = some target ∧
    voters.map some = (List.range nPages).map (chain.voterPage storage round)

theorem voter_keys
    (inside : ∀ (page : Nat) entry, snapshot.voter[page]? = some entry → page < nPages)
    (full : ∀ page < nPages, ∃ entry, snapshot.voter[page]? = some entry) :
    snapshot.voter.toList.map Prod.fst = List.range nPages := by
  have ordered : (snapshot.voter.toList.map Prod.fst).Pairwise (· < ·) := by
    rw [List.pairwise_map]
    refine Std.TreeMap.ordered_keys_toList.imp ?_
    intro first second smaller
    exact Nat.compare_eq_lt.mp smaller
  refine ordered.eq_of_mem_iff List.pairwise_lt_range fun page => ?_
  simp only [List.mem_map, List.mem_range, Prod.exists, exists_and_right, exists_eq_right]
  constructor
  · rintro ⟨voter, hash, member⟩
    rw [Std.TreeMap.mem_toList_iff_getElem?_eq_some] at member
    exact inside page _ member
  · intro bound
    obtain ⟨⟨voter, hash⟩, found⟩ := full page bound
    exact ⟨voter, hash, Std.TreeMap.mem_toList_iff_getElem?_eq_some.mpr found⟩

theorem get_holds {storage : AtBlock} {round : Nat} (faithful : snapshot.Faithful chain nPages)
    (target : HoldsTarget chain storage round (lastPage nPages) snapshot)
    (voters : ∀ page < nPages, HoldsVoter chain storage round page snapshot) :
    ∃ targetPage voterPages, snapshot.get = some (targetPage, voterPages) ∧
      HoldsSnapshot chain nPages storage round targetPage voterPages := by
  obtain ⟨targetPage, hash, found, onChain⟩ := target
  refine ⟨targetPage, snapshot.voter.toList.map fun entry => entry.2.1,
    by simp [Snapshot.get, found], onChain, ?_⟩
  have keys : snapshot.voter.toList.map Prod.fst = List.range nPages := by
    refine voter_keys (fun page entry found => (faithful.voter page _ _ found).1) ?_
    intro page bound
    obtain ⟨voter, hash, found, _⟩ := voters page bound
    exact ⟨_, found⟩
  rw [← keys, List.map_map, List.map_map]
  refine List.map_congr_left ?_
  rintro ⟨page, voter, hash⟩ member
  rw [Std.TreeMap.mem_toList_iff_getElem?_eq_some] at member
  obtain ⟨stored, storedHash, found, onChain⟩ :=
    voters page (faithful.voter page voter hash member).1
  rw [member] at found
  simp only [Option.some.injEq, Prod.mk.injEq] at found
  simp [onChain, found.1]

/-- A strict fetch that succeeds leaves exactly the snapshot of the block in the cache,
whatever the cache held before. -/
theorem fetchMissingSnapshots_spec (round : Nat) (storage : AtBlock) (trace : MinerTrace T)
    (faithful : snapshot.Faithful chain nPages) :
    wp (chainMonitor chain nPages) (fetchMissingSnapshots storage round)
      (fun outcome store _ => outcome ≠ .panic ∧ store.Faithful chain nPages ∧
        (outcome = .ok () → ∃ target voters, store.get = some (target, voters) ∧
          HoldsSnapshot chain nPages storage round target voters)) snapshot trace := by
  have bounds (page : Nat) (member : page ∈ List.range snapshot.nPages) : page < nPages := by
    rw [← faithful.pages]
    exact List.mem_range.mp member
  simp only [fetchMissingSnapshots, wp_bind, wp_load, followedBy_ok]
  refine wp_mono (fetchVoterPages_spec round storage _ snapshot faithful bounds trace) ?_
  rintro (_ | error | _) store after ⟨calm, kept, _, fetched⟩
  · simp only [followedBy_ok]
    refine wp_mono (checkAndUpdateTargetSnapshot_spec _ round storage kept) ?_
    rintro outcome final _ ⟨stillCalm, finalKept, sameVoters, target⟩
    refine ⟨stillCalm, finalKept, fun finished => ?_⟩
    refine get_holds finalKept (faithful.pages ▸ target finished) fun page bound => ?_
    have member : page ∈ List.range snapshot.nPages := by
      rw [faithful.pages]
      exact List.mem_range.mpr bound
    obtain ⟨voter, hash, found, onChain⟩ := fetched rfl page member
    exact ⟨voter, hash, by rw [sameVoters, found], onChain⟩
  · exact ⟨by simp, kept, by simp⟩
  · exact absurd rfl calm

end LeanStakingMiner
