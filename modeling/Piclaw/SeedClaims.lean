import Piclaw.Transactions

/-!
# Deferred branch seeds on disk

The primary and the claimed file of one chat, the realization that the session manager has in
flight, and crashes between any two file operations. A seed file is known by the write that made
it, so its number stands for its content too.
-/

namespace Piclaw
open Relational

inductive SeedFileOp
  | writeTemp (seed : ℕ)
  | renameTemp
  | removeClaimed
  | claimPrimary
  | restoreClaimed
  deriving DecidableEq

/-- `latest` is the seed of the last write that took effect. -/
structure SeedFiles where
  temp : Option ℕ
  primary : Option ℕ
  claimed : Option ℕ
  latest : Option ℕ
  deriving DecidableEq

namespace SeedFiles

def apply (f : SeedFiles) : SeedFileOp → SeedFiles
  | .writeTemp seed => { f with temp := some seed }
  | .renameTemp =>
    match f.temp with
    | none => f
    | some seed =>
      { f with
        temp := none
        primary := some seed
        latest := some seed }
  | .removeClaimed => { f with claimed := none }
  | .claimPrimary =>
    match f.primary with
    | none => f
    | some seed =>
      { f with
        primary := none
        claimed := some seed }
  | .restoreClaimed =>
    match f.claimed with
    | none => f
    | some seed =>
      { f with
        claimed := none
        primary := some seed }

def writeDeferredBranchSeed (seed : ℕ) : List SeedFileOp :=
  [.writeTemp seed, .renameTemp, .removeClaimed]

def claimDeferredBranchSeed (f : SeedFiles) : List SeedFileOp :=
  if f.primary.isSome then [.claimPrimary] else []

/-- The seed that the claim reads: what it renamed, or what it found claimed. -/
def claimedSeed (f : SeedFiles) : Option ℕ := f.primary.orElse fun _ => f.claimed

def restoreClaimedDeferredBranchSeed (f : SeedFiles) : List SeedFileOp :=
  if f.claimed.isNone then []
  else if f.primary.isSome then [.removeClaimed]
  else [.restoreClaimed]

def finalizeClaimedDeferredBranchSeed : List SeedFileOp := [.removeClaimed]

/-- At every moment the latest seed can be read, unless it has been realized. -/
def Readable (f : SeedFiles) (reopened : List ℕ) : Prop :=
  ∀ seed, f.latest = some seed →
    f.primary = some seed ∨ f.claimed = some seed ∨ seed ∈ reopened

end SeedFiles

/-- Where a realization waits: for `newSession`, for the model, for `switchSession`. -/
inductive RealizationStage
  | seeding
  | applyingModel
  | reopening
  deriving DecidableEq

structure SeedRealization where
  seed : ℕ
  stage : RealizationStage
  deriving DecidableEq

/-- A creation before its runtime is in the pool, while the seed is realized, while the runtime is
bound, and while the runtime of a failed creation is disposed of. -/
inductive SessionCreation
  | starting
  | realizing
  | binding
  | disposing
  deriving DecidableEq

/-- What a crash forgets. -/
structure SeedMemory where
  pooled : Bool
  creation : Option SessionCreation
  realization : Option SeedRealization
  deriving DecidableEq

def SeedMemory.restarted : SeedMemory := ⟨false, none, none⟩

/-- `reopened` lists the seeds whose session has been persisted and reopened; `failed` says that a
realization has failed and none has started since. -/
structure SeedState where
  files : SeedFiles
  memory : SeedMemory
  written : ℕ
  reopened : List ℕ
  failed : Bool

inductive SeedEvent
  | writeDeferredBranchSeed
  | getOrCreate
  | sessionCreated
  | sessionCreationFailed
  | advance
  | fail
  | bound (succeeded : Bool)
  | disposed

/-- A synchronous section: its file operations, and what it leaves in memory if it is not cut. -/
structure SeedSection where
  ops : List SeedFileOp
  memory : SeedMemory
  reopened : List ℕ
  failed : Bool

namespace SeedState

def initial : SeedState := ⟨⟨none, none, none, none⟩, .restarted, 0, [], false⟩

/-- A section without file operations. -/
def quiet (s : SeedState) (memory : SeedMemory) : SeedSection :=
  ⟨[], memory, s.reopened, s.failed⟩

/-- `realizeDeferredBranchSeed`: it joins the realization in flight, or claims. `memory` is what
its caller has set up. -/
def realizeDeferredBranchSeed (s : SeedState) (memory : SeedMemory) : SeedSection :=
  if memory.realization.isSome then s.quiet memory
  else
    match s.files.claimedSeed with
    | none =>
      let creation := if memory.creation = some .realizing then some .binding else memory.creation
      ⟨s.files.claimDeferredBranchSeed, { memory with creation }, s.reopened, s.failed⟩
    | some seed =>
      ⟨s.files.claimDeferredBranchSeed, { memory with realization := some ⟨seed, .seeding⟩ },
        s.reopened, false⟩

def advance (s : SeedState) (r : SeedRealization) : SeedSection :=
  match r.stage with
  | .seeding => s.quiet { s.memory with realization := some { r with stage := .applyingModel } }
  | .applyingModel => s.quiet { s.memory with realization := some { r with stage := .reopening } }
  | .reopening =>
    let creation := if s.memory.creation = some .realizing then some .binding else s.memory.creation
    ⟨SeedFiles.finalizeClaimedDeferredBranchSeed,
      { s.memory with
        creation
        realization := none },
      r.seed :: s.reopened, s.failed⟩

/-- An await of the realization rejects, and the runtime is taken from the pool. -/
def fail (s : SeedState) : SeedSection :=
  ⟨s.files.restoreClaimedDeferredBranchSeed,
    { pooled := false
      creation := if s.memory.creation.isSome then some .disposing else none
      realization := none },
    s.reopened, true⟩

def getOrCreate (s : SeedState) : SeedSection :=
  if s.memory.creation.isSome then s.quiet s.memory
  else if s.memory.pooled then s.realizeDeferredBranchSeed s.memory
  else s.quiet { s.memory with creation := some .starting }

def perform (s : SeedState) : SeedEvent → SeedSection
  | .writeDeferredBranchSeed =>
    ⟨SeedFiles.writeDeferredBranchSeed s.written, s.memory, s.reopened, s.failed⟩
  | .getOrCreate => s.getOrCreate
  | .sessionCreated =>
    if s.memory.creation = some .starting then
      s.realizeDeferredBranchSeed
        { s.memory with
          pooled := true
          creation := some .realizing }
    else s.quiet s.memory
  | .sessionCreationFailed =>
    if s.memory.creation = some .starting then s.quiet { s.memory with creation := none }
    else s.quiet s.memory
  | .advance =>
    match s.memory.realization with
    | none => s.quiet s.memory
    | some r => s.advance r
  | .fail => if s.memory.realization.isSome then s.fail else s.quiet s.memory
  | .bound succeeded =>
    if s.memory.creation = some .binding then
      s.quiet { s.memory with
        pooled := s.memory.pooled && succeeded
        creation := if succeeded then none else some .disposing }
    else s.quiet s.memory
  | .disposed =>
    if s.memory.creation = some .disposing then s.quiet { s.memory with creation := none }
    else s.quiet s.memory

/-- An event, cut by a crash after `crashAfter` file operations or not at all. -/
def step (s : SeedState) (call : SeedEvent × Option ℕ) : SeedState :=
  let performed := s.perform call.1
  match call.2 with
  | none =>
    { files := performed.ops.foldl SeedFiles.apply s.files
      memory := performed.memory
      written := s.written + 1
      reopened := performed.reopened
      failed := performed.failed }
  | some crashAfter =>
    { files := { (performed.ops.take crashAfter).foldl SeedFiles.apply s.files with temp := none }
      memory := .restarted
      written := s.written + 1
      reopened := performed.reopened
      failed := s.failed }

/-- A claim never returns a seed older than the latest one. -/
def ClaimsLatest (s : SeedState) (event : SeedEvent) : Prop :=
  ∀ r, s.memory.realization = none → (s.perform event).memory.realization = some r →
    s.files.latest = some r.seed

/-- The event brings a `getOrCreate` to the realization of its runtime's seed. -/
def ReachesRealization (s : SeedState) (event : SeedEvent) : Prop :=
  (event = .getOrCreate ∧ s.memory.creation = none ∧ s.memory.pooled) ∨
    (event = .sessionCreated ∧ s.memory.creation = some .starting)

/-- After a failed realization the next one realizes the latest seed. -/
def RetriesLatest (s : SeedState) (event : SeedEvent) : Prop :=
  s.failed → s.memory.realization = none → s.ReachesRealization event →
    ∃ r, (s.perform event).memory.realization = some r ∧ s.files.latest = some r.seed

end SeedState

namespace SeedFiles
variable {f : SeedFiles} {reopened : List ℕ} {k : ℕ}

/-- The primary file holds the latest seed, and without one the claimed file does. -/
structure Stored (f : SeedFiles) (reopened : List ℕ) : Prop where
  primary : ∀ seed, f.primary = some seed → f.latest = some seed
  claimed : f.primary = none → ∀ seed, f.claimed = some seed → f.latest = some seed
  readable : f.Readable reopened

theorem Stored.mono {reopened' : List ℕ} (h : f.Stored reopened) (hsub : reopened ⊆ reopened') :
    f.Stored reopened' := by
  refine ⟨h.primary, h.claimed, fun seed hseed => ?_⟩
  rcases h.readable seed hseed with hp | hc | hr
  · exact .inl hp
  · exact .inr (.inl hc)
  · exact .inr (.inr (hsub hr))

theorem Stored.claimedSeed (h : f.Stored reopened) {seed : ℕ} (hseed : f.claimedSeed = some seed) :
    f.latest = some seed := by
  unfold SeedFiles.claimedSeed at hseed
  cases hp : f.primary with
  | none =>
    rw [hp] at hseed
    exact h.claimed hp seed hseed
  | some other =>
    rw [hp] at hseed
    exact h.primary seed (hp.trans hseed)

theorem foldl_take_one (op : SeedFileOp) :
    ([op].take (k + 1)).foldl apply f = f.apply op := by
  rw [List.take_succ_cons, List.take_nil]
  rfl

theorem Stored.write (h : f.Stored reopened) (seed : ℕ) :
    (((writeDeferredBranchSeed seed).take k).foldl apply f).Stored reopened := by
  have htemp : (f.apply (.writeTemp seed)).Stored reopened := ⟨h.primary, h.claimed, h.readable⟩
  have hrenamed : ((f.apply (.writeTemp seed)).apply .renameTemp).Stored reopened := by
    refine ⟨fun w hw => hw, fun hnone => ?_, fun w hw => .inl hw⟩
    cases hnone
  match k with
  | 0 => exact h
  | 1 => exact htemp
  | 2 => exact hrenamed
  | k + 3 =>
    have hall : (writeDeferredBranchSeed seed).take (k + 3) = writeDeferredBranchSeed seed :=
      List.take_of_length_le (Nat.le_add_left 3 k)
    rw [hall]
    refine ⟨hrenamed.primary, fun _ w hw => ?_, fun w hw => .inl hw⟩
    cases hw

theorem Stored.claim (h : f.Stored reopened) :
    ((f.claimDeferredBranchSeed.take k).foldl apply f).Stored reopened := by
  unfold claimDeferredBranchSeed
  cases hp : f.primary with
  | none =>
    rw [Option.isSome_none, if_neg Bool.false_ne_true, List.take_nil]
    exact h
  | some seed =>
    rw [Option.isSome_some, if_pos rfl]
    cases k with
    | zero => exact h
    | succ k =>
      have hlatest := h.primary seed hp
      have happly : f.apply .claimPrimary = { f with primary := none, claimed := some seed } := by
        unfold apply
        rw [hp]
      rw [foldl_take_one, happly]
      refine ⟨fun w hw => ?_, fun _ w hw => ?_, fun w hw => .inr (.inl ?_)⟩
      · cases hw
      · cases hw
        exact hlatest
      · exact hlatest.symm.trans hw

theorem Stored.restore (h : f.Stored reopened) :
    ((f.restoreClaimedDeferredBranchSeed.take k).foldl apply f).Stored reopened := by
  unfold restoreClaimedDeferredBranchSeed
  split_ifs with hnone hprimary
  · rw [List.take_nil]
    exact h
  · cases k with
    | zero => exact h
    | succ k =>
      obtain ⟨seed, hp⟩ := Option.isSome_iff_exists.mp hprimary
      rw [foldl_take_one]
      refine ⟨h.primary, fun hnone => ?_, fun w hw => .inl ?_⟩
      · exact absurd (hp.symm.trans hnone) (by simp)
      · have hlatest := h.primary seed hp
        change f.primary = some w
        rw [hp, ← hlatest]
        exact hw
  · have hp : f.primary = none := by simpa using hprimary
    obtain ⟨seed, hc⟩ := Option.isSome_iff_exists.mp (Option.isSome_iff_ne_none.mpr (by simpa using hnone))
    cases k with
    | zero => exact h
    | succ k =>
      have hlatest := h.claimed hp seed hc
      have happly : f.apply .restoreClaimed = { f with claimed := none, primary := some seed } := by
        unfold apply
        rw [hc]
      rw [foldl_take_one, happly]
      refine ⟨fun w hw => ?_, fun hnone => ?_, fun w hw => .inl ?_⟩
      · cases hw
        exact hlatest
      · cases hnone
      · exact hlatest.symm.trans hw

/-- The finalization removes only the seed that has been realized. -/
theorem Stored.finalize (h : f.Stored reopened) (hown : ∀ c, f.claimed = some c → c ∈ reopened) :
    ((finalizeClaimedDeferredBranchSeed.take k).foldl apply f).Stored reopened := by
  cases k with
  | zero => exact h
  | succ k =>
    unfold finalizeClaimedDeferredBranchSeed
    rw [foldl_take_one]
    refine ⟨h.primary, fun _ w hw => ?_, fun w hw => ?_⟩
    · cases hw
    · rcases h.readable w hw with hp | hc | hr
      · exact .inl hp
      · exact .inr (.inr (hown w hc))
      · exact .inr (.inr hr)

end SeedFiles

namespace SeedState
variable {s : SeedState} {event : SeedEvent} {memory : SeedMemory}

/-- A claimed file next to a realization in flight is the one it claimed. -/
structure Sound (s : SeedState) : Prop where
  stored : s.files.Stored s.reopened
  claimed : ∀ r, s.memory.realization = some r → ∀ c, s.files.claimed = some c → c = r.seed
  present : ∀ r, s.memory.realization = some r →
    s.files.primary.isSome ∨ s.files.claimed = some r.seed
  failed : s.failed → s.memory.realization = none ∧
    (s.files.primary.isSome ∨ s.files.claimed.isSome)

theorem sound_initial : initial.Sound := by
  refine ⟨⟨?_, ?_, ?_⟩, ?_, ?_, ?_⟩
  · intro seed h
    cases h
  · intro _ seed h
    cases h
  · intro seed h
    cases h
  · intro r h
    cases h
  · intro r h
    cases h
  · intro h
    cases h

/-- What a section must leave, cut or not. -/
structure SectionSound (s : SeedState) (performed : SeedSection) : Prop where
  stored : ∀ k, ((performed.ops.take k).foldl SeedFiles.apply s.files).Stored performed.reopened
  claimed : ∀ r, performed.memory.realization = some r →
    ∀ c, (performed.ops.foldl SeedFiles.apply s.files).claimed = some c → c = r.seed
  present : ∀ r, performed.memory.realization = some r →
    (performed.ops.foldl SeedFiles.apply s.files).primary.isSome ∨
      (performed.ops.foldl SeedFiles.apply s.files).claimed = some r.seed
  failed : performed.failed → performed.memory.realization = none ∧
    ((performed.ops.foldl SeedFiles.apply s.files).primary.isSome ∨
      (performed.ops.foldl SeedFiles.apply s.files).claimed.isSome)
  kept : s.failed → ∀ k, ((performed.ops.take k).foldl SeedFiles.apply s.files).primary.isSome ∨
    ((performed.ops.take k).foldl SeedFiles.apply s.files).claimed.isSome

theorem sound_quiet (hs : s.Sound) (hmemory : memory.realization.map (·.seed) =
    s.memory.realization.map (·.seed)) : s.SectionSound (s.quiet memory) := by
  have hflight : ∀ r, memory.realization = some r →
      ∃ r', s.memory.realization = some r' ∧ r'.seed = r.seed := by
    intro r hr
    rw [hr, Option.map_some, eq_comm, Option.map_eq_some_iff] at hmemory
    exact hmemory
  unfold quiet
  constructor
  · intro k
    rw [List.take_nil]
    exact hs.stored
  · intro r hr c hc
    obtain ⟨r', hr', hseed⟩ := hflight r hr
    rw [← hseed]
    exact hs.claimed r' hr' c hc
  · intro r hr
    obtain ⟨r', hr', hseed⟩ := hflight r hr
    rw [← hseed]
    exact hs.present r' hr'
  · intro hfailed
    obtain ⟨hnone, hpresent⟩ := hs.failed hfailed
    refine ⟨?_, hpresent⟩
    rw [hnone, Option.map_none, Option.map_eq_none_iff] at hmemory
    exact hmemory
  · intro hfailed k
    rw [List.take_nil]
    exact (hs.failed hfailed).2

/-- After a claim its seed is the claimed file. -/
theorem files_claimed {seed : ℕ} (hseed : s.files.claimedSeed = some seed) :
    (s.files.claimDeferredBranchSeed.foldl SeedFiles.apply s.files).claimed = some seed := by
  unfold SeedFiles.claimDeferredBranchSeed
  unfold SeedFiles.claimedSeed at hseed
  cases hp : s.files.primary with
  | none =>
    rw [hp] at hseed
    exact hseed
  | some other =>
    rw [hp] at hseed
    rw [Option.isSome_some, if_pos rfl]
    change (s.files.apply .claimPrimary).claimed = some seed
    unfold SeedFiles.apply
    rw [hp]
    exact hseed

theorem sound_realize (hs : s.Sound) (hmemory : memory.realization = s.memory.realization) :
    s.SectionSound (s.realizeDeferredBranchSeed memory) := by
  unfold realizeDeferredBranchSeed
  by_cases hflight : memory.realization.isSome
  · rw [if_pos hflight]
    exact sound_quiet hs (by rw [hmemory])
  · rw [if_neg hflight]
    have hnone : memory.realization = none := by simpa using hflight
    cases hseed : s.files.claimedSeed with
    | none =>
      have hp : s.files.primary = none := by
        unfold SeedFiles.claimedSeed at hseed
        cases hp : s.files.primary with
        | none => rfl
        | some seed =>
          rw [hp] at hseed
          cases hseed
      have hops : s.files.claimDeferredBranchSeed = [] := by
        unfold SeedFiles.claimDeferredBranchSeed
        rw [hp]
        rfl
      dsimp only
      rw [hops]
      refine sound_quiet hs ?_
      dsimp only
      rw [hmemory]
    | some seed =>
      have hclaimed := files_claimed hseed
      constructor
      · intro k
        exact hs.stored.claim
      · intro r hr c hc
        cases hr
        exact Option.some.inj (hc.symm.trans hclaimed)
      · intro r hr
        cases hr
        exact .inr hclaimed
      · intro hfailed
        cases hfailed
      · intro hfailed k
        have hkept := (hs.failed hfailed).2
        dsimp only
        unfold SeedFiles.claimDeferredBranchSeed
        cases hp : s.files.primary with
        | none =>
          rw [hp] at hkept
          rw [Option.isSome_none, if_neg Bool.false_ne_true, List.take_nil]
          exact .inr (hkept.resolve_left Bool.false_ne_true)
        | some other =>
          rw [Option.isSome_some, if_pos rfl]
          cases k with
          | zero => exact .inl (by rw [List.take_zero, List.foldl_nil, hp]; rfl)
          | succ k =>
            rw [SeedFiles.foldl_take_one]
            right
            unfold SeedFiles.apply
            rw [hp]
            rfl

theorem sound_write (hs : s.Sound) : s.SectionSound (s.perform .writeDeferredBranchSeed) := by
  unfold perform
  constructor
  · intro k
    exact hs.stored.write s.written
  · intro r _ c hc
    cases hc
  · intro r _
    exact .inl rfl
  · intro hfailed
    exact ⟨(hs.failed hfailed).1, .inl rfl⟩
  · intro hfailed k
    have hkept := (hs.failed hfailed).2
    match k with
    | 0 => exact hkept
    | 1 => exact hkept
    | 2 => exact .inl rfl
    | k + 3 =>
      have hall : (SeedFiles.writeDeferredBranchSeed s.written).take (k + 3) =
          SeedFiles.writeDeferredBranchSeed s.written :=
        List.take_of_length_le (Nat.le_add_left 3 k)
      dsimp only
      rw [hall]
      exact .inl rfl

theorem sound_fail (hs : s.Sound) {r : SeedRealization} (hr : s.memory.realization = some r) :
    s.SectionSound s.fail := by
  have hfailed : ¬ s.failed := by
    intro h
    rw [(hs.failed h).1] at hr
    cases hr
  unfold fail
  constructor
  · intro k
    exact hs.stored.restore
  · intro r hr
    cases hr
  · intro r hr
    cases hr
  · refine fun _ => ⟨rfl, .inl ?_⟩
    dsimp only
    unfold SeedFiles.restoreClaimedDeferredBranchSeed
    split_ifs with hnone hprimary
    · rcases hs.present r hr with hp | hc
      · exact hp
      · rw [hc] at hnone
        cases hnone
    · exact hprimary
    · obtain ⟨seed, hc⟩ := Option.ne_none_iff_exists'.mp (by simpa using hnone)
      change (s.files.apply .restoreClaimed).primary.isSome
      unfold SeedFiles.apply
      rw [hc]
      rfl
  · exact fun h => absurd h hfailed

theorem sound_advance (hs : s.Sound) {r : SeedRealization} (hr : s.memory.realization = some r) :
    s.SectionSound (s.advance r) := by
  have hfailed : ¬ s.failed := by
    intro h
    rw [(hs.failed h).1] at hr
    cases hr
  unfold advance
  cases hstage : r.stage with
  | seeding => exact sound_quiet hs (by rw [hr]; rfl)
  | applyingModel => exact sound_quiet hs (by rw [hr]; rfl)
  | reopening =>
    have hstored := hs.stored.mono (List.subset_cons_self r.seed s.reopened)
    constructor
    · intro k
      refine hstored.finalize fun c hc => ?_
      rw [hs.claimed r hr c hc]
      exact List.mem_cons_self
    · intro r hr
      cases hr
    · intro r hr
      cases hr
    · exact fun h => absurd h hfailed
    · exact fun h => absurd h hfailed

theorem sound_perform (hs : s.Sound) (event : SeedEvent) : s.SectionSound (s.perform event) := by
  cases event with
  | writeDeferredBranchSeed => exact sound_write hs
  | getOrCreate =>
    unfold perform getOrCreate
    dsimp only
    split_ifs
    · exact sound_quiet hs rfl
    · exact sound_realize hs rfl
    · exact sound_quiet hs rfl
  | sessionCreated =>
    unfold perform
    dsimp only
    split_ifs
    · exact sound_realize hs rfl
    · exact sound_quiet hs rfl
  | sessionCreationFailed =>
    unfold perform
    dsimp only
    split_ifs
    · exact sound_quiet hs rfl
    · exact sound_quiet hs rfl
  | advance =>
    unfold perform
    dsimp only
    cases hr : s.memory.realization with
    | none => exact sound_quiet hs rfl
    | some r => exact sound_advance hs hr
  | fail =>
    unfold perform
    dsimp only
    split_ifs with hflight
    · obtain ⟨r, hr⟩ := Option.isSome_iff_exists.mp hflight
      exact sound_fail hs hr
    · exact sound_quiet hs rfl
  | bound succeeded =>
    unfold perform
    dsimp only
    by_cases hbinding : s.memory.creation = some .binding
    · rw [if_pos hbinding]
      exact sound_quiet hs rfl
    · rw [if_neg hbinding]
      exact sound_quiet hs rfl
  | disposed =>
    unfold perform
    dsimp only
    split_ifs
    · exact sound_quiet hs rfl
    · exact sound_quiet hs rfl

theorem Sound.step (hs : s.Sound) (call : SeedEvent × Option ℕ) : (s.step call).Sound := by
  obtain ⟨event, cut⟩ := call
  have hsection := sound_perform hs event
  unfold SeedState.step
  cases cut with
  | none =>
    refine ⟨?_, hsection.claimed, hsection.present, hsection.failed⟩
    have hall := hsection.stored (s.perform event).ops.length
    rw [List.take_length] at hall
    exact hall
  | some crashAfter =>
    have hcut := hsection.stored crashAfter
    refine ⟨⟨hcut.primary, hcut.claimed, hcut.readable⟩, ?_, ?_, ?_⟩
    · intro r hr
      cases hr
    · intro r hr
      cases hr
    · intro hfailed
      exact ⟨rfl, hsection.kept hfailed crashAfter⟩

theorem claimed_of_realize (hs : s.Sound) (hmemory : memory.realization = none)
    {r : SeedRealization} (hr : (s.realizeDeferredBranchSeed memory).memory.realization = some r) :
    s.files.latest = some r.seed := by
  unfold realizeDeferredBranchSeed at hr
  rw [if_neg (by simp [hmemory])] at hr
  cases hseed : s.files.claimedSeed with
  | none =>
    rw [hseed] at hr
    cases hmemory.symm.trans hr
  | some seed =>
    rw [hseed] at hr
    cases hr
    exact hs.stored.claimedSeed hseed

theorem Sound.claimsLatest (hs : s.Sound) : s.ClaimsLatest event := by
  intro r hnone hr
  cases event with
  | writeDeferredBranchSeed => cases hnone.symm.trans hr
  | getOrCreate =>
    unfold perform getOrCreate at hr
    dsimp only at hr
    split_ifs at hr
    · cases hnone.symm.trans hr
    · exact claimed_of_realize hs hnone hr
    · cases hnone.symm.trans hr
  | sessionCreated =>
    unfold perform at hr
    dsimp only at hr
    split_ifs at hr
    · refine claimed_of_realize hs ?_ hr
      exact hnone
    · cases hnone.symm.trans hr
  | sessionCreationFailed =>
    unfold perform at hr
    dsimp only at hr
    split_ifs at hr
    · cases hnone.symm.trans hr
    · cases hnone.symm.trans hr
  | advance =>
    unfold perform at hr
    simp only [hnone] at hr
    cases hnone.symm.trans hr
  | fail =>
    unfold perform at hr
    simp only [hnone, Option.isSome_none, Bool.false_eq_true, if_false] at hr
    cases hnone.symm.trans hr
  | bound succeeded =>
    unfold perform at hr
    dsimp only at hr
    by_cases hbinding : s.memory.creation = some .binding
    · rw [if_pos hbinding] at hr
      cases hnone.symm.trans hr
    · rw [if_neg hbinding] at hr
      cases hnone.symm.trans hr
  | disposed =>
    unfold perform at hr
    dsimp only at hr
    split_ifs at hr
    · cases hnone.symm.trans hr
    · cases hnone.symm.trans hr

theorem Sound.realizes (hs : s.Sound) (hfailed : s.failed) (hmemory : memory.realization = none) :
    ∃ r, (s.realizeDeferredBranchSeed memory).memory.realization = some r := by
  have hpresent := (hs.failed hfailed).2
  obtain ⟨seed, hseed⟩ : ∃ seed, s.files.claimedSeed = some seed := by
    unfold SeedFiles.claimedSeed
    cases hp : s.files.primary with
    | none =>
      rw [hp] at hpresent
      exact Option.isSome_iff_exists.mp (hpresent.resolve_left Bool.false_ne_true)
    | some seed => exact ⟨seed, rfl⟩
  refine ⟨⟨seed, .seeding⟩, ?_⟩
  unfold realizeDeferredBranchSeed
  rw [if_neg (by simp [hmemory]), hseed]

theorem Sound.retriesLatest (hs : s.Sound) : s.RetriesLatest event := by
  intro hfailed hnone hreaches
  rcases hreaches with ⟨rfl, hcreation, hpooled⟩ | ⟨rfl, hcreation⟩
  · have hperform : s.perform .getOrCreate = s.realizeDeferredBranchSeed s.memory := by
      unfold perform getOrCreate
      dsimp only
      rw [if_neg (by simp [hcreation]), if_pos hpooled]
    rw [hperform]
    obtain ⟨r, hr⟩ := hs.realizes hfailed hnone
    exact ⟨r, hr, claimed_of_realize hs hnone hr⟩
  · have hperform : s.perform .sessionCreated = s.realizeDeferredBranchSeed
        { s.memory with
          pooled := true
          creation := some .realizing } := by
      unfold perform
      dsimp only
      rw [if_pos hcreation]
    rw [hperform]
    obtain ⟨r, hr⟩ := @Sound.realizes s { s.memory with
      pooled := true
      creation := some .realizing } hs hfailed hnone
    refine ⟨r, hr, claimed_of_realize hs ?_ hr⟩
    exact hnone

end SeedState
end Piclaw
