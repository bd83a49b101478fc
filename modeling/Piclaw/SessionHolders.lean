import Piclaw.SessionPool

/-!
# Who holds a pooled runtime

A call holds the runtime that it has found in the pool or published there, until it returns it.
While admissions are open, the pool's entry of a chat is the runtime that the calls of the chat
hold, no disposal of it has been started, and the calls that wait for its seed or its binding
protect it from eviction.
-/

namespace Piclaw
namespace SessionCall

/-- The chat whose creation the call runs. -/
def creates : SessionCall → Option String
  | .preparing chat _ => some chat
  | .creating chat _ => some chat
  | .discarding chat _ => some chat
  | .seeding chat _ _ => some chat
  | .binding chat _ _ => some chat
  | _ => none

/-- The chat of a creation whose runtime is not in the pool yet. -/
def unpublished : SessionCall → Option String
  | .preparing chat _ => some chat
  | .creating chat _ => some chat
  | _ => none

def holds : SessionCall → Option (String × ℕ)
  | .realizing chat _ runtime => some (chat, runtime)
  | .seeding chat _ runtime => some (chat, runtime)
  | .binding chat _ runtime => some (chat, runtime)
  | .returning chat _ runtime => some (chat, runtime)
  | _ => none

/-- The chat that the call protects from eviction. -/
def protects : SessionCall → Option String
  | .realizing chat _ _ => some chat
  | .preparing chat _ => some chat
  | .creating chat _ => some chat
  | .seeding chat _ _ => some chat
  | .binding chat _ _ => some chat
  | _ => none

/-- The creation that the call waits for. -/
def joins : SessionCall → Option (String × ℕ)
  | .joining chat _ task => some (chat, task)
  | _ => none

/-- What a call can be once its creation has ended. -/
def ended : SessionCall → Bool
  | .returning .. => true
  | .resolved .. => true
  | .rejected => true
  | _ => false

/-- A shutdown under way. -/
def shuts : SessionCall → Bool
  | .draining => true
  | .shuttingDown .. => true
  | _ => false

end SessionCall

namespace SessionPool
variable {s : SessionPool} {i : ℕ} {chat : String} {runtime : ℕ} {call : SessionCall}

/-- The call has found or published the runtime, or waits for a creation that has ended with it. -/
def Holds (s : SessionPool) (i : ℕ) (chat : String) (runtime : ℕ) : Prop :=
  (s.calls i).holds = some (chat, runtime) ∨
    ∃ task chat', (s.calls i).joins = some (chat, task) ∧
      s.outcomes task = some (chat', some runtime)

/-- No call holds a runtime of the chat. -/
def Free (s : SessionPool) (chat : String) : Prop := ∀ i runtime, ¬ s.Holds i chat runtime

/-- Every call that holds a runtime of the chat protects it, and the chat has a trimmed id. -/
def Sheltered (s : SessionPool) (chat : String) : Prop :=
  ∀ i runtime, s.Holds i chat runtime →
    (s.calls i).protects = some chat ∧ trim chat = chat ∧ chat ≠ ""

structure Open (s : SessionPool) : Prop where
  fresh : ∀ chat runtime, s.pool.get chat = some runtime → runtime ∉ s.disposed
  absent : ∀ i chat, (s.calls i).unpublished = some chat → s.pool.get chat = none
  held : ∀ i chat runtime, s.Holds i chat runtime → s.pool.get chat = some runtime
  sheltered : ∀ i chat, (s.calls i).protects = some chat → trim chat = chat → chat ≠ "" →
    (i, chat) ∈ s.evictionProtections

structure Sound (s : SessionPool) : Prop where
  owned : ∀ chat runtime, s.pool.get chat = some runtime → s.created[runtime]? = some chat
  known : ∀ runtime ∈ s.disposed, runtime < s.created.length
  made : ∀ i chat runtime, (s.calls i).holds = some (chat, runtime) →
    s.created[runtime]? = some chat
  finished : ∀ i chat runtime, s.outcomes i = some (chat, some runtime) →
    s.created[runtime]? = some chat
  inFlight : ∀ i chat, (s.calls i).creates = some chat ↔ s.createInFlight.get chat = some i
  joined : ∀ i chat task, (s.calls i).joins = some (chat, task) →
    (s.calls task).creates = some chat ∨ ∃ runtime, s.outcomes task = some (chat, runtime)
  ended : ∀ i, (s.outcomes i).isSome → (s.calls i).ended
  live : s.mcpAdmissionsBlocked = false → s.Open
  closing : ∀ i, (s.calls i).shuts → s.mcpAdmissionsBlocked = true

section Moves

theorem calls_goto (j : ℕ) :
    (s.goto i call).calls j = if j = i then call else s.calls j := by
  unfold goto
  dsimp only
  rw [Function.update_apply]

/-- What a call may become where nothing else changes. -/
structure Follows (s : SessionPool) (i : ℕ) (call : SessionCall) : Prop where
  creates : call.creates = (s.calls i).creates
  made : ∀ chat runtime, call.holds = some (chat, runtime) → s.created[runtime]? = some chat
  joined : ∀ chat task, call.joins = some (chat, task) → (s.calls task).creates = some chat ∨
    ∃ runtime, s.outcomes task = some (chat, runtime)
  ended : (s.outcomes i).isSome → call.ended
  absent : s.mcpAdmissionsBlocked = false → ∀ chat, call.unpublished = some chat →
    s.pool.get chat = none
  held : s.mcpAdmissionsBlocked = false → ∀ chat runtime, call.holds = some (chat, runtime) →
    s.pool.get chat = some runtime
  awaited : s.mcpAdmissionsBlocked = false → ∀ chat task chat' runtime,
    call.joins = some (chat, task) → s.outcomes task = some (chat', some runtime) →
    s.pool.get chat = some runtime
  sheltered : s.mcpAdmissionsBlocked = false → ∀ chat, call.protects = some chat →
    trim chat = chat → chat ≠ "" → (i, chat) ∈ s.evictionProtections
  closing : call.shuts → s.mcpAdmissionsBlocked = true

theorem Sound.goto (hs : s.Sound) (h : s.Follows i call) : (s.goto i call).Sound := by
  have hcreates : ∀ j, ((s.goto i call).calls j).creates = (s.calls j).creates := by
    intro j
    rw [calls_goto]
    split_ifs with hj
    · rw [hj]
      exact h.creates
    · rfl
  constructor
  · exact hs.owned
  · exact hs.known
  · intro j chat runtime hj
    rw [calls_goto] at hj
    split_ifs at hj
    · exact h.made chat runtime hj
    · exact hs.made j chat runtime hj
  · exact hs.finished
  · intro j chat
    rw [hcreates]
    exact hs.inFlight j chat
  · intro j chat task hjoins
    rw [hcreates]
    rw [calls_goto] at hjoins
    split_ifs at hjoins with hj
    · exact h.joined chat task hjoins
    · exact hs.joined j chat task hjoins
  · intro j hsome
    rw [calls_goto]
    split_ifs with hj
    · rw [hj] at hsome
      exact h.ended hsome
    · exact hs.ended j hsome
  · intro hblocked
    have hopen := hs.live hblocked
    constructor
    · exact hopen.fresh
    · intro j chat hj
      rw [calls_goto] at hj
      split_ifs at hj
      · exact h.absent hblocked chat hj
      · exact hopen.absent j chat hj
    · intro j chat runtime hj
      unfold Holds at hj
      rw [calls_goto] at hj
      split_ifs at hj
      · rcases hj with hholds | ⟨task, chat', hjoins, houtcome⟩
        · exact h.held hblocked chat runtime hholds
        · exact h.awaited hblocked chat task chat' runtime hjoins houtcome
      · exact hopen.held j chat runtime hj
    · intro j chat hj
      rw [calls_goto] at hj
      split_ifs at hj with heq
      · rw [heq]
        exact h.sheltered hblocked chat hj
      · exact hopen.sheltered j chat hj
  · intro j hj
    rw [calls_goto] at hj
    split_ifs at hj
    · exact h.closing hj
    · exact hs.closing j hj

/-- A call that holds, waits for, announces and protects nothing has nothing to keep. -/
theorem follows_quiet (hcreates : call.creates = (s.calls i).creates) (hjoins : call.joins = none)
    (hholds : call.holds = none) (hunpublished : call.unpublished = none)
    (hprotects : call.protects = none) (hended : (s.outcomes i).isSome → call.ended)
    (hclosing : call.shuts → s.mcpAdmissionsBlocked = true) : s.Follows i call := by
  refine ⟨hcreates, ?_, ?_, hended, ?_, ?_, ?_, ?_, hclosing⟩
  · intro chat runtime h
    rw [hholds] at h
    cases h
  · intro chat task h
    rw [hjoins] at h
    cases h
  · intro _ chat h
    rw [hunpublished] at h
    cases h
  · intro _ chat runtime h
    rw [hholds] at h
    cases h
  · intro _ chat task chat' runtime h
    rw [hjoins] at h
    cases h
  · intro _ chat h
    rw [hprotects] at h
    cases h

/-- A call before the end of any creation of its own. -/
theorem Sound.outcome_none (hs : s.Sound) (hi : (s.calls i).ended = false) :
    s.outcomes i = none := by
  cases houtcome : s.outcomes i with
  | none => rfl
  | some outcome =>
    have := hs.ended i (by rw [houtcome]; rfl)
    rw [hi] at this
    cases this

theorem Sound.ended_of_running (hs : s.Sound) (hi : (s.calls i).ended = false) :
    (s.outcomes i).isSome → call.ended := by
  intro hsome
  rw [hs.outcome_none hi] at hsome
  cases hsome

/-- A call that waits for no creation goes on with what it holds, announces and protects. -/
theorem Sound.pass (hs : s.Sound) (hcreates : call.creates = (s.calls i).creates)
    (hjoins : call.joins = none) (hshuts : call.shuts = false)
    (hended : (s.outcomes i).isSome → call.ended)
    (hheld : ∀ chat runtime, call.holds = some (chat, runtime) →
      s.created[runtime]? = some chat ∧
        (s.mcpAdmissionsBlocked = false → s.pool.get chat = some runtime))
    (habsent : s.mcpAdmissionsBlocked = false → ∀ chat, call.unpublished = some chat →
      s.pool.get chat = none)
    (hsheltered : s.mcpAdmissionsBlocked = false → ∀ chat, call.protects = some chat →
      trim chat = chat → chat ≠ "" → (i, chat) ∈ s.evictionProtections) :
    (s.goto i call).Sound := by
  refine hs.goto ⟨hcreates, fun c r h => (hheld c r h).1, ?_, hended, habsent,
    fun hblocked c r h => (hheld c r h).2 hblocked, ?_, hsheltered, ?_⟩
  · intro c t h
    rw [hjoins] at h
    cases h
  · intro _ c t c' r h
    rw [hjoins] at h
    cases h
  · intro h
    rw [hshuts] at h
    cases h

end Moves

section Protections

theorem acquire_calls : (s.acquire i chat).calls = s.calls := by
  unfold SessionPool.acquire
  split_ifs <;> rfl

theorem acquire_pool : (s.acquire i chat).pool = s.pool := by
  unfold SessionPool.acquire
  split_ifs <;> rfl

theorem acquire_createInFlight : (s.acquire i chat).createInFlight = s.createInFlight := by
  unfold SessionPool.acquire
  split_ifs <;> rfl

theorem Sound.acquire (hs : s.Sound) : (s.acquire i chat).Sound := by
  unfold SessionPool.acquire
  split_ifs
  · exact hs
  · refine ⟨hs.owned, hs.known, hs.made, hs.finished, hs.inFlight, hs.joined, hs.ended, ?_,
      hs.closing⟩
    intro hblocked
    have hopen := hs.live hblocked
    refine ⟨hopen.fresh, hopen.absent, hopen.held, ?_⟩
    intro j chat' hj htrim hne
    exact List.mem_cons_of_mem _ (hopen.sheltered j chat' hj htrim hne)

theorem mem_acquire (htrim : trim chat = chat) (hne : chat ≠ "") :
    (i, chat) ∈ (s.acquire i chat).evictionProtections := by
  unfold SessionPool.acquire
  rw [htrim, if_neg hne]
  exact List.mem_cons_self

/-- A call that protects nothing releases nothing that counts. -/
theorem Sound.release (hs : s.Sound) (hi : (s.calls i).protects = none) :
    (s.release i).Sound := by
  refine ⟨hs.owned, hs.known, hs.made, hs.finished, hs.inFlight, hs.joined, hs.ended, ?_,
      hs.closing⟩
  intro hblocked
  have hopen := hs.live hblocked
  refine ⟨hopen.fresh, hopen.absent, hopen.held, ?_⟩
  intro j chat' hj htrim hne
  have hmem := hopen.sheltered j chat' hj htrim hne
  refine List.mem_filter.mpr ⟨hmem, ?_⟩
  have hji : j ≠ i := by
    intro heq
    have hj' : (s.calls j).protects = some chat' := hj
    rw [heq, hi] at hj'
    cases hj'
  simpa using hji

end Protections

section Disposals

theorem Sound.block (hs : s.Sound) : s.blockMcpAdmissions.Sound := by
  refine ⟨hs.owned, hs.known, hs.made, hs.finished, hs.inFlight, hs.joined, hs.ended, ?_,
    fun _ _ => rfl⟩
  intro hblocked
  cases hblocked

/-- A runtime that is not in the pool can be disposed of. -/
theorem Sound.disposeRuntimeOnce (hs : s.Sound) (hknown : runtime < s.created.length)
    (hpool : s.mcpAdmissionsBlocked = false → ∀ chat, s.pool.get chat ≠ some runtime) :
    (s.disposeRuntimeOnce runtime).Sound := by
  unfold SessionPool.disposeRuntimeOnce
  split_ifs
  · exact hs
  · refine ⟨hs.owned, ?_, hs.made, hs.finished, hs.inFlight, hs.joined, hs.ended, ?_, hs.closing⟩
    · intro r hr
      rcases List.mem_cons.mp hr with rfl | hold
      · exact hknown
      · exact hs.known r hold
    · intro hblocked
      have hopen := hs.live hblocked
      refine ⟨?_, hopen.absent, hopen.held, hopen.sheltered⟩
      intro chat r hget hmem
      rcases List.mem_cons.mp hmem with rfl | hold
      · exact hpool hblocked chat hget
      · exact hopen.fresh chat r hget hold

/-- The entry of a chat whose runtime nobody holds can be removed. -/
theorem Sound.delete (hs : s.Sound) (hfree : s.mcpAdmissionsBlocked = false → s.Free chat) :
    Sound { s with pool := s.pool.delete chat } := by
  have hkept : ∀ chat' r, (s.pool.delete chat).get chat' = some r →
      chat' ≠ chat ∧ s.pool.get chat' = some r := by
    intro chat' r hget
    rw [OrderedMap.get_delete] at hget
    split_ifs at hget with hsame
    exact ⟨hsame, hget⟩
  refine ⟨?_, hs.known, hs.made, hs.finished, hs.inFlight, hs.joined, hs.ended, ?_, hs.closing⟩
  · intro chat' r hget
    exact hs.owned chat' r (hkept chat' r hget).2
  · intro hblocked
    have hopen := hs.live hblocked
    refine ⟨?_, ?_, ?_, hopen.sheltered⟩
    · intro chat' r hget
      exact hopen.fresh chat' r (hkept chat' r hget).2
    · intro j chat' hj
      dsimp only
      rw [OrderedMap.get_delete, hopen.absent j chat' hj, ite_self]
    · intro j chat' r hj
      dsimp only
      rw [OrderedMap.get_delete, if_neg]
      · exact hopen.held j chat' r hj
      · intro hsame
        rw [hsame] at hj
        exact hfree hblocked j r hj

theorem Sound.startIdleDispose (hs : s.Sound) (hget : s.pool.get chat = some runtime)
    (hfree : s.mcpAdmissionsBlocked = false → s.Free chat) :
    (s.startIdleDispose chat runtime).Sound := by
  unfold SessionPool.startIdleDispose
  split_ifs
  · exact hs
  · have howned := hs.owned chat runtime hget
    have hdisposed := (hs.delete hfree).disposeRuntimeOnce
      (List.getElem?_eq_some_iff.mp howned).1 (by
        intro _ chat' hget'
        dsimp only at hget'
        rw [OrderedMap.get_delete] at hget'
        split_ifs at hget' with hsame
        have howned' := hs.owned chat' runtime hget'
        rw [howned] at howned'
        exact hsame (Option.some.inj howned').symm)
    refine ⟨hdisposed.owned, hdisposed.known, hdisposed.made, hdisposed.finished,
      hdisposed.inFlight, hdisposed.joined, hdisposed.ended, ?_, hdisposed.closing⟩
    intro hblocked
    have hopen := hdisposed.live hblocked
    exact ⟨hopen.fresh, hopen.absent, hopen.held, hopen.sheltered⟩

theorem Sound.disposeEntry (hs : s.Sound)
    (hfree : s.mcpAdmissionsBlocked = false → s.Free chat) : (s.disposeEntry chat).Sound := by
  unfold SessionPool.disposeEntry
  split
  · exact hs
  · next runtime hget => exact hs.startIdleDispose hget hfree

theorem Sound.disposeMainRuntimeAfterError (hs : s.Sound) (hknown : runtime < s.created.length)
    (hfree : s.mcpAdmissionsBlocked = false → s.Free chat)
    (howned : s.created[runtime]? = some chat) :
    (s.disposeMainRuntimeAfterError chat runtime).Sound := by
  unfold SessionPool.disposeMainRuntimeAfterError
  split_ifs with hget
  · exact hs.startIdleDispose hget hfree
  · refine hs.disposeRuntimeOnce hknown ?_
    intro _ chat' hget'
    have howned' := hs.owned chat' runtime hget'
    rw [howned] at howned'
    rw [← Option.some.inj howned'] at hget'
    exact hget hget'

/-- A sheltered chat that no protection covers is held by nobody. -/
theorem Sheltered.free (h : s.Sheltered chat) (hopen : s.Open) (hi : s.isProtected chat = false) :
    s.Free chat := by
  intro j r hj
  obtain ⟨hprotects, htrim, hne⟩ := h j r hj
  have hmem := hopen.sheltered j chat hprotects htrim hne
  have hprotected : s.isProtected chat = true :=
    List.any_eq_true.mpr ⟨(j, chat), hmem, decide_eq_true rfl⟩
  rw [hi] at hprotected
  cases hprotected

theorem Sound.evict (hs : s.Sound)
    (h : s.mcpAdmissionsBlocked = false → s.Sheltered chat) : (s.evict chat).Sound := by
  unfold SessionPool.evict
  split_ifs with hprotected
  · exact hs
  · refine hs.disposeEntry fun hblocked => ?_
    exact (h hblocked).free (hs.live hblocked) (by simpa using hprotected)

theorem startIdleDispose_frame (s : SessionPool) (chat : String) (runtime : ℕ) :
    (s.startIdleDispose chat runtime).calls = s.calls ∧
      (s.startIdleDispose chat runtime).outcomes = s.outcomes ∧
      (s.startIdleDispose chat runtime).mcpAdmissionsBlocked = s.mcpAdmissionsBlocked := by
  unfold SessionPool.startIdleDispose SessionPool.disposeRuntimeOnce
  dsimp only
  split_ifs <;> exact ⟨rfl, rfl, rfl⟩

/-- What an eviction leaves as it is. -/
theorem evict_frame (s : SessionPool) (chat : String) : (s.evict chat).calls = s.calls ∧
    (s.evict chat).outcomes = s.outcomes ∧
    (s.evict chat).mcpAdmissionsBlocked = s.mcpAdmissionsBlocked := by
  unfold SessionPool.evict SessionPool.disposeEntry
  split_ifs
  · exact ⟨rfl, rfl, rfl⟩
  · cases s.pool.get chat with
    | none => exact ⟨rfl, rfl, rfl⟩
    | some runtime => exact startIdleDispose_frame s chat runtime

theorem Sheltered.evict {other : String} (h : s.Sheltered chat) :
    (s.evict other).Sheltered chat := by
  intro j r hj
  unfold Holds at hj
  rw [(evict_frame s other).1, (evict_frame s other).2.1] at hj
  rw [(evict_frame s other).1]
  exact h j r hj

theorem Sound.evictAll {victims : List String} (hs : s.Sound)
    (h : s.mcpAdmissionsBlocked = false → ∀ chat ∈ victims, s.Sheltered chat) :
    (victims.foldl SessionPool.evict s).Sound := by
  induction victims generalizing s with
  | nil => exact hs
  | cons chat victims ih =>
    refine ih (hs.evict fun hblocked => h hblocked chat List.mem_cons_self) ?_
    intro hblocked other hother
    rw [(evict_frame s chat).2.2] at hblocked
    exact (h hblocked other (List.mem_cons_of_mem _ hother)).evict

end Disposals

section Frames

theorem goto_release : (s.release i).goto i call = (s.goto i call).release i := rfl

theorem goto_disposeRuntimeOnce {j : ℕ} :
    (s.disposeRuntimeOnce runtime).goto j call = (s.goto j call).disposeRuntimeOnce runtime := by
  unfold SessionPool.disposeRuntimeOnce SessionPool.goto
  dsimp only
  split_ifs <;> rfl

theorem goto_startIdleDispose {j : ℕ} :
    (s.startIdleDispose chat runtime).goto j call =
      (s.goto j call).startIdleDispose chat runtime := by
  unfold SessionPool.startIdleDispose SessionPool.disposeRuntimeOnce SessionPool.goto
  dsimp only
  split_ifs <;> rfl

theorem goto_disposeEntry {j : ℕ} :
    (s.disposeEntry chat).goto j call = (s.goto j call).disposeEntry chat := by
  unfold SessionPool.disposeEntry
  have hpool : (s.goto j call).pool = s.pool := rfl
  rw [hpool]
  cases s.pool.get chat with
  | none => rfl
  | some runtime => exact goto_startIdleDispose

theorem goto_disposeMainRuntimeAfterError {j : ℕ} :
    (s.disposeMainRuntimeAfterError chat runtime).goto j call =
      (s.goto j call).disposeMainRuntimeAfterError chat runtime := by
  unfold SessionPool.disposeMainRuntimeAfterError
  have hpool : (s.goto j call).pool = s.pool := rfl
  rw [hpool]
  split_ifs
  · exact goto_startIdleDispose
  · exact goto_disposeRuntimeOnce

theorem goto_evict {j : ℕ} : (s.evict chat).goto j call = (s.goto j call).evict chat := by
  unfold SessionPool.evict
  have hprotected : (s.goto j call).isProtected chat = s.isProtected chat := rfl
  rw [hprotected]
  split_ifs
  · rfl
  · exact goto_disposeEntry

theorem goto_evictAll {j : ℕ} {victims : List String} :
    (victims.foldl SessionPool.evict s).goto j call =
      victims.foldl SessionPool.evict (s.goto j call) := by
  induction victims generalizing s with
  | nil => rfl
  | cons chat victims ih =>
    rw [List.foldl_cons, List.foldl_cons, ih, goto_evict]

end Frames

section Creations

theorem SessionCall.ended_of_creates {call : SessionCall} {chat : String}
    (h : call.creates = some chat) : call.ended = false := by
  cases call with
  | preparing | creating | discarding | seeding | binding => rfl
  | _ => cases h

/-- A creation begins where the chat has no entry and no creation. -/
theorem Sound.begin {epoch : ℕ} (hs : s.Sound) (hi : (s.calls i).creates = none)
    (hended : (s.calls i).ended = false) (hnone : s.createInFlight.get chat = none)
    (hpool : s.pool.get chat = none)
    (htoken : trim chat = chat → chat ≠ "" → (i, chat) ∈ s.evictionProtections) :
    Sound { s.goto i (.preparing chat epoch) with
      createInFlight := s.createInFlight.set chat i } := by
  have houtcome := hs.outcome_none hended
  constructor
  · exact hs.owned
  · exact hs.known
  · intro j chat' r hj
    change ((s.goto i (.preparing chat epoch)).calls j).holds = _ at hj
    rw [calls_goto] at hj
    split_ifs at hj
    · cases hj
    · exact hs.made j chat' r hj
  · exact hs.finished
  · intro j chat'
    change ((s.goto i (.preparing chat epoch)).calls j).creates = some chat' ↔
      (s.createInFlight.set chat i).get chat' = some j
    rw [calls_goto, OrderedMap.get_set]
    by_cases hj : j = i
    · rw [if_pos hj]
      by_cases hc : chat' = chat
      · rw [if_pos hc, hj, hc]
        exact ⟨fun _ => rfl, fun _ => rfl⟩
      · rw [if_neg hc, hj, ← hs.inFlight, hi]
        constructor
        · intro h
          exact absurd (Option.some.inj h).symm hc
        · intro h
          cases h
    · rw [if_neg hj]
      by_cases hc : chat' = chat
      · rw [if_pos hc, hc, hs.inFlight, hnone]
        constructor
        · intro h
          cases h
        · intro h
          exact absurd (Option.some.inj h).symm hj
      · rw [if_neg hc]
        exact hs.inFlight j chat'
  · intro j chat' task hj
    change ((s.goto i (.preparing chat epoch)).calls j).joins = _ at hj
    change ((s.goto i (.preparing chat epoch)).calls task).creates = _ ∨ _
    rw [calls_goto] at hj
    split_ifs at hj
    · cases hj
    · rcases hs.joined j chat' task hj with hcreates | houtcome'
      · left
        rw [calls_goto, if_neg]
        · exact hcreates
        · intro heq
          rw [heq, hi] at hcreates
          cases hcreates
      · exact .inr houtcome'
  · intro j hsome
    change ((s.goto i (.preparing chat epoch)).calls j).ended
    rw [calls_goto, if_neg]
    · exact hs.ended j hsome
    · intro heq
      rw [heq] at hsome
      change (s.outcomes i).isSome at hsome
      rw [houtcome] at hsome
      cases hsome
  · intro hblocked
    have hopen := hs.live hblocked
    constructor
    · exact hopen.fresh
    · intro j chat' hj
      change ((s.goto i (.preparing chat epoch)).calls j).unpublished = _ at hj
      rw [calls_goto] at hj
      split_ifs at hj
      · rw [← Option.some.inj hj]
        exact hpool
      · exact hopen.absent j chat' hj
    · intro j chat' r hj
      unfold Holds at hj
      change ((s.goto i (.preparing chat epoch)).calls j).holds = _ ∨ ∃ task chat'',
        ((s.goto i (.preparing chat epoch)).calls j).joins = _ ∧ _ at hj
      rw [calls_goto] at hj
      split_ifs at hj
      · rcases hj with hj | ⟨task, chat'', hj, -⟩
        · cases hj
        · cases hj
      · exact hopen.held j chat' r hj
    · intro j chat' hj htrim hne
      change ((s.goto i (.preparing chat epoch)).calls j).protects = _ at hj
      rw [calls_goto] at hj
      split_ifs at hj with heq
      · rw [← Option.some.inj hj] at htrim hne ⊢
        rw [heq]
        exact htoken htrim hne
      · exact hopen.sheltered j chat' hj htrim hne
  · intro j hj
    change ((s.goto i (.preparing chat epoch)).calls j).shuts at hj
    rw [calls_goto] at hj
    split_ifs at hj
    · cases hj
    · exact hs.closing j hj

/-- A creation ends, with an error or with the runtime in the pool. -/
theorem Sound.creationEnded {outcome : Option ℕ} (hs : s.Sound)
    (hi : (s.calls i).creates = some chat)
    (hnext : call.creates = none ∧ call.joins = none ∧ call.unpublished = none ∧
      call.protects = none ∧ call.shuts = false ∧ call.ended = true)
    (hheld : ∀ chat' r, call.holds = some (chat', r) → s.created[r]? = some chat' ∧
      (s.mcpAdmissionsBlocked = false → s.pool.get chat' = some r))
    (houtcome : ∀ r, outcome = some r → s.created[r]? = some chat ∧
      (s.mcpAdmissionsBlocked = false → s.pool.get chat = some r)) :
    (s.creationEnded i chat outcome call).Sound := by
  obtain ⟨hcreates, hjoins, hunpublished, hprotects, hshuts, hended⟩ := hnext
  have hflight := (hs.inFlight i chat).mp hi
  have hnone : s.outcomes i = none := hs.outcome_none (SessionCall.ended_of_creates hi)
  have hcalls : ∀ j, (s.creationEnded i chat outcome call).calls j =
      if j = i then call else s.calls j := fun j => calls_goto j
  have houtcomes : ∀ j, (s.creationEnded i chat outcome call).outcomes j =
      if j = i then some (chat, outcome) else s.outcomes j := by
    intro j
    unfold SessionPool.creationEnded
    dsimp only
    rw [Function.update_apply]
  -- a call that joins this creation is of its chat
  have hchat : ∀ j chat', (s.calls j).joins = some (chat', i) → chat' = chat := by
    intro j chat' hj
    rcases hs.joined j chat' i hj with h | ⟨r, h⟩
    · rw [hi] at h
      exact (Option.some.inj h).symm
    · rw [hnone] at h
      cases h
  constructor
  · exact hs.owned
  · exact hs.known
  · intro j chat' r hj
    rw [hcalls] at hj
    split_ifs at hj
    · exact (hheld chat' r hj).1
    · exact hs.made j chat' r hj
  · intro j chat' r hj
    rw [houtcomes] at hj
    split_ifs at hj
    · have hpair := Prod.mk.inj (Option.some.inj hj)
      rw [← hpair.1]
      exact (houtcome r hpair.2).1
    · exact hs.finished j chat' r hj
  · intro j chat'
    change ((s.creationEnded i chat outcome call).calls j).creates = some chat' ↔
      (s.createInFlight.delete chat).get chat' = some j
    rw [hcalls, OrderedMap.get_delete]
    by_cases hj : j = i
    · rw [if_pos hj, hcreates, hj]
      constructor
      · intro h
        cases h
      · intro h
        split_ifs at h with hc
        rw [← hs.inFlight, hi] at h
        exact absurd (Option.some.inj h).symm hc
    · rw [if_neg hj]
      by_cases hc : chat' = chat
      · rw [if_pos hc, hc, hs.inFlight, hflight]
        constructor
        · intro h
          exact absurd (Option.some.inj h).symm hj
        · intro h
          cases h
      · rw [if_neg hc]
        exact hs.inFlight j chat'
  · intro j chat' task hj
    rw [hcalls] at hj
    rw [hcalls, houtcomes]
    split_ifs at hj with hji
    · rw [hjoins] at hj
      cases hj
    · by_cases htask : task = i
      · right
        rw [htask] at hj
        rw [if_pos htask, hchat j chat' hj]
        exact ⟨outcome, rfl⟩
      · rw [if_neg htask, if_neg htask]
        exact hs.joined j chat' task hj
  · intro j hsome
    rw [houtcomes] at hsome
    rw [hcalls]
    split_ifs at hsome ⊢
    · exact hended
    · exact hs.ended j hsome
  · intro hblocked
    have hopen := hs.live hblocked
    constructor
    · exact hopen.fresh
    · intro j chat' hj
      rw [hcalls] at hj
      split_ifs at hj
      · rw [hunpublished] at hj
        cases hj
      · exact hopen.absent j chat' hj
    · intro j chat' r hj
      unfold Holds at hj
      rw [hcalls] at hj
      split_ifs at hj with hji
      · rcases hj with hj | ⟨task, chat'', hj, -⟩
        · exact (hheld chat' r hj).2 hblocked
        · rw [hjoins] at hj
          cases hj
      · rcases hj with hj | ⟨task, chat'', hj, hdone⟩
        · exact hopen.held j chat' r (.inl hj)
        · rw [houtcomes] at hdone
          split_ifs at hdone with htask
          · rw [htask] at hj
            rw [hchat j chat' hj]
            exact (houtcome r (Prod.mk.inj (Option.some.inj hdone)).2).2 hblocked
          · exact hopen.held j chat' r (.inr ⟨task, chat'', hj, hdone⟩)
    · intro j chat' hj htrim hne
      rw [hcalls] at hj
      split_ifs at hj with hji
      · rw [hprotects] at hj
        cases hj
      · refine List.mem_filter.mpr ⟨hopen.sheltered j chat' hj htrim hne, ?_⟩
        simpa using hji
  · intro j hj
    rw [hcalls] at hj
    split_ifs at hj
    · rw [hshuts] at hj
      cases hj
    · exact hs.closing j hj

/-- A created runtime enters the pool. -/
theorem Sound.publish {epoch : ℕ} (hs : s.Sound) (hi : s.calls i = .creating chat epoch) :
    Sound (SessionPool.goto
      { s with created := s.created ++ [chat], pool := s.pool.set chat s.created.length } i
      (.seeding chat epoch s.created.length)) := by
  have hlast : (s.created ++ [chat])[s.created.length]? = some chat :=
    List.getElem?_concat_length
  have hkept : ∀ (r : ℕ) chat', s.created[r]? = some chat' →
      (s.created ++ [chat])[r]? = some chat' := by
    intro r chat' h
    rw [List.getElem?_append_left (List.getElem?_eq_some_iff.mp h).1]
    exact h
  have hcreates : (s.calls i).creates = some chat := by
    rw [hi]
    rfl
  have hcalls : ∀ j, (SessionPool.goto
      { s with created := s.created ++ [chat], pool := s.pool.set chat s.created.length } i
      (.seeding chat epoch s.created.length)).calls j =
      if j = i then .seeding chat epoch s.created.length else s.calls j := fun j => calls_goto j
  have hsame : ∀ j, ((SessionPool.goto
      { s with created := s.created ++ [chat], pool := s.pool.set chat s.created.length } i
      (.seeding chat epoch s.created.length)).calls j).creates = (s.calls j).creates := by
    intro j
    rw [hcalls]
    split_ifs with hj
    · rw [hj, hcreates]
      rfl
    · rfl
  constructor
  · intro chat' r hget
    change (s.pool.set chat s.created.length).get chat' = some r at hget
    change (s.created ++ [chat])[r]? = some chat'
    rw [OrderedMap.get_set] at hget
    split_ifs at hget with hc
    · rw [← Option.some.inj hget, hc]
      exact hlast
    · exact hkept r chat' (hs.owned chat' r hget)
  · intro r hr
    change r < (s.created ++ [chat]).length
    rw [List.length_append]
    exact Nat.lt_add_right 1 (hs.known r hr)
  · intro j chat' r hj
    rw [hcalls] at hj
    change (s.created ++ [chat])[r]? = some chat'
    split_ifs at hj
    · obtain ⟨rfl, rfl⟩ := Prod.mk.inj (Option.some.inj hj)
      exact hlast
    · exact hkept r chat' (hs.made j chat' r hj)
  · intro j chat' r hj
    exact hkept r chat' (hs.finished j chat' r hj)
  · intro j chat'
    rw [hsame]
    exact hs.inFlight j chat'
  · intro j chat' task hj
    rw [hsame]
    rw [hcalls] at hj
    split_ifs at hj
    · cases hj
    · exact hs.joined j chat' task hj
  · intro j hsome
    rw [hcalls, if_neg]
    · exact hs.ended j hsome
    · intro heq
      rw [heq] at hsome
      have hended := hs.ended i hsome
      rw [hi] at hended
      cases hended
  · intro hblocked
    have hopen := hs.live hblocked
    have habsent : s.pool.get chat = none := hopen.absent i chat (by rw [hi]; rfl)
    constructor
    · intro chat' r hget
      change (s.pool.set chat s.created.length).get chat' = some r at hget
      rw [OrderedMap.get_set] at hget
      split_ifs at hget with hc
      · rw [← Option.some.inj hget]
        exact fun hmem => Nat.lt_irrefl _ (hs.known _ hmem)
      · exact hopen.fresh chat' r hget
    · intro j chat' hj
      rw [hcalls] at hj
      change (s.pool.set chat s.created.length).get chat' = none
      split_ifs at hj with hji
      · cases hj
      · rw [OrderedMap.get_set, if_neg]
        · exact hopen.absent j chat' hj
        · intro hc
          -- two creations of one chat
          have hj' : (s.calls j).creates = some chat := by
            rw [hc] at hj
            cases hcall : s.calls j with
            | preparing c e =>
              rw [hcall] at hj
              exact hj
            | creating c e =>
              rw [hcall] at hj
              exact hj
            | _ =>
              rw [hcall] at hj
              cases hj
          rw [hs.inFlight] at hj' hcreates
          rw [hcreates] at hj'
          exact hji (Option.some.inj hj').symm
    · intro j chat' r hj
      unfold Holds at hj
      rw [hcalls] at hj
      change (s.pool.set chat s.created.length).get chat' = some r
      split_ifs at hj
      · rcases hj with hj | ⟨task, chat'', hj, -⟩
        · obtain ⟨rfl, rfl⟩ := Prod.mk.inj (Option.some.inj hj)
          exact OrderedMap.get_set_self _ _ _
        · cases hj
      · have hget := hopen.held j chat' r hj
        rw [OrderedMap.get_set_of_ne]
        · exact hget
        · intro hc
          rw [hc, habsent] at hget
          cases hget
    · intro j chat' hj htrim hne
      rw [hcalls] at hj
      split_ifs at hj with hji
      · rw [hji]
        refine hopen.sheltered i chat' ?_ htrim hne
        rw [hi]
        exact hj
      · exact hopen.sheltered j chat' hj htrim hne
  · intro j hj
    rw [hcalls] at hj
    split_ifs at hj
    · cases hj
    · exact hs.closing j hj

/-- A created runtime that never enters the pool. -/
theorem Sound.unused (hs : s.Sound) : Sound { s with created := s.created ++ [chat] } := by
  have hkept : ∀ (r : ℕ) chat', s.created[r]? = some chat' →
      (s.created ++ [chat])[r]? = some chat' := by
    intro r chat' h
    rw [List.getElem?_append_left (List.getElem?_eq_some_iff.mp h).1]
    exact h
  refine ⟨?_, ?_, ?_, ?_, hs.inFlight, hs.joined, hs.ended, ?_, hs.closing⟩
  · exact fun chat' r hget => hkept r chat' (hs.owned chat' r hget)
  · intro r hr
    change r < (s.created ++ [chat]).length
    rw [List.length_append]
    exact Nat.lt_add_right 1 (hs.known r hr)
  · exact fun j chat' r hj => hkept r chat' (hs.made j chat' r hj)
  · exact fun j chat' r hj => hkept r chat' (hs.finished j chat' r hj)
  · intro hblocked
    have hopen := hs.live hblocked
    exact ⟨hopen.fresh, hopen.absent, hopen.held, hopen.sheltered⟩

end Creations

end SessionPool
end Piclaw
