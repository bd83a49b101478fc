import Piclaw.SessionHolders

/-!
# A returned runtime is the pooled one

Between the moment in which a call holds the runtime and its return, a `recreate` of the chat or
the failure of another call can start the disposal of it, and an eviction can where the call no
longer protects it. In every run without such an overlap a call returns the entry of the pool, and
no disposal of it has been started: whatever the order of creations, evictions, fences, shutdowns
and disposals.
-/

namespace Piclaw
namespace SessionPool
variable {s : SessionPool} {i : ℕ} {chat : String} {runtime : ℕ} {call : SessionCall}

/-- No call but this one holds a runtime of the chat. -/
def FreeButFor (s : SessionPool) (i : ℕ) (chat : String) : Prop :=
  ∀ j runtime, j ≠ i → ¬ s.Holds j chat runtime

/-- While admissions are open, a recreation finds nobody who holds a runtime of its chat, an
eviction only calls that protect it, and a call that fails with the runtime no other. -/
def Undisturbed (s : SessionPool) (event : SessionEvent) : Prop :=
  s.mcpAdmissionsBlocked = false → match event with
    | .recreateEntered i =>
      ∀ chat epoch, s.calls i = .recreating chat epoch → s.Free chat
    | .evictIdle victims => ∀ chat ∈ victims, s.Sheltered chat
    | .sessionCreated i _ victims =>
      ∀ chat epoch, s.calls i = .creating chat epoch →
        ∀ victim ∈ victims, victim ≠ chat → s.Sheltered victim
    | .realized i ok =>
      ∀ chat epoch runtime, s.calls i = .realizing chat epoch runtime →
        (ok && s.admitted epoch) = false → s.FreeButFor i chat
    | .seeded i ok =>
      ∀ chat epoch runtime, s.calls i = .seeding chat epoch runtime →
        (ok && s.admitted epoch) = false → s.FreeButFor i chat
    | .bound i ok =>
      ∀ chat epoch runtime, s.calls i = .binding chat epoch runtime →
        (ok && s.admitted epoch) = false → s.FreeButFor i chat
    | _ => True

/-- A call that returns in this step returns the entry of the pool, and no disposal of it has been
started. -/
def ReturnsPooled (s : SessionPool) (event : SessionEvent) : Prop :=
  ∀ i chat runtime, s.calls i ≠ .resolved chat runtime →
    (s.step event).calls i = .resolved chat runtime →
    runtime ∉ (s.step event).disposed ∧ (s.step event).pool.get chat = some runtime

section Leaving

/-- A call that holds, waits for and creates nothing goes on to another such state. -/
theorem Sound.leave (hs : s.Sound) (hi : (s.calls i).creates = none)
    (hcall : call.creates = none ∧ call.joins = none ∧ call.holds = none ∧
      call.unpublished = none ∧ call.protects = none ∧ call.shuts = false)
    (hended : (s.calls i).ended = false ∨ call.ended = true) : (s.goto i call).Sound := by
  obtain ⟨hcreates, hjoins, hholds, hunpublished, hprotects, hshuts⟩ := hcall
  refine hs.goto (follows_quiet (hcreates.trans hi.symm) hjoins hholds hunpublished hprotects
    ?_ ?_)
  · rcases hended with hrunning | hdone
    · exact hs.ended_of_running hrunning
    · exact fun _ => hdone
  · intro h
    rw [hshuts] at h
    cases h

theorem Sound.reject (hs : s.Sound) (hi : (s.calls i).creates = none) :
    (s.goto i .rejected).Sound :=
  hs.leave hi ⟨rfl, rfl, rfl, rfl, rfl, rfl⟩ (.inr rfl)

/-- Without the call that fails, nobody holds a runtime of the chat. -/
theorem free_goto (hholds : call.holds = none) (hjoins : call.joins = none)
    (h : s.FreeButFor i chat) : (s.goto i call).Free chat := by
  intro j r hj
  unfold Holds at hj
  rw [calls_goto] at hj
  split_ifs at hj with hji
  · rcases hj with hj | ⟨task, chat', hj, -⟩
    · rw [hholds] at hj
      cases hj
    · rw [hjoins] at hj
      cases hj
  · exact h j r hji hj

/-- A creation keeps its chat from one state to the next. -/
theorem Sound.discard {epoch : ℕ} (hs : s.Sound)
    (hi : s.calls i = .seeding chat epoch runtime ∨ s.calls i = .binding chat epoch runtime)
    (hfree : s.mcpAdmissionsBlocked = false → s.FreeButFor i chat) :
    ((s.disposeMainRuntimeAfterError chat runtime).goto i (.discarding chat runtime)).Sound := by
  have hcreates : (s.calls i).creates = some chat := by
    rcases hi with h | h
    · rw [h]
      rfl
    · rw [h]
      rfl
  have howned : s.created[runtime]? = some chat := by
    refine hs.made i chat runtime ?_
    rcases hi with h | h
    · rw [h]
      rfl
    · rw [h]
      rfl
  rw [goto_disposeMainRuntimeAfterError]
  have hgoto : (s.goto i (.discarding chat runtime)).Sound :=
    hs.goto (follows_quiet hcreates.symm rfl rfl rfl rfl
      (hs.ended_of_running (SessionCall.ended_of_creates hcreates)) (by intro h; cases h))
  exact hgoto.disposeMainRuntimeAfterError (List.getElem?_eq_some_iff.mp howned).1
    (fun hblocked => free_goto rfl rfl (hfree hblocked)) howned

end Leaving

section Calls

theorem admitted_open {epoch : ℕ} (h : s.admitted epoch = true) :
    s.mcpAdmissionsBlocked = false := by
  unfold admitted at h
  rw [Bool.and_eq_true, Bool.not_eq_true'] at h
  exact h.1

theorem Sound.admittedCall {epoch : ℕ} (hs : s.Sound) (hi : (s.calls i).creates = none)
    (hended : (s.calls i).ended = false) : (s.admittedCall i chat epoch).Sound := by
  unfold SessionPool.admittedCall
  cases hflight : s.createInFlight.get chat with
  | some task =>
    have htask : (s.calls task).creates = some chat := (hs.inFlight task chat).mpr hflight
    refine hs.goto ⟨hi.symm, ?_, ?_, ?_, ?_, ?_, ?_, ?_, ?_⟩
    · intro c r h
      cases h
    · intro c t h
      obtain ⟨rfl, rfl⟩ := Prod.mk.inj (Option.some.inj h)
      exact .inl htask
    · exact hs.ended_of_running hended
    · intro _ c h
      cases h
    · intro _ c r h
      cases h
    · intro _ c t c' r h houtcome
      obtain ⟨rfl, rfl⟩ := Prod.mk.inj (Option.some.inj h)
      rw [hs.outcome_none (SessionCall.ended_of_creates htask)] at houtcome
      cases houtcome
    · intro _ c h
      cases h
    · intro h
      cases h
  | none =>
    have hacquired : (s.acquire i chat).Sound := hs.acquire
    have hrunning : ((s.acquire i chat).calls i).ended = false := by
      rw [acquire_calls]
      exact hended
    cases hget : s.pool.get chat with
    | none =>
      dsimp only
      rw [← @acquire_createInFlight s i chat]
      refine hacquired.begin ?_ hrunning ?_ ?_ ?_
      · rw [acquire_calls]
        exact hi
      · rw [acquire_createInFlight]
        exact hflight
      · rw [acquire_pool]
        exact hget
      · exact fun htrim hne => mem_acquire htrim hne
    | some runtime =>
      have hpooled : (s.acquire i chat).pool.get chat = some runtime := by
        rw [acquire_pool]
        exact hget
      refine hacquired.pass ?_ rfl rfl (hacquired.ended_of_running hrunning) ?_ ?_ ?_
      · rw [acquire_calls]
        exact hi.symm
      · intro c r h
        obtain ⟨rfl, rfl⟩ := Prod.mk.inj (Option.some.inj h)
        exact ⟨hacquired.owned _ _ hpooled, fun _ => hpooled⟩
      · intro _ c h
        cases h
      · intro _ c h htrim hne
        rw [← Option.some.inj h] at htrim hne ⊢
        exact mem_acquire htrim hne

/-- A call that returns what it holds, or what the creation it waited for has made. -/
theorem Sound.return {epoch : ℕ} (hs : s.Sound) (hi : (s.calls i).creates = none)
    (hmade : s.created[runtime]? = some chat)
    (hheld : s.mcpAdmissionsBlocked = false → s.pool.get chat = some runtime) :
    (s.goto i (.returning chat epoch runtime)).Sound := by
  refine hs.pass hi.symm rfl rfl (fun _ => rfl) ?_ ?_ ?_
  · intro c r h
    obtain ⟨rfl, rfl⟩ := Prod.mk.inj (Option.some.inj h)
    exact ⟨hmade, hheld⟩
  · intro _ c h
    cases h
  · intro _ c h
    cases h

theorem Sound.joinedCall {epoch task : ℕ} {ok : Bool} (hs : s.Sound)
    (hi : s.calls i = .joining chat epoch task) : (s.joined i chat epoch task ok).Sound := by
  have hcreates : (s.calls i).creates = none := by
    rw [hi]
    rfl
  have hjoins : (s.calls i).joins = some (chat, task) := by
    rw [hi]
    rfl
  unfold SessionPool.joined
  cases houtcome : s.outcomes task with
  | none => exact hs
  | some outcome =>
    obtain ⟨chat', runtime⟩ := outcome
    cases runtime with
    | none => exact hs.reject hcreates
    | some runtime =>
      have hchat : chat' = chat := by
        rcases hs.joined i chat task hjoins with h | ⟨r, h⟩
        · rw [hs.outcome_none (SessionCall.ended_of_creates h)] at houtcome
          cases houtcome
        · rw [h] at houtcome
          exact (Prod.mk.inj (Option.some.inj houtcome)).1.symm
      dsimp only
      split_ifs
      · exact hs.reject hcreates
      · refine hs.return hcreates ?_ ?_
        · rw [hchat] at houtcome
          exact hs.finished task chat runtime houtcome
        · intro hblocked
          exact (hs.live hblocked).held i chat runtime (.inr ⟨task, chat', hjoins, houtcome⟩)

theorem Sound.realizedCall {epoch : ℕ} {ok : Bool} (hs : s.Sound)
    (hi : s.calls i = .realizing chat epoch runtime)
    (hfree : s.mcpAdmissionsBlocked = false → (ok && s.admitted epoch) = false →
      s.FreeButFor i chat) : (s.realized i chat epoch runtime ok).Sound := by
  have hcreates : (s.calls i).creates = none := by
    rw [hi]
    rfl
  have hholds : (s.calls i).holds = some (chat, runtime) := by
    rw [hi]
    rfl
  have howned := hs.made i chat runtime hholds
  unfold SessionPool.realized
  split_ifs with hok
  · rw [goto_release]
    refine Sound.release ?_ ?_
    · exact hs.return hcreates howned
        fun hblocked => (hs.live hblocked).held i chat runtime (.inl hholds)
    · rw [calls_goto, if_pos rfl]
      rfl
  · have hfails : (ok && s.admitted epoch) = false := by simpa using hok
    rw [goto_disposeMainRuntimeAfterError]
    have hleft : (s.goto i (.cleaningExisting runtime)).Sound :=
      hs.leave hcreates ⟨rfl, rfl, rfl, rfl, rfl, rfl⟩ (.inl (by rw [hi]; rfl))
    exact hleft.disposeMainRuntimeAfterError (List.getElem?_eq_some_iff.mp howned).1
      (fun hblocked => free_goto rfl rfl (hfree hblocked hfails)) howned

theorem Sound.failCreation (hs : s.Sound) (hi : (s.calls i).creates = some chat) :
    (s.creationEnded i chat none .rejected).Sound := by
  refine hs.creationEnded hi ⟨rfl, rfl, rfl, rfl, rfl, rfl⟩ ?_ ?_
  · intro c r h
    cases h
  · intro r h
    cases h

theorem Sound.preparedCall {epoch : ℕ} {ok : Bool} (hs : s.Sound)
    (hi : s.calls i = .preparing chat epoch) : (s.prepared i chat epoch ok).Sound := by
  have hcreates : (s.calls i).creates = some chat := by
    rw [hi]
    rfl
  unfold SessionPool.prepared
  split_ifs
  · refine hs.pass hcreates.symm rfl rfl
      (hs.ended_of_running (SessionCall.ended_of_creates hcreates)) ?_ ?_ ?_
    · intro c r h
      cases h
    · intro hblocked c h
      refine (hs.live hblocked).absent i c ?_
      rw [hi]
      exact h
    · intro hblocked c h htrim hne
      refine (hs.live hblocked).sheltered i c ?_ htrim hne
      rw [hi]
      exact h
  · exact hs.failCreation hcreates

theorem Sound.sessionCreatedCall {epoch : ℕ} {ok : Bool} {victims : List String} (hs : s.Sound)
    (hi : s.calls i = .creating chat epoch)
    (hvictims : s.mcpAdmissionsBlocked = false →
      ∀ victim ∈ victims, victim ≠ chat → s.Sheltered victim) :
    (s.sessionCreated i chat epoch ok victims).Sound := by
  have hcreates : (s.calls i).creates = some chat := by
    rw [hi]
    rfl
  unfold SessionPool.sessionCreated
  split_ifs
  · exact hs.failCreation hcreates
  · rw [goto_disposeRuntimeOnce]
    have hunused : Sound { s with created := s.created ++ [chat] } := hs.unused
    have hgoto : (SessionPool.goto { s with created := s.created ++ [chat] } i
        (.discarding chat s.created.length)).Sound :=
      hunused.goto (follows_quiet hcreates.symm rfl rfl rfl rfl
        (hunused.ended_of_running (SessionCall.ended_of_creates hcreates)) (by intro h; cases h))
    refine hgoto.disposeRuntimeOnce ?_ ?_
    · change s.created.length < (s.created ++ [chat]).length
      rw [List.length_append]
      exact Nat.lt_succ_self _
    · intro _ c hget
      have howned := hs.owned c s.created.length hget
      rw [List.getElem?_eq_none (le_refl _)] at howned
      cases howned
  · dsimp only
    unfold SessionPool.enforceMainSessionPoolLimit
    rw [goto_evictAll]
    refine (hs.publish hi).evictAll ?_
    intro hblocked victim hvictim j r hj
    obtain ⟨hmem, hne⟩ := List.mem_filter.mp hvictim
    have hother : victim ≠ chat := of_decide_eq_true hne
    unfold Holds at hj
    rw [calls_goto] at hj ⊢
    split_ifs at hj ⊢ with hji
    · rcases hj with hj | ⟨task, chat', hj, -⟩
      · exact absurd (Prod.mk.inj (Option.some.inj hj)).1.symm hother
      · cases hj
    · exact hvictims hblocked victim hmem hother j r hj

theorem Sound.seededCall {epoch : ℕ} {ok : Bool} (hs : s.Sound)
    (hi : s.calls i = .seeding chat epoch runtime)
    (hfree : s.mcpAdmissionsBlocked = false → (ok && s.admitted epoch) = false →
      s.FreeButFor i chat) : (s.seeded i chat epoch runtime ok).Sound := by
  have hcreates : (s.calls i).creates = some chat := by
    rw [hi]
    rfl
  unfold SessionPool.seeded
  split_ifs with hok
  · refine hs.pass hcreates.symm rfl rfl
      (hs.ended_of_running (SessionCall.ended_of_creates hcreates)) ?_ ?_ ?_
    · intro c r h
      have hholds : (s.calls i).holds = some (c, r) := by
        rw [hi]
        exact h
      exact ⟨hs.made i c r hholds, fun hblocked => (hs.live hblocked).held i c r (.inl hholds)⟩
    · intro _ c h
      cases h
    · intro hblocked c h htrim hne
      refine (hs.live hblocked).sheltered i c ?_ htrim hne
      rw [hi]
      exact h
  · exact hs.discard (.inl hi) fun hblocked => hfree hblocked (by simpa using hok)

theorem Sound.boundCall {epoch : ℕ} {ok : Bool} (hs : s.Sound)
    (hi : s.calls i = .binding chat epoch runtime)
    (hfree : s.mcpAdmissionsBlocked = false → (ok && s.admitted epoch) = false →
      s.FreeButFor i chat) : (s.bound i chat epoch runtime ok).Sound := by
  have hcreates : (s.calls i).creates = some chat := by
    rw [hi]
    rfl
  have hholds : (s.calls i).holds = some (chat, runtime) := by
    rw [hi]
    rfl
  have hpooled : s.created[runtime]? = some chat ∧
      (s.mcpAdmissionsBlocked = false → s.pool.get chat = some runtime) :=
    ⟨hs.made i chat runtime hholds,
      fun hblocked => (hs.live hblocked).held i chat runtime (.inl hholds)⟩
  unfold SessionPool.bound
  split_ifs with hok
  · refine hs.creationEnded hcreates ⟨rfl, rfl, rfl, rfl, rfl, rfl⟩ ?_ ?_
    · intro c r h
      obtain ⟨rfl, rfl⟩ := Prod.mk.inj (Option.some.inj h)
      exact hpooled
    · intro r h
      cases h
      exact hpooled
  · exact hs.discard (.inr hi) fun hblocked => hfree hblocked (by simpa using hok)

theorem Sound.cleanedCall (hs : s.Sound) : (s.cleaned i).Sound := by
  unfold SessionPool.cleaned
  split
  · next chat runtime hi =>
    split_ifs
    · exact hs.failCreation (by rw [hi]; rfl)
    · exact hs
  · next runtime hi =>
    split_ifs
    · rw [goto_release]
      refine Sound.release (hs.reject (by rw [hi]; rfl)) ?_
      rw [calls_goto, if_pos rfl]
      rfl
    · exact hs
  · exact hs

theorem Sound.disposalEndedCall {ok : Bool} (hs : s.Sound) :
    (s.disposalEnded runtime ok).Sound := by
  have hended : ∀ inFlight idle failed settled, Sound { s with
      runtimeDisposeInFlight := inFlight
      idleMainDisposalsInFlight := idle
      failedMcpDisposals := failed
      settled := settled } := by
    intro inFlight idle failed settled
    refine ⟨hs.owned, hs.known, hs.made, hs.finished, hs.inFlight, hs.joined, hs.ended, ?_,
      hs.closing⟩
    intro hblocked
    have hopen := hs.live hblocked
    exact ⟨hopen.fresh, hopen.absent, hopen.held, hopen.sheltered⟩
  unfold SessionPool.disposalEnded
  split_ifs
  · exact hs
  · exact hended _ _ _ _
  · exact (hended _ _ _ _).block

end Calls

section Shutdown

/-- Once admissions are blocked the pool may be emptied and the protections dropped. -/
theorem Sound.closed (hs : s.Sound) (hblocked : s.mcpAdmissionsBlocked = true)
    (pool : OrderedMap String ℕ) (hpool : pool = s.pool ∨ pool = .empty)
    (protections : List (ℕ × String)) (shutting : Bool) :
    Sound { s with
      pool := pool
      evictionProtections := protections
      isShuttingDown := shutting } := by
  refine ⟨?_, hs.known, hs.made, hs.finished, hs.inFlight, hs.joined, hs.ended, ?_, hs.closing⟩
  · intro c r hget
    rcases hpool with rfl | rfl
    · exact hs.owned c r hget
    · cases hget
  · intro hopen
    dsimp only at hopen
    rw [hblocked] at hopen
    cases hopen

theorem Sound.shutsGoto (hs : s.Sound) (hi : (s.calls i).creates = none)
    (hended : (s.calls i).ended = false) (hblocked : s.mcpAdmissionsBlocked = true)
    (hcall : call.creates = none ∧ call.joins = none ∧ call.holds = none ∧
      call.unpublished = none ∧ call.protects = none) : (s.goto i call).Sound := by
  obtain ⟨hcreates, hjoins, hholds, hunpublished, hprotects⟩ := hcall
  refine hs.goto (follows_quiet (hcreates.trans hi.symm) hjoins hholds hunpublished hprotects
    ?_ ?_)
  · intro hsome
    rw [hs.outcome_none hended] at hsome
    cases hsome
  · exact fun _ => hblocked

theorem Sound.shutdownCall (hs : s.Sound) (hi : s.calls i = .idle) : (s.shutdown i).Sound := by
  unfold SessionPool.shutdown
  split_ifs
  · exact hs
  · refine Sound.shutsGoto ?_ ?_ ?_ ?_ ⟨rfl, rfl, rfl, rfl, rfl⟩
    · exact hs.block.closed rfl _ (.inl rfl) _ true
    · change (s.calls i).creates = none
      rw [hi]
      rfl
    · change (s.calls i).ended = false
      rw [hi]
      rfl
    · rfl

theorem Sound.shutdownAdmittedCall (hs : s.Sound) (hi : s.calls i = .draining) :
    (s.shutdownAdmitted i).Sound := by
  have hblocked := hs.closing i (by rw [hi]; rfl)
  unfold SessionPool.shutdownAdmitted
  refine Sound.shutsGoto ?_ ?_ ?_ hblocked ⟨rfl, rfl, rfl, rfl, rfl⟩
  · exact hs.closed hblocked _ (.inl rfl) [] s.isShuttingDown
  · change (s.calls i).creates = none
    rw [hi]
    rfl
  · change (s.calls i).ended = false
    rw [hi]
    rfl

theorem Sound.shutdownNextCall {chats : List String} (hs : s.Sound)
    (hi : s.calls i = .shuttingDown chats) : (s.shutdownNext i chats).Sound := by
  have hblocked := hs.closing i (by rw [hi]; rfl)
  have hcreates : (s.calls i).creates = none := by
    rw [hi]
    rfl
  have hended : (s.calls i).ended = false := by
    rw [hi]
    rfl
  unfold SessionPool.shutdownNext
  split
  · exact Sound.shutsGoto (hs.closed hblocked .empty (.inr rfl) _ _) hcreates hended hblocked
      ⟨rfl, rfl, rfl, rfl, rfl⟩
  · next chat chats =>
    rw [goto_disposeEntry]
    refine Sound.disposeEntry ?_ ?_
    · exact hs.shutsGoto hcreates hended hblocked ⟨rfl, rfl, rfl, rfl, rfl⟩
    · intro hopen
      change s.mcpAdmissionsBlocked = false at hopen
      rw [hblocked] at hopen
      cases hopen

end Shutdown

theorem sound_initial : initial.Sound := by
  refine ⟨?_, ?_, ?_, ?_, ?_, ?_, ?_, ?_, ?_⟩
  · intro c r h
    cases h
  · intro r h
    cases h
  · intro j c r h
    cases h
  · intro j c r h
    cases h
  · intro j c
    constructor
    · intro h
      cases h
    · intro h
      cases h
  · intro j c t h
    cases h
  · intro j h
    cases h
  · intro _
    refine ⟨?_, ?_, ?_, ?_⟩
    · intro c r h
      cases h
    · intro j c h
      cases h
    · intro j c r h
      rcases h with h | ⟨t, c', h, -⟩
      · cases h
      · cases h
    · intro j c h
      cases h
  · intro j h
    cases h

theorem sound_step (hs : s.Sound) {event : SessionEvent} (h : s.Undisturbed event) :
    (s.step event).Sound := by
  cases event with
  | getOrCreate i chat =>
    unfold step
    dsimp only
    split
    · next hi =>
      unfold SessionPool.getOrCreate
      split_ifs
      · exact hs.reject (by rw [hi]; rfl)
      · exact hs.leave (by rw [hi]; rfl) ⟨rfl, rfl, rfl, rfl, rfl, rfl⟩ (.inl (by rw [hi]; rfl))
    · exact hs
  | entered i ok =>
    unfold step
    dsimp only
    split
    · next chat epoch hi =>
      unfold SessionPool.entered
      split_ifs
      · exact hs.reject (by rw [hi]; rfl)
      · split
        · exact hs.leave (by rw [hi]; rfl) ⟨rfl, rfl, rfl, rfl, rfl, rfl⟩
            (.inl (by rw [hi]; rfl))
        · exact hs.admittedCall (by rw [hi]; rfl) (by rw [hi]; rfl)
    · exact hs
  | disposalAwaited i ok =>
    unfold step
    dsimp only
    split
    · next chat epoch runtime hi =>
      unfold SessionPool.disposalAwaited
      split_ifs
      · exact hs
      · exact hs.reject (by rw [hi]; rfl)
      · exact hs.admittedCall (by rw [hi]; rfl) (by rw [hi]; rfl)
    · exact hs
  | joined i ok =>
    unfold step
    dsimp only
    split
    · next chat epoch task hi => exact hs.joinedCall hi
    · exact hs
  | realized i ok =>
    unfold step
    dsimp only
    split
    · next chat epoch runtime hi =>
      exact hs.realizedCall hi fun hblocked => h hblocked chat epoch runtime hi
    · exact hs
  | prepared i ok =>
    unfold step
    dsimp only
    split
    · next chat epoch hi => exact hs.preparedCall hi
    · exact hs
  | sessionCreated i ok victims =>
    unfold step
    dsimp only
    split
    · next chat epoch hi =>
      exact hs.sessionCreatedCall hi fun hblocked => h hblocked chat epoch hi
    · exact hs
  | seeded i ok =>
    unfold step
    dsimp only
    split
    · next chat epoch runtime hi =>
      exact hs.seededCall hi fun hblocked => h hblocked chat epoch runtime hi
    · exact hs
  | bound i ok =>
    unfold step
    dsimp only
    split
    · next chat epoch runtime hi =>
      exact hs.boundCall hi fun hblocked => h hblocked chat epoch runtime hi
    · exact hs
  | cleaned i => exact hs.cleanedCall
  | returned i ok =>
    unfold step
    dsimp only
    split
    · next chat epoch runtime hi =>
      unfold SessionPool.returned
      split_ifs
      · exact hs.leave (by rw [hi]; rfl) ⟨rfl, rfl, rfl, rfl, rfl, rfl⟩ (.inr rfl)
      · exact hs.reject (by rw [hi]; rfl)
    · exact hs
  | recreate i chat =>
    unfold step
    dsimp only
    split
    · next hi =>
      unfold SessionPool.recreate
      split_ifs
      · exact hs.reject (by rw [hi]; rfl)
      · exact hs.leave (by rw [hi]; rfl) ⟨rfl, rfl, rfl, rfl, rfl, rfl⟩ (.inl (by rw [hi]; rfl))
    · exact hs
  | recreateEntered i =>
    unfold step
    dsimp only
    split
    · next chat epoch hi =>
      unfold SessionPool.recreateEntered
      split_ifs
      · rw [goto_disposeEntry]
        refine Sound.disposeEntry ?_ ?_
        · exact hs.leave (by rw [hi]; rfl) ⟨rfl, rfl, rfl, rfl, rfl, rfl⟩
            (.inl (by rw [hi]; rfl))
        · intro hblocked
          exact free_goto rfl rfl fun j r _ => h hblocked chat epoch hi j r
      · exact hs.reject (by rw [hi]; rfl)
    · exact hs
  | evictIdle victims =>
    unfold step
    dsimp only
    unfold SessionPool.evictIdle
    split_ifs
    · exact hs
    · exact hs.evictAll h
  | acquireEvictionProtection i chat =>
    unfold step
    dsimp only
    split
    · next hi =>
      refine hs.acquire.leave ?_ ⟨rfl, rfl, rfl, rfl, rfl, rfl⟩ (.inl ?_)
      · rw [acquire_calls, hi]
        rfl
      · rw [acquire_calls, hi]
        rfl
    · exact hs
  | releaseEvictionProtection i =>
    unfold step
    dsimp only
    split
    · next hi => exact hs.release (by rw [hi]; rfl)
    · exact hs
  | fenceMcpAndSnapshot => exact hs.block
  | shutdown i =>
    unfold step
    dsimp only
    split
    · next hi => exact hs.shutdownCall hi
    · exact hs
  | shutdownAdmitted i =>
    unfold step
    dsimp only
    split
    · next hi => exact hs.shutdownAdmittedCall hi
    · exact hs
  | shutdownNext i =>
    unfold step
    dsimp only
    split
    · next chats hi => exact hs.shutdownNextCall hi
    · exact hs
  | disposalEnded runtime ok => exact hs.disposalEndedCall

section Returning

/-- A step moves one call at most, and only the end of `getOrCreate` moves it to `resolved`. -/
def Keeps (s t : SessionPool) : Prop :=
  ∀ i chat runtime, t.calls i = .resolved chat runtime → s.calls i = .resolved chat runtime

theorem Keeps.of_calls {t : SessionPool} (h : t.calls = s.calls) : s.Keeps t := by
  intro j c r hj
  rw [h] at hj
  exact hj

theorem Keeps.goto {t : SessionPool} (h : t.calls = s.calls)
    (hcall : ∀ chat runtime, call ≠ .resolved chat runtime) : s.Keeps (t.goto i call) := by
  intro j c r hj
  rw [calls_goto, h] at hj
  split_ifs at hj
  · exact absurd hj (hcall c r)
  · exact hj

theorem disposeRuntimeOnce_calls : (s.disposeRuntimeOnce runtime).calls = s.calls := by
  unfold SessionPool.disposeRuntimeOnce
  split_ifs <;> rfl

theorem disposeEntry_calls : (s.disposeEntry chat).calls = s.calls := by
  unfold SessionPool.disposeEntry
  cases s.pool.get chat with
  | none => rfl
  | some runtime => exact (startIdleDispose_frame s chat runtime).1

theorem disposeMainRuntimeAfterError_calls :
    (s.disposeMainRuntimeAfterError chat runtime).calls = s.calls := by
  unfold SessionPool.disposeMainRuntimeAfterError
  split_ifs
  · exact (startIdleDispose_frame s chat runtime).1
  · exact disposeRuntimeOnce_calls

theorem evictAll_calls {victims : List String} :
    (victims.foldl SessionPool.evict s).calls = s.calls := by
  induction victims generalizing s with
  | nil => rfl
  | cons chat victims ih =>
    rw [List.foldl_cons, ih]
    exact (evict_frame s chat).1

theorem Keeps.creationEnded {outcome : Option ℕ}
    (hcall : ∀ chat runtime, call ≠ .resolved chat runtime) :
    s.Keeps (s.creationEnded i chat outcome call) :=
  Keeps.goto (t := s.release i) rfl hcall

theorem keeps_admittedCall {epoch : ℕ} : s.Keeps (s.admittedCall i chat epoch) := by
  unfold SessionPool.admittedCall
  split
  · exact Keeps.goto rfl (by intro c r h; cases h)
  · split
    · exact Keeps.goto acquire_calls (by intro c r h; cases h)
    · have hgoto : s.Keeps ((s.acquire i chat).goto i (.preparing chat epoch)) :=
        Keeps.goto acquire_calls (by intro c r h; cases h)
      exact fun j c r hj => hgoto j c r hj

theorem keeps_rejected : s.Keeps (s.goto i .rejected) :=
  Keeps.goto rfl (by intro c r h; cases h)

theorem keeps_step {event : SessionEvent} (h : ∀ i ok, event ≠ .returned i ok) :
    s.Keeps (s.step event) := by
  have hsame : s.Keeps s := Keeps.of_calls rfl
  cases event with
  | getOrCreate i chat =>
    unfold step SessionPool.getOrCreate
    dsimp only
    split
    · split_ifs
      · exact keeps_rejected
      · exact Keeps.goto rfl (by intro c r h; cases h)
    · exact hsame
  | entered i ok =>
    unfold step SessionPool.entered
    dsimp only
    split
    · split_ifs
      · exact keeps_rejected
      · split
        · exact Keeps.goto rfl (by intro c r h; cases h)
        · exact keeps_admittedCall
    · exact hsame
  | disposalAwaited i ok =>
    unfold step SessionPool.disposalAwaited
    dsimp only
    split
    · split_ifs
      · exact hsame
      · exact keeps_rejected
      · exact keeps_admittedCall
    · exact hsame
  | joined i ok =>
    unfold step SessionPool.joined
    dsimp only
    split
    · split
      · exact hsame
      · exact keeps_rejected
      · split_ifs
        · exact keeps_rejected
        · exact Keeps.goto rfl (by intro c r h; cases h)
    · exact hsame
  | realized i ok =>
    unfold step SessionPool.realized
    dsimp only
    split
    · split_ifs
      · exact Keeps.goto (t := s.release i) rfl (by intro c r h; cases h)
      · exact Keeps.goto disposeMainRuntimeAfterError_calls (by intro c r h; cases h)
    · exact hsame
  | prepared i ok =>
    unfold step SessionPool.prepared
    dsimp only
    split
    · split_ifs
      · exact Keeps.goto rfl (by intro c r h; cases h)
      · exact Keeps.creationEnded (by intro c r h; cases h)
    · exact hsame
  | sessionCreated i ok victims =>
    unfold step SessionPool.sessionCreated
    dsimp only
    split
    · split_ifs
      · exact Keeps.creationEnded (by intro c r h; cases h)
      · exact Keeps.goto disposeRuntimeOnce_calls (by intro c r h; cases h)
      · exact Keeps.goto evictAll_calls (by intro c r h; cases h)
    · exact hsame
  | seeded i ok =>
    unfold step SessionPool.seeded
    dsimp only
    split
    · split_ifs
      · exact Keeps.goto rfl (by intro c r h; cases h)
      · exact Keeps.goto disposeMainRuntimeAfterError_calls (by intro c r h; cases h)
    · exact hsame
  | bound i ok =>
    unfold step SessionPool.bound
    dsimp only
    split
    · split_ifs
      · exact Keeps.creationEnded (by intro c r h; cases h)
      · exact Keeps.goto disposeMainRuntimeAfterError_calls (by intro c r h; cases h)
    · exact hsame
  | cleaned i =>
    unfold step SessionPool.cleaned
    dsimp only
    split
    · split_ifs
      · exact Keeps.creationEnded (by intro c r h; cases h)
      · exact hsame
    · split_ifs
      · exact Keeps.goto (t := s.release i) rfl (by intro c r h; cases h)
      · exact hsame
    · exact hsame
  | returned i ok => exact absurd rfl (h i ok)
  | recreate i chat =>
    unfold step SessionPool.recreate
    dsimp only
    split
    · split_ifs
      · exact keeps_rejected
      · exact Keeps.goto rfl (by intro c r h; cases h)
    · exact hsame
  | recreateEntered i =>
    unfold step SessionPool.recreateEntered
    dsimp only
    split
    · split_ifs
      · exact Keeps.goto disposeEntry_calls (by intro c r h; cases h)
      · exact keeps_rejected
    · exact hsame
  | evictIdle victims =>
    unfold step SessionPool.evictIdle
    dsimp only
    split_ifs
    · exact hsame
    · exact Keeps.of_calls evictAll_calls
  | acquireEvictionProtection i chat =>
    unfold step
    dsimp only
    split
    · exact Keeps.goto acquire_calls (by intro c r h; cases h)
    · exact hsame
  | releaseEvictionProtection i =>
    unfold step
    dsimp only
    split
    · exact Keeps.of_calls rfl
    · exact hsame
  | fenceMcpAndSnapshot => exact Keeps.of_calls rfl
  | shutdown i =>
    unfold step SessionPool.shutdown
    dsimp only
    split
    · split_ifs
      · exact hsame
      · exact Keeps.goto (t := { s.blockMcpAdmissions with isShuttingDown := true }) rfl
          (by intro c r h; cases h)
    · exact hsame
  | shutdownAdmitted i =>
    unfold step SessionPool.shutdownAdmitted
    dsimp only
    split
    · exact Keeps.goto (t := { s with evictionProtections := [] }) rfl (by intro c r h; cases h)
    · exact hsame
  | shutdownNext i =>
    unfold step SessionPool.shutdownNext
    dsimp only
    split
    · split
      · exact Keeps.goto (t := { s with pool := .empty }) rfl (by intro c r h; cases h)
      · exact Keeps.goto disposeEntry_calls (by intro c r h; cases h)
    · exact hsame
  | disposalEnded runtime ok =>
    unfold step SessionPool.disposalEnded
    dsimp only
    split_ifs
    · exact hsame
    · exact Keeps.of_calls rfl
    · exact Keeps.of_calls rfl

theorem Sound.returnsPooled (hs : s.Sound) (event : SessionEvent) : s.ReturnsPooled event := by
  intro j c r hbefore hafter
  cases event with
  | returned i ok =>
    cases hi : s.calls i with
    | returning chat epoch runtime =>
      have hstep : s.step (.returned i ok) = s.returned i chat epoch runtime ok := by
        unfold step
        dsimp only
        rw [hi]
      rw [hstep] at hafter ⊢
      unfold SessionPool.returned at hafter ⊢
      split_ifs at hafter ⊢ with hok
      · rw [calls_goto] at hafter
        split_ifs at hafter
        · cases hafter
          rw [Bool.and_eq_true] at hok
          have hopen := hs.live (admitted_open hok.2)
          have hget := hopen.held i c r (.inl (by rw [hi]; rfl))
          exact ⟨hopen.fresh c r hget, hget⟩
        · exact absurd hafter hbefore
      · exact absurd (keeps_rejected j c r hafter) hbefore
    | _ =>
      have hstep : s.step (.returned i ok) = s := by
        unfold step
        dsimp only
        rw [hi]
      rw [hstep] at hafter
      exact absurd hafter hbefore
  | _ => exact absurd (keeps_step (by intro i ok h; cases h) j c r hafter) hbefore

end Returning

section Recreations

/-- A creation up to the await in which its published runtime is seeded. -/
def published : List SessionEvent :=
  [.getOrCreate 0 "web", .entered 0 true, .prepared 0 true, .sessionCreated 0 true []]

def recreatedWhileSeeding : List SessionEvent :=
  published ++ [.recreate 1 "web", .recreateEntered 1, .seeded 0 true, .bound 0 true]

end Recreations

end SessionPool
end Piclaw
