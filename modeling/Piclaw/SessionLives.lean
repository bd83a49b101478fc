import Piclaw.ShutdownRuns

/-!
# One runtime of a chat is not disposed of

A creation makes a runtime only for a chat that has none in the pool, and at once pools it or starts
its disposal. Until a shutdown every runtime whose disposal has not been started is the entry of its
chat, and there is never a second one.
-/

namespace Piclaw

namespace SessionPool
variable {s t u : SessionPool} {i : ℕ} {chat : String} {runtime : ℕ}

section Making

/-- No runtime is made. -/
structure Plain (s t : SessionPool) : Prop where
  shutting : t.isShuttingDown = s.isShuttingDown
  created : t.created = s.created

/-- A runtime that is made is pooled, or its disposal is started. -/
structure Makes (s t : SessionPool) : Prop where
  shutting : t.isShuttingDown = s.isShuttingDown
  created : t.created = s.created ∨ ∃ chat, t.created = s.created ++ [chat] ∧
    (s.created.length ∈ t.disposed ∨
      s.isShuttingDown = false ∧ t.pool.get chat = some s.created.length)

theorem Plain.refl (s : SessionPool) : s.Plain s := ⟨rfl, rfl⟩

theorem Plain.trans (h : s.Plain t) (h' : t.Plain u) : s.Plain u :=
  ⟨h'.shutting.trans h.shutting, h'.created.trans h.created⟩

theorem Plain.makes (h : s.Plain t) : s.Makes t := ⟨h.shutting, Or.inl h.created⟩

theorem plain_goto (call : SessionCall) : s.Plain (s.goto i call) := ⟨rfl, rfl⟩

theorem plain_disposeRuntimeOnce : s.Plain (s.disposeRuntimeOnce runtime) := by
  unfold disposeRuntimeOnce
  split_ifs <;> exact ⟨rfl, rfl⟩

theorem plain_startIdleDispose : s.Plain (s.startIdleDispose chat runtime) := by
  unfold startIdleDispose
  split_ifs
  · exact .refl s
  · have h := @plain_disposeRuntimeOnce { s with pool := s.pool.delete chat } runtime
    exact ⟨h.shutting, h.created⟩
  · exact ⟨plain_disposeRuntimeOnce.shutting, plain_disposeRuntimeOnce.created⟩

theorem plain_disposeEntry : s.Plain (s.disposeEntry chat) := by
  unfold disposeEntry
  split
  · exact .refl s
  · exact plain_startIdleDispose

theorem plain_disposeMainRuntimeAfterError :
    s.Plain (s.disposeMainRuntimeAfterError chat runtime) := by
  unfold disposeMainRuntimeAfterError
  split_ifs
  · exact plain_startIdleDispose
  · exact plain_disposeRuntimeOnce

theorem plain_evictAll (victims : List String) : s.Plain (victims.foldl evict s) := by
  induction victims generalizing s with
  | nil => exact .refl s
  | cons victim victims ih =>
    refine Plain.trans ?_ ih
    unfold evict
    split_ifs
    · exact .refl s
    · exact plain_disposeEntry

theorem plain_acquire : s.Plain (s.acquire i chat) := by
  unfold acquire
  split_ifs <;> exact ⟨rfl, rfl⟩

theorem plain_admittedCall {epoch : ℕ} : s.Plain (s.admittedCall i chat epoch) := by
  have h := @plain_acquire s i chat
  unfold admittedCall
  generalize s.acquire i chat = acquired at h ⊢
  split
  · exact plain_goto _
  · split <;> exact ⟨h.shutting, h.created⟩

theorem plain_disposalEnded {ok : Bool} : s.Plain (s.disposalEnded runtime ok) := by
  unfold disposalEnded
  split_ifs <;> exact ⟨rfl, rfl⟩

theorem Tidy.sessionCreated_makes {epoch : ℕ} {ok : Bool} {victims : List String} (hs : s.Tidy)
    (hi : s.calls i = .creating chat epoch) :
    s.Makes (s.sessionCreated i chat epoch ok victims) := by
  unfold SessionPool.sessionCreated
  split_ifs with hfailed hlate
  · exact ⟨rfl, Or.inl rfl⟩
  · obtain ⟨-, hdisposed, -⟩ := (hs.make chat).tidy.disposeRuntimeOnce
      (by simp) fun c hc => lt_irrefl _ (known_of_created (hs.owned c _ hc))
    have hplain := @plain_disposeRuntimeOnce { s with created := s.created ++ [chat] }
      s.created.length
    exact ⟨hplain.shutting, Or.inr ⟨chat, hplain.created, Or.inl hdisposed⟩⟩
  · have hpublish := hs.publish hi
    unfold enforceMainSessionPoolLimit
    rw [goto_evictAll]
    have hplain := @plain_evictAll ({ s with
      created := s.created ++ [chat]
      pool := s.pool.set chat s.created.length }.goto i (.seeding chat epoch s.created.length))
      (victims.filter (· ≠ chat))
    refine ⟨hplain.shutting, Or.inr ⟨chat, hplain.created, ?_⟩⟩
    have hentry : (s.pool.set chat s.created.length).get chat = some s.created.length := by
      rw [OrderedMap.get_set, if_pos rfl]
    rcases hpublish.tidy.evictAll.kept chat s.created.length hentry with hpool | hdisposed
    · exact Or.inr ⟨Bool.eq_false_iff.mpr fun h => hlate (by simp [h]), hpool⟩
    · exact Or.inl hdisposed

theorem Tidy.makes (hs : s.Tidy) {event : SessionEvent} (hevent : event.shuts = false) :
    s.Makes (s.step event) := by
  unfold SessionPool.step
  cases event with
  | sessionCreated i ok victims =>
    dsimp only
    split
    · rename_i chat epoch hi
      exact hs.sessionCreated_makes hi
    · exact (Plain.refl s).makes
  | shutdown i => cases hevent
  | shutdownAdmitted i => cases hevent
  | shutdownNext i => cases hevent
  | getOrCreate i chat =>
    refine Plain.makes ?_
    dsimp only
    split
    · unfold SessionPool.getOrCreate
      split_ifs <;> exact plain_goto _
    · exact .refl s
  | entered i ok =>
    refine Plain.makes ?_
    dsimp only
    split
    · unfold SessionPool.entered
      split_ifs
      · exact plain_goto _
      · split
        · exact plain_goto _
        · exact plain_admittedCall
    · exact .refl s
  | disposalAwaited i ok =>
    refine Plain.makes ?_
    dsimp only
    split
    · unfold SessionPool.disposalAwaited
      split_ifs
      · exact .refl s
      · exact plain_goto _
      · exact plain_admittedCall
    · exact .refl s
  | joined i ok =>
    refine Plain.makes ?_
    dsimp only
    split
    · unfold SessionPool.joined
      split
      · exact .refl s
      · exact plain_goto _
      · split_ifs <;> exact plain_goto _
    · exact .refl s
  | realized i ok =>
    refine Plain.makes ?_
    dsimp only
    split
    · unfold SessionPool.realized
      split_ifs
      · exact ⟨rfl, rfl⟩
      · exact plain_disposeMainRuntimeAfterError.trans (plain_goto _)
    · exact .refl s
  | prepared i ok =>
    refine Plain.makes ?_
    dsimp only
    split
    · unfold SessionPool.prepared
      split_ifs <;> exact ⟨rfl, rfl⟩
    · exact .refl s
  | seeded i ok =>
    refine Plain.makes ?_
    dsimp only
    split
    · unfold SessionPool.seeded
      split_ifs
      · exact plain_goto _
      · exact plain_disposeMainRuntimeAfterError.trans (plain_goto _)
    · exact .refl s
  | bound i ok =>
    refine Plain.makes ?_
    dsimp only
    split
    · unfold SessionPool.bound
      split_ifs
      · exact ⟨rfl, rfl⟩
      · exact plain_disposeMainRuntimeAfterError.trans (plain_goto _)
    · exact .refl s
  | cleaned i =>
    refine Plain.makes ?_
    dsimp only
    unfold SessionPool.cleaned
    split
    · split_ifs
      · exact ⟨rfl, rfl⟩
      · exact .refl s
    · split_ifs
      · exact ⟨rfl, rfl⟩
      · exact .refl s
    · exact .refl s
  | returned i ok =>
    refine Plain.makes ?_
    dsimp only
    split
    · unfold SessionPool.returned
      split_ifs <;> exact plain_goto _
    · exact .refl s
  | recreate i chat =>
    refine Plain.makes ?_
    dsimp only
    split
    · unfold SessionPool.recreate
      split_ifs <;> exact plain_goto _
    · exact .refl s
  | recreateEntered i =>
    refine Plain.makes ?_
    dsimp only
    split
    · unfold SessionPool.recreateEntered
      split_ifs
      · exact plain_disposeEntry.trans (plain_goto _)
      · exact plain_goto _
    · exact .refl s
  | evictIdle victims =>
    refine Plain.makes ?_
    dsimp only
    unfold SessionPool.evictIdle
    split_ifs
    · exact .refl s
    · exact plain_evictAll victims
  | acquireEvictionProtection i chat =>
    refine Plain.makes ?_
    dsimp only
    split
    · exact plain_acquire.trans (plain_goto _)
    · exact .refl s
  | releaseEvictionProtection i =>
    refine Plain.makes ?_
    dsimp only
    split <;> exact ⟨rfl, rfl⟩
  | fenceMcpAndSnapshot => exact Plain.makes ⟨rfl, rfl⟩
  | disposalEnded runtime ok => exact plain_disposalEnded.makes

end Making

section Lives

/-- While the pool is not shut down, a runtime that is not disposed of is the entry of its chat;
there is no second one, also afterwards. -/
structure Lives (s : SessionPool) : Prop where
  tidy : s.Tidy
  pooled : s.isShuttingDown = false → ∀ chat runtime, s.created[runtime]? = some chat →
    runtime ∉ s.disposed → s.pool.get chat = some runtime
  alone : ∀ chat runtime runtime', s.created[runtime]? = some chat →
    s.created[runtime']? = some chat → runtime ∉ s.disposed → runtime' ∉ s.disposed →
    runtime = runtime'

theorem Lives.step (h : s.Lives) (hproper : s.Proper t) (hmakes : s.Makes t) : t.Lives := by
  have hkept : ∀ chat runtime, s.created[runtime]? = some chat → runtime ∉ t.disposed →
      s.isShuttingDown = false → t.pool.get chat = some runtime := by
    intro chat runtime hcreated hlive hopen
    have hpool := h.pooled hopen chat runtime hcreated fun hmem =>
      hlive (hproper.disposed runtime hmem)
    exact (hproper.kept chat runtime hpool).resolve_right hlive
  have hmade : ∀ chat runtime, t.created[runtime]? = some chat → runtime ∉ t.disposed →
      s.created[runtime]? = some chat ∨
        s.isShuttingDown = false ∧ t.pool.get chat = some runtime := by
    intro chat runtime hcreated hlive
    rcases hmakes.created with hsame | ⟨made, hsame, hnew⟩
    · exact Or.inl (hsame ▸ hcreated)
    · rw [hsame] at hcreated
      by_cases hold : runtime < s.created.length
      · rw [List.getElem?_append_left hold] at hcreated
        exact Or.inl hcreated
      · rw [List.getElem?_append_right (not_lt.mp hold), List.getElem?_singleton] at hcreated
        split_ifs at hcreated with hindex
        cases hcreated
        have heq : runtime = s.created.length := by omega
        subst heq
        exact Or.inr (hnew.resolve_left hlive)
  have hpooled : s.isShuttingDown = false → ∀ chat runtime, t.created[runtime]? = some chat →
      runtime ∉ t.disposed → t.pool.get chat = some runtime := by
    intro hopen chat runtime hcreated hlive
    rcases hmade chat runtime hcreated hlive with hold | ⟨-, hpool⟩
    · exact hkept chat runtime hold hlive hopen
    · exact hpool
  refine ⟨hproper.tidy, hmakes.shutting ▸ hpooled, ?_⟩
  intro chat runtime runtime' hcreated hcreated' hlive hlive'
  by_cases hopen : s.isShuttingDown = false
  · have hpool := hpooled hopen chat runtime hcreated hlive
    rw [hpooled hopen chat runtime' hcreated' hlive'] at hpool
    exact (Option.some.inj hpool).symm
  · refine h.alone chat runtime runtime'
      ((hmade chat runtime hcreated hlive).resolve_right fun hnew => hopen hnew.1)
      ((hmade chat runtime' hcreated' hlive').resolve_right fun hnew => hopen hnew.1) ?_ ?_
    · exact fun hmem => hlive (hproper.disposed runtime hmem)
    · exact fun hmem => hlive' (hproper.disposed runtime' hmem)

theorem Lives.empty (h : s.Lives) (hshut : s.isShuttingDown = true) :
    Lives { s with pool := .empty } where
  tidy := ⟨fun _ _ h => (nomatch h), h.tidy.known, h.tidy.made, h.tidy.inFlight, fun _ _ _ => rfl,
    fun _ _ h => (nomatch h), h.tidy.settled, h.tidy.running, h.tidy.awaited⟩
  pooled hopen := absurd hopen (by rw [hshut]; exact Bool.true_eq_false_eq_False)
  alone := h.alone

end Lives

end SessionPool

namespace SessionManager
open SessionPool

variable {m : SessionManager}

/-- A shutdown that has begun has shut the pool. -/
structure Attended (m : SessionManager) : Prop where
  lives : m.sessions.Lives
  shutting : m.phase ≠ .running → m.sessions.isShuttingDown = true

theorem Attended.shutdownNext (h : m.Attended) : m.shutdownNext.Attended := by
  unfold SessionManager.shutdownNext
  split
  · rename_i hphase
    have hshut := h.shutting (by rw [hphase]; exact ShutdownPhase.noConfusion)
    exact ⟨h.lives.empty hshut, fun _ => hshut⟩
  · rename_i chat chats hphase
    have hshut := h.shutting (by rw [hphase]; exact ShutdownPhase.noConfusion)
    have hentry := h.lives.step h.lives.tidy.disposeEntry
      (@plain_disposeEntry _ chat).makes
    have hstill : (m.sessions.disposeEntry chat).isShuttingDown = true :=
      plain_disposeEntry.shutting.trans hshut
    dsimp only
    split
    · exact ⟨h.lives, fun _ => hshut⟩
    · split
      · exact ⟨hentry, fun _ => hstill⟩
      · exact ⟨hentry, fun _ => hstill⟩
  · exact h

theorem Attended.step (h : m.Attended) (e : ManagerEvent) : (m.step e).Attended := by
  cases e with
  | session event =>
    change (m.session event).Attended
    unfold SessionManager.session
    split_ifs with hshuts
    · exact h
    · have hmakes := h.lives.tidy.makes (Bool.eq_false_iff.mpr hshuts)
      refine ⟨h.lives.step (h.lives.tidy.step (Bool.eq_false_iff.mpr hshuts)) hmakes, ?_⟩
      intro hphase
      refine hmakes.shutting.trans (h.shutting fun hrunning => hphase ?_)
      change m.observe event = .running
      unfold SessionManager.observe
      rw [hrunning]
  | quarantineMcpRuntime runtime =>
    have hplain : m.sessions.Plain (m.sessions.quarantineMcpRuntime runtime) := by
      unfold SessionPool.quarantineMcpRuntime
      split_ifs
      · exact .refl _
      · have hdisposed := @plain_disposeRuntimeOnce { m.sessions with
          pool := m.sessions.pool.filterEntries fun _ pooled => decide (pooled ≠ runtime) } runtime
        exact ⟨hdisposed.shutting, hdisposed.created⟩
    exact ⟨h.lives.step h.lives.tidy.quarantineMcpRuntime hplain.makes,
      fun hphase => hplain.shutting.trans (h.shutting hphase)⟩
  | resumeMcpAdmissions drained =>
    have hplain : m.sessions.Plain (m.sessions.resumeMcpAdmissions drained) := by
      unfold SessionPool.resumeMcpAdmissions
      split_ifs <;> exact ⟨rfl, rfl⟩
    exact ⟨h.lives.step (h.lives.tidy.same same_resume) hplain.makes,
      fun hphase => hplain.shutting.trans (h.shutting hphase)⟩
  | shutdown =>
    change m.shutdown.Attended
    unfold SessionManager.shutdown
    split
    · have htidy := (h.lives.tidy.same same_block).tidy
      exact ⟨⟨⟨htidy.owned, htidy.known, htidy.made, htidy.inFlight, htidy.absent, htidy.fresh,
        htidy.settled, htidy.running, htidy.awaited⟩, fun hopen => (by cases hopen),
        h.lives.alone⟩, fun _ => rfl⟩
    · exact h
  | shutdownAdmitted =>
    change m.shutdownAdmitted.Attended
    unfold SessionManager.shutdownAdmitted
    split
    · rename_i hphase
      have hshut := h.shutting (by rw [hphase]; exact ShutdownPhase.noConfusion)
      split_ifs
      · have hsame : m.sessions.SameSessions { m.sessions with evictionProtections := [] } :=
          ⟨rfl, rfl, rfl, rfl, rfl, rfl, rfl, rfl⟩
        exact ⟨h.lives.step (h.lives.tidy.same hsame) (Plain.makes ⟨rfl, rfl⟩), fun _ => hshut⟩
      · exact h
    · exact h
  | shutdownNext => exact h.shutdownNext

theorem attended_initial : initial.Attended :=
  ⟨⟨sound_initial.tidy, fun _ _ _ h => (by cases h), fun _ _ _ h => (by cases h)⟩,
    fun hphase => absurd rfl hphase⟩

theorem Attended.run (h : m.Attended) (events : List ManagerEvent) :
    (events.foldl SessionManager.step m).Attended := by
  induction events generalizing m with
  | nil => exact h
  | cons e events ih => exact ih (h.step e)

/-- In every reachable state: the entry of a chat is a runtime made for it whose disposal has not
been started, and of the runtimes made for a chat at most one is such. -/
theorem one_live_runtime (events : List ManagerEvent) :
    let s := (events.foldl SessionManager.step initial).sessions
    (∀ chat runtime, s.pool.get chat = some runtime →
      s.created[runtime]? = some chat ∧ runtime ∉ s.disposed) ∧
    (∀ chat runtime runtime', s.created[runtime]? = some chat →
      s.created[runtime']? = some chat → runtime ∉ s.disposed → runtime' ∉ s.disposed →
      runtime = runtime') ∧
    (s.isShuttingDown = false → ∀ chat runtime, s.created[runtime]? = some chat →
      runtime ∉ s.disposed → s.pool.get chat = some runtime) := by
  intro s
  have h := (attended_initial.run events).lives
  exact ⟨fun chat runtime hget => ⟨h.tidy.owned chat runtime hget, h.tidy.fresh chat runtime hget⟩,
    h.alone, h.pooled⟩

end SessionManager
end Piclaw
