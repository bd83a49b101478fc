import Piclaw.SessionDisposals

/-!
# The shutdown of the session manager

`AgentSessionManager.shutdown`: admissions close, the work that is under way is awaited, and then
one session after the other is disposed of. When admissions are closed no call begins, nothing
enters the pool, and an idle disposal begins only for a call that awaits it.
-/

namespace Piclaw

/-- The work of a call is registered and has not ended. -/
def SessionCall.underway : SessionCall → Bool
  | .idle | .resolved .. | .rejected | .draining | .shuttingDown .. | .done => false
  | _ => true

/-- The runtime of which the call awaits the disposal before it fails. -/
def SessionCall.cleans : SessionCall → Option ℕ
  | .discarding _ runtime => some runtime
  | .cleaningExisting runtime => some runtime
  | _ => none

/-- The calls that the event registers. -/
def SessionEvent.registers : SessionEvent → List ℕ
  | .getOrCreate i _ => [i]
  | .recreate i _ => [i]
  | _ => []

/-- `draining`: the calls and the idle disposals that the shutdown awaits. `disposing`: the runtime
whose disposal the loop awaits, and the chats behind it. -/
inductive ShutdownPhase
  | running
  | draining (calls : List ℕ) (disposals : List (String × ℕ))
  | continuing (chats : List String)
  | disposing (runtime : ℕ) (chats : List String)
  | resolved
  | rejected
  deriving DecidableEq

structure SessionManager where
  sessions : SessionPool
  mcpLifecycleWork : List ℕ
  phase : ShutdownPhase

inductive ManagerEvent
  | session (event : SessionEvent)
  | quarantineMcpRuntime (runtime : ℕ)
  | resumeMcpAdmissions (drained : Bool)
  | shutdown
  | shutdownAdmitted
  | shutdownNext

namespace SessionPool

def quarantineMcpRuntime (s : SessionPool) (runtime : ℕ) : SessionPool :=
  if s.created.length ≤ runtime then s
  else
    { s with pool := s.pool.filterEntries fun _ pooled => decide (pooled ≠ runtime)
      }.disposeRuntimeOnce runtime

def resumeMcpAdmissions (s : SessionPool) (drained : Bool) : SessionPool :=
  if s.isShuttingDown || !s.failedMcpDisposals.isEmpty || !drained then s
  else { s with mcpAdmissionsBlocked := false }

end SessionPool

namespace SessionManager

def initial : SessionManager := ⟨SessionPool.initial, [], .running⟩

variable (m : SessionManager)

/-- What the shutdown sees of an event: the end of the disposal that it awaits. -/
def observe (event : SessionEvent) : ShutdownPhase :=
  match m.phase, event with
  | .disposing runtime chats, .disposalEnded ended ok =>
    if ended = runtime ∧ m.sessions.runtimeDisposeInFlight.contains ended then
      if ok then .continuing chats else .rejected
    else m.phase
  | phase, _ => phase

def session (event : SessionEvent) : SessionManager :=
  if event.shuts then m
  else
    { sessions := m.sessions.step event
      mcpLifecycleWork := event.registers ++ m.mcpLifecycleWork
      phase := m.observe event }

/-- `pendingMcpLifecycleWork` is what the shutdown awaits before its own part. -/
def shutdown : SessionManager :=
  match m.phase with
  | .running =>
    { m with
      sessions := { m.sessions.blockMcpAdmissions with isShuttingDown := true }
      phase := .draining (m.mcpLifecycleWork.filter fun i => (m.sessions.calls i).underway)
        m.sessions.idleMainDisposalsInFlight.entries }
  | _ => m

/-- The work that the shutdown awaits has settled. -/
def drained (calls : List ℕ) (disposals : List (String × ℕ)) : Bool :=
  calls.all (fun i => !(m.sessions.calls i).underway) &&
    disposals.all fun (chat, runtime) =>
      m.sessions.idleMainDisposalsInFlight.get chat ≠ some runtime

def shutdownAdmitted : SessionManager :=
  match m.phase with
  | .draining calls disposals =>
    if m.drained calls disposals then
      { m with
        sessions := { m.sessions with evictionProtections := [] }
        phase := .continuing (m.sessions.pool.entries.map Prod.fst) }
    else m
  | _ => m

/-- One round of the loop, up to the disposal that it awaits. -/
def shutdownNext : SessionManager :=
  match m.phase with
  | .continuing [] =>
    { m with sessions := { m.sessions with pool := .empty }, phase := .resolved }
  | .continuing (chat :: chats) =>
    let sessions := m.sessions.disposeEntry chat
    match m.sessions.pool.get chat with
    | none => { m with phase := .continuing chats }
    | some _ =>
      match sessions.idleMainDisposalsInFlight.get chat with
      | none => { m with sessions, phase := .continuing chats }
      | some runtime => { m with sessions, phase := .disposing runtime chats }
  | _ => m

def step (m : SessionManager) : ManagerEvent → SessionManager
  | .session event => m.session event
  | .quarantineMcpRuntime runtime =>
    { m with sessions := m.sessions.quarantineMcpRuntime runtime }
  | .resumeMcpAdmissions drained => { m with sessions := m.sessions.resumeMcpAdmissions drained }
  | .shutdown => m.shutdown
  | .shutdownAdmitted => m.shutdownAdmitted
  | .shutdownNext => m.shutdownNext

end SessionManager

namespace SessionPool
variable {s t u : SessionPool} {i : ℕ} {chat : String} {runtime : ℕ} {call : SessionCall}

section Winding

/-- No disposal of the runtime is awaited for a chat. -/
def Unawaited (s : SessionPool) (runtime : ℕ) : Prop :=
  ∀ chat, s.idleMainDisposalsInFlight.get chat ≠ some runtime

structure Closed (s : SessionPool) : Prop where
  blocked : s.mcpAdmissionsBlocked = true
  shutting : s.isShuttingDown = true

/-- What a step can do when admissions are closed: no call begins, nothing enters the pool, and an
idle disposal begins only for a call that then awaits it. -/
structure Winds (s t : SessionPool) : Prop where
  closed : t.Closed
  pool : ∀ chat runtime, t.pool.get chat = some runtime → s.pool.get chat = some runtime
  underway : ∀ i, (t.calls i).underway = true → (s.calls i).underway = true
  awaited : ∀ chat runtime, t.idleMainDisposalsInFlight.get chat = some runtime →
    s.idleMainDisposalsInFlight.get chat = some runtime ∨
      ∃ i, (t.calls i).cleans = some runtime
  cleaning : ∀ i runtime, (s.calls i).cleans = some runtime →
    (t.calls i).cleans = some runtime ∨ s.Unawaited runtime

theorem Winds.refl (hc : s.Closed) : s.Winds s :=
  ⟨hc, fun _ _ h => h, fun _ h => h, fun _ _ h => .inl h, fun _ _ h => .inl h⟩

theorem Winds.same (hc : t.Closed) (h : s.SameSessions t) : s.Winds t := by
  refine ⟨hc, ?_, ?_, ?_, ?_⟩
  · rw [h.pool]
    exact fun _ _ hget => hget
  · rw [h.calls]
    exact fun _ hi => hi
  · rw [h.awaited]
    exact fun _ _ hget => .inl hget
  · rw [h.calls]
    exact fun _ _ hi => .inl hi

theorem closed_admitted (hc : s.Closed) (epoch : ℕ) : s.admitted epoch = false := by
  unfold admitted
  rw [hc.blocked]
  rfl

/-- A call that is under way goes on, and awaits no disposal any more that is still awaited. -/
theorem Winds.goto (hc : s.Closed) (hunderway : call.underway = true → (s.calls i).underway = true)
    (hcleans : ∀ runtime, (s.calls i).cleans = some runtime → s.Unawaited runtime) :
    s.Winds (s.goto i call) := by
  refine ⟨⟨hc.blocked, hc.shutting⟩, fun _ _ h => h, ?_, fun _ _ h => .inl h, ?_⟩
  · intro j hj
    rw [calls_goto] at hj
    split_ifs at hj with heq
    · rw [heq]
      exact hunderway hj
    · exact hj
  · intro j r hj
    rw [calls_goto]
    split_ifs with heq
    · rw [heq] at hj
      exact .inr (hcleans r hj)
    · exact .inl hj

theorem Winds.reject (hc : s.Closed) (hcleans : (s.calls i).cleans = none)
    (hcall : call.underway = false) : s.Winds (s.goto i call) := by
  refine Winds.goto hc ?_ ?_
  · intro h
    rw [hcall] at h
    cases h
  · intro r h
    rw [hcleans] at h
    cases h

theorem Winds.ended (hc : s.Closed) {outcome : Option ℕ}
    (hcleans : ∀ runtime, (s.calls i).cleans = some runtime → s.Unawaited runtime) :
    s.Winds (s.creationEnded i chat outcome .rejected) := by
  have hgoto : s.Winds (s.goto i .rejected) := Winds.goto hc (fun h => nomatch h) hcleans
  exact ⟨⟨hc.blocked, hc.shutting⟩, hgoto.pool, hgoto.underway, hgoto.awaited, hgoto.cleaning⟩

theorem startIdleDispose_calls : (s.startIdleDispose chat runtime).calls = s.calls := by
  unfold startIdleDispose
  split_ifs
  · rfl
  · exact disposeRuntimeOnce_frame.2.1
  · exact disposeRuntimeOnce_frame.2.1

theorem startIdleDispose_closed (hc : s.Closed) : (s.startIdleDispose chat runtime).Closed := by
  unfold startIdleDispose
  split_ifs
  · exact hc
  · unfold disposeRuntimeOnce
    dsimp only
    split_ifs <;> exact ⟨hc.blocked, hc.shutting⟩
  · unfold disposeRuntimeOnce
    dsimp only
    split_ifs <;> exact ⟨hc.blocked, hc.shutting⟩

theorem startIdleDispose_pool {c : String} {r : ℕ}
    (h : (s.startIdleDispose chat runtime).pool.get c = some r) : s.pool.get c = some r := by
  unfold startIdleDispose at h
  split_ifs at h with hidle hpool
  · exact h
  · change (disposeRuntimeOnce _ runtime).pool.get c = some r at h
    rw [disposeRuntimeOnce_frame.1, OrderedMap.get_delete] at h
    split_ifs at h
    exact h
  · change (disposeRuntimeOnce _ runtime).pool.get c = some r at h
    rw [disposeRuntimeOnce_frame.1] at h
    exact h

theorem startIdleDispose_awaited {c : String} {r : ℕ}
    (h : (s.startIdleDispose chat runtime).idleMainDisposalsInFlight.get c = some r) :
    s.idleMainDisposalsInFlight.get c = some r ∨ (c = chat ∧ r = runtime) := by
  unfold startIdleDispose at h
  split_ifs at h
  · exact .inl h
  all_goals
    change (s.idleMainDisposalsInFlight.set chat runtime).get c = some r at h
    rw [OrderedMap.get_set] at h
    split_ifs at h with hc
    · exact .inr ⟨hc, (Option.some.inj h).symm⟩
    · exact .inl h

/-- A call fails with a pooled runtime, of which it then awaits the disposal. -/
theorem Winds.fails (hc : s.Closed) (hunderway : (s.calls i).underway = true)
    (hcleans : (s.calls i).cleans = none) (hcall : call.cleans = some runtime) :
    s.Winds ((s.disposeMainRuntimeAfterError chat runtime).goto i call) := by
  have hcalls : (s.disposeMainRuntimeAfterError chat runtime).calls = s.calls := by
    unfold disposeMainRuntimeAfterError
    split_ifs
    · exact startIdleDispose_calls
    · exact disposeRuntimeOnce_frame.2.1
  have hclosed : (s.disposeMainRuntimeAfterError chat runtime).Closed := by
    unfold disposeMainRuntimeAfterError
    split_ifs
    · exact startIdleDispose_closed hc
    · unfold disposeRuntimeOnce
      split_ifs <;> exact ⟨hc.blocked, hc.shutting⟩
  refine ⟨⟨hclosed.blocked, hclosed.shutting⟩, ?_, ?_, ?_, ?_⟩
  · intro c r h
    change (s.disposeMainRuntimeAfterError chat runtime).pool.get c = some r at h
    unfold disposeMainRuntimeAfterError at h
    split_ifs at h
    · exact startIdleDispose_pool h
    · rw [disposeRuntimeOnce_frame.1] at h
      exact h
  · intro j hj
    rw [calls_goto, hcalls] at hj
    split_ifs at hj with heq
    · rw [heq]
      exact hunderway
    · exact hj
  · intro c r h
    change (s.disposeMainRuntimeAfterError chat runtime).idleMainDisposalsInFlight.get c = some r at h
    have hor : s.idleMainDisposalsInFlight.get c = some r ∨ r = runtime := by
      unfold disposeMainRuntimeAfterError at h
      split_ifs at h
      · rcases startIdleDispose_awaited h with h | ⟨_, h⟩
        · exact .inl h
        · exact .inr h
      · rw [disposeRuntimeOnce_frame.2.2.1] at h
        exact .inl h
    rcases hor with h | rfl
    · exact .inl h
    · right
      refine ⟨i, ?_⟩
      rw [calls_goto, if_pos rfl]
      exact hcall
  · intro j r hj
    rw [calls_goto, hcalls]
    split_ifs with heq
    · rw [heq, hcleans] at hj
      cases hj
    · exact .inl hj

theorem unawaited_of_ended (hs : s.Tidy) (h : s.ended runtime = true) : s.Unawaited runtime := by
  intro c hget
  obtain ⟨hrunning, hsettled⟩ := hs.awaited c runtime hget
  unfold ended at h
  rw [Bool.or_eq_true] at h
  rcases h with h | h
  · exact hsettled (List.contains_iff_mem.mp h)
  · rw [List.contains_iff_mem.mpr hrunning] at h
    cases h

theorem Winds.disposal {ok : Bool} (hc : s.Closed) : s.Winds (s.disposalEnded runtime ok) := by
  have hget : ∀ c r, (s.idleMainDisposalsInFlight.filterEntries
      (fun _ disposing => decide (disposing ≠ runtime))).get c = some r →
      s.idleMainDisposalsInFlight.get c = some r := by
    intro c r h
    rw [OrderedMap.get_filterEntries, Option.filter_eq_some_iff] at h
    exact h.1
  unfold disposalEnded
  split_ifs
  · exact .refl hc
  · exact ⟨⟨hc.blocked, hc.shutting⟩, fun _ _ h => h, fun _ h => h, fun c r h => .inl (hget c r h),
      fun _ _ h => .inl h⟩
  · exact ⟨⟨rfl, hc.shutting⟩, fun _ _ h => h, fun _ h => h, fun c r h => .inl (hget c r h),
      fun _ _ h => .inl h⟩

theorem Winds.step (hs : s.Tidy) (hc : s.Closed) {event : SessionEvent}
    (hevent : event.shuts = false) : s.Winds (s.step event) := by
  have hadmitted := closed_admitted hc
  unfold SessionPool.step
  cases event with
  | getOrCreate i chat =>
    dsimp only
    split
    · rename_i hi
      unfold SessionPool.getOrCreate
      rw [if_pos hc.blocked]
      exact Winds.reject hc (by rw [hi]; rfl) rfl
    · exact .refl hc
  | entered i ok =>
    dsimp only
    split
    · rename_i chat epoch hi
      unfold SessionPool.entered
      rw [if_pos (by rw [hc.shutting, Bool.or_true])]
      exact Winds.reject hc (by rw [hi]; rfl) rfl
    · exact .refl hc
  | disposalAwaited i ok =>
    dsimp only
    split
    · rename_i chat epoch r hi
      unfold SessionPool.disposalAwaited
      rw [hadmitted, Bool.not_false, Bool.or_true, if_pos rfl]
      split_ifs
      · exact .refl hc
      · exact Winds.reject hc (by rw [hi]; rfl) rfl
    · exact .refl hc
  | joined i ok =>
    dsimp only
    split
    · rename_i chat epoch task hi
      have hreject : s.Winds (s.goto i .rejected) := Winds.reject hc (by rw [hi]; rfl) rfl
      unfold SessionPool.joined
      split
      · exact .refl hc
      · exact hreject
      · rw [hadmitted, Bool.not_false, Bool.or_true, if_pos rfl]
        exact hreject
    · exact .refl hc
  | realized i ok =>
    dsimp only
    split
    · rename_i chat epoch r hi
      unfold SessionPool.realized
      rw [hadmitted, Bool.and_false, if_neg Bool.false_ne_true]
      exact Winds.fails hc (by rw [hi]; rfl) (by rw [hi]; rfl) rfl
    · exact .refl hc
  | prepared i ok =>
    dsimp only
    split
    · rename_i chat epoch hi
      unfold SessionPool.prepared
      rw [hadmitted, Bool.and_false, if_neg Bool.false_ne_true]
      refine Winds.ended hc ?_
      intro r h
      rw [hi] at h
      cases h
    · exact .refl hc
  | sessionCreated i ok victims =>
    dsimp only
    split
    · rename_i chat epoch hi
      have hcleans : ∀ r, (s.calls i).cleans = some r → s.Unawaited r := by
        intro r h
        rw [hi] at h
        cases h
      have hshutting : (s.isShuttingDown || !s.admitted epoch) = true := by
        rw [hc.shutting, Bool.true_or]
      unfold SessionPool.sessionCreated
      dsimp only
      rw [if_pos hshutting]
      split_ifs with hok
      · exact Winds.ended hc hcleans
      · have hgoto : s.Winds (s.goto i (.discarding chat s.created.length)) :=
          Winds.goto hc (fun _ => by rw [hi]; rfl) hcleans
        rw [goto_disposeRuntimeOnce]
        obtain ⟨hpool, hcalls, hawaited, _⟩ := @disposeRuntimeOnce_frame
          (SessionPool.goto { s with created := s.created ++ [chat] } i
            (.discarding chat s.created.length)) s.created.length
        refine ⟨?_, ?_, ?_, ?_, ?_⟩
        · unfold disposeRuntimeOnce
          split_ifs <;> exact ⟨hc.blocked, hc.shutting⟩
        · rw [hpool]
          exact hgoto.pool
        · rw [hcalls]
          exact hgoto.underway
        · rw [hcalls, hawaited]
          exact hgoto.awaited
        · rw [hcalls]
          exact hgoto.cleaning
    · exact .refl hc
  | seeded i ok =>
    dsimp only
    split
    · rename_i chat epoch r hi
      unfold SessionPool.seeded
      rw [hadmitted, Bool.and_false, if_neg Bool.false_ne_true]
      exact Winds.fails hc (by rw [hi]; rfl) (by rw [hi]; rfl) rfl
    · exact .refl hc
  | bound i ok =>
    dsimp only
    split
    · rename_i chat epoch r hi
      unfold SessionPool.bound
      rw [hadmitted, Bool.and_false, if_neg Bool.false_ne_true]
      exact Winds.fails hc (by rw [hi]; rfl) (by rw [hi]; rfl) rfl
    · exact .refl hc
  | cleaned i =>
    dsimp only
    unfold SessionPool.cleaned
    split
    · rename_i chat r hi
      split_ifs with hended
      · refine Winds.ended hc ?_
        intro r' h
        rw [hi] at h
        cases h
        exact unawaited_of_ended hs hended
      · exact .refl hc
    · rename_i r hi
      split_ifs with hended
      · have hgoto : s.Winds (s.goto i .rejected) := by
          refine Winds.goto hc (fun h => nomatch h) ?_
          intro r' h
          rw [hi] at h
          cases h
          exact unawaited_of_ended hs hended
        exact ⟨⟨hc.blocked, hc.shutting⟩, hgoto.pool, hgoto.underway, hgoto.awaited, hgoto.cleaning⟩
      · exact .refl hc
    · exact .refl hc
  | returned i ok =>
    dsimp only
    split
    · rename_i chat epoch r hi
      unfold SessionPool.returned
      rw [hadmitted, Bool.and_false, if_neg Bool.false_ne_true]
      exact Winds.reject hc (by rw [hi]; rfl) rfl
    · exact .refl hc
  | recreate i chat =>
    dsimp only
    split
    · rename_i hi
      unfold SessionPool.recreate
      rw [if_pos hc.blocked]
      exact Winds.reject hc (by rw [hi]; rfl) rfl
    · exact .refl hc
  | recreateEntered i =>
    dsimp only
    split
    · rename_i chat epoch hi
      unfold SessionPool.recreateEntered
      rw [hadmitted, if_neg Bool.false_ne_true]
      exact Winds.reject hc (by rw [hi]; rfl) rfl
    · exact .refl hc
  | evictIdle victims =>
    dsimp only
    unfold SessionPool.evictIdle
    rw [if_pos hc.blocked]
    exact .refl hc
  | acquireEvictionProtection i chat =>
    dsimp only
    split
    · rename_i hi
      have hgoto : s.Winds (s.goto i .done) := Winds.reject hc (by rw [hi]; rfl) rfl
      unfold SessionPool.acquire
      split_ifs
      · exact hgoto
      · exact ⟨⟨hc.blocked, hc.shutting⟩, hgoto.pool, hgoto.underway, hgoto.awaited, hgoto.cleaning⟩
    · exact .refl hc
  | releaseEvictionProtection i =>
    dsimp only
    split
    · exact Winds.same ⟨hc.blocked, hc.shutting⟩ same_release
    · exact .refl hc
  | fenceMcpAndSnapshot => exact Winds.same ⟨rfl, hc.shutting⟩ same_block
  | shutdown i => cases hevent
  | shutdownAdmitted i => cases hevent
  | shutdownNext i => cases hevent
  | disposalEnded r ok => exact Winds.disposal hc

end Winding

end SessionPool

namespace SessionPool
variable {s t : SessionPool} {i j : ℕ} {chat : String} {runtime epoch : ℕ} {call : SessionCall}
  {ok : Bool}

section Calls

theorem goto_elsewhere (h : t.calls = s.calls) (hj : j ≠ i) :
    (t.goto i call).calls j = s.calls j := by
  rw [calls_goto, if_neg hj, h]

theorem disposeMain_elsewhere (hj : j ≠ i) :
    ((s.disposeMainRuntimeAfterError chat runtime).goto i call).calls j = s.calls j := by
  apply goto_elsewhere _ hj
  unfold disposeMainRuntimeAfterError
  split_ifs
  · exact startIdleDispose_calls
  · exact disposeRuntimeOnce_frame.2.1

theorem admittedCall_elsewhere (hj : j ≠ i) :
    (s.admittedCall i chat epoch).calls j = s.calls j := by
  unfold admittedCall
  split
  · exact goto_elsewhere rfl hj
  · split
    · exact goto_elsewhere acquire_calls hj
    · exact goto_elsewhere acquire_calls hj

theorem evictAll_frame {victims : List String} : (victims.foldl evict s).calls = s.calls := by
  induction victims generalizing s with
  | nil => rfl
  | cons victim victims ih =>
    rw [List.foldl_cons, ih]
    exact (evict_frame s victim).1

theorem sessionCreated_elsewhere {victims : List String} (hj : j ≠ i) :
    (s.sessionCreated i chat epoch ok victims).calls j = s.calls j := by
  unfold sessionCreated
  split_ifs
  · exact goto_elsewhere rfl hj
  · exact goto_elsewhere disposeRuntimeOnce_frame.2.1 hj
  · exact goto_elsewhere evictAll_frame hj

/-- A call gets under way only by an event that registers it. -/
theorem underway_step {event : SessionEvent} (hevent : event.shuts = false)
    (h : ((s.step event).calls j).underway = true) :
    (s.calls j).underway = true ∨ j ∈ event.registers := by
  unfold SessionPool.step at h
  cases event with
  | getOrCreate i chat =>
    by_cases hj : j = i
    · exact .inr (List.mem_singleton.mpr hj)
    · left
      dsimp only at h
      split at h
      · unfold getOrCreate at h
        split_ifs at h
        · rwa [goto_elsewhere rfl hj] at h
        · rwa [goto_elsewhere rfl hj] at h
      · exact h
  | recreate i chat =>
    by_cases hj : j = i
    · exact .inr (List.mem_singleton.mpr hj)
    · left
      dsimp only at h
      split at h
      · unfold recreate at h
        split_ifs at h
        · rwa [goto_elsewhere rfl hj] at h
        · rwa [goto_elsewhere rfl hj] at h
      · exact h
  | entered i ok =>
    left
    dsimp only at h
    split at h
    · rename_i hi
      by_cases hj : j = i
      · rw [hj, hi]
        rfl
      · unfold SessionPool.entered at h
        split_ifs at h
        · rwa [goto_elsewhere rfl hj] at h
        · split at h
          · rwa [goto_elsewhere rfl hj] at h
          · rwa [admittedCall_elsewhere hj] at h
    · exact h
  | disposalAwaited i ok =>
    left
    dsimp only at h
    split at h
    · rename_i hi
      by_cases hj : j = i
      · rw [hj, hi]
        rfl
      · unfold SessionPool.disposalAwaited at h
        split_ifs at h
        · exact h
        · rwa [goto_elsewhere rfl hj] at h
        · rwa [admittedCall_elsewhere hj] at h
    · exact h
  | joined i ok =>
    left
    dsimp only at h
    split at h
    · rename_i hi
      by_cases hj : j = i
      · rw [hj, hi]
        rfl
      · unfold SessionPool.joined at h
        split at h
        · exact h
        · rwa [goto_elsewhere rfl hj] at h
        · split_ifs at h
          · rwa [goto_elsewhere rfl hj] at h
          · rwa [goto_elsewhere rfl hj] at h
    · exact h
  | realized i ok =>
    left
    dsimp only at h
    split at h
    · rename_i hi
      by_cases hj : j = i
      · rw [hj, hi]
        rfl
      · unfold SessionPool.realized at h
        split_ifs at h
        · rwa [@goto_elsewhere s (s.release i) _ _ _ rfl hj] at h
        · rwa [disposeMain_elsewhere hj] at h
    · exact h
  | prepared i ok =>
    left
    dsimp only at h
    split at h
    · rename_i hi
      by_cases hj : j = i
      · rw [hj, hi]
        rfl
      · unfold SessionPool.prepared at h
        split_ifs at h
        · rwa [goto_elsewhere rfl hj] at h
        · exact (@goto_elsewhere s (s.release i) _ _ .rejected rfl hj) ▸ h
    · exact h
  | sessionCreated i ok victims =>
    left
    dsimp only at h
    split at h
    · rename_i hi
      by_cases hj : j = i
      · rw [hj, hi]
        rfl
      · rwa [sessionCreated_elsewhere hj] at h
    · exact h
  | seeded i ok =>
    left
    dsimp only at h
    split at h
    · rename_i hi
      by_cases hj : j = i
      · rw [hj, hi]
        rfl
      · unfold SessionPool.seeded at h
        split_ifs at h
        · rwa [goto_elsewhere rfl hj] at h
        · rwa [disposeMain_elsewhere hj] at h
    · exact h
  | bound i ok =>
    left
    dsimp only at h
    split at h
    · rename_i chat epoch r hi
      by_cases hj : j = i
      · rw [hj, hi]
        rfl
      · unfold SessionPool.bound at h
        split_ifs at h
        · exact (@goto_elsewhere s (s.release i) _ _ (.returning chat epoch r) rfl hj) ▸ h
        · rwa [disposeMain_elsewhere hj] at h
    · exact h
  | cleaned i =>
    left
    dsimp only at h
    unfold SessionPool.cleaned at h
    split at h
    · rename_i hi
      by_cases hj : j = i
      · rw [hj, hi]
        rfl
      · split_ifs at h
        · exact (@goto_elsewhere s (s.release i) _ _ .rejected rfl hj) ▸ h
        · exact h
    · rename_i hi
      by_cases hj : j = i
      · rw [hj, hi]
        rfl
      · split_ifs at h
        · exact (@goto_elsewhere s (s.release i) _ _ .rejected rfl hj) ▸ h
        · exact h
    · exact h
  | returned i ok =>
    left
    dsimp only at h
    split at h
    · rename_i hi
      by_cases hj : j = i
      · rw [hj, hi]
        rfl
      · unfold SessionPool.returned at h
        split_ifs at h
        · rwa [goto_elsewhere rfl hj] at h
        · rwa [goto_elsewhere rfl hj] at h
    · exact h
  | recreateEntered i =>
    left
    dsimp only at h
    split at h
    · rename_i hi
      by_cases hj : j = i
      · rw [hj, hi]
        rfl
      · unfold SessionPool.recreateEntered at h
        split_ifs at h
        · rw [goto_disposeEntry] at h
          unfold SessionPool.disposeEntry at h
          split at h
          · rwa [goto_elsewhere rfl hj] at h
          · rwa [startIdleDispose_calls, goto_elsewhere rfl hj] at h
        · rwa [goto_elsewhere rfl hj] at h
    · exact h
  | evictIdle victims =>
    left
    dsimp only at h
    unfold SessionPool.evictIdle at h
    split_ifs at h
    · exact h
    · rwa [evictAll_frame] at h
  | acquireEvictionProtection i chat =>
    left
    dsimp only at h
    split at h
    · by_cases hj : j = i
      · rw [hj, calls_goto, if_pos rfl] at h
        cases h
      · rwa [goto_elsewhere acquire_calls hj] at h
    · exact h
  | releaseEvictionProtection i =>
    left
    dsimp only at h
    split at h
    · exact h
    · exact h
  | fenceMcpAndSnapshot => exact .inl h
  | shutdown i => cases hevent
  | shutdownAdmitted i => cases hevent
  | shutdownNext i => cases hevent
  | disposalEnded r ok =>
    left
    dsimp only at h
    unfold SessionPool.disposalEnded at h
    split_ifs at h
    · exact h
    · exact h
    · exact h

end Calls

section Quarantine

theorem Tidy.quarantineMcpRuntime (hs : s.Tidy) : s.Proper (s.quarantineMcpRuntime runtime) := by
  unfold SessionPool.quarantineMcpRuntime
  split_ifs with hknown
  · exact .refl hs
  · have hpool : ∀ c r, (s.pool.filterEntries fun _ pooled => decide (pooled ≠ runtime)).get c =
        some r → s.pool.get c = some r ∧ r ≠ runtime := by
      intro c r h
      rw [OrderedMap.get_filterEntries, Option.filter_eq_some_iff] at h
      exact ⟨h.1, by simpa using h.2⟩
    have htidy : Tidy { s with
        pool := s.pool.filterEntries fun _ pooled => decide (pooled ≠ runtime) } := by
      refine ⟨fun c r h => hs.owned c r (hpool c r h).1, hs.known, hs.made, hs.inFlight, ?_,
        fun c r h => hs.fresh c r (hpool c r h).1, hs.settled, hs.running, hs.awaited⟩
      intro j c hj
      change (s.pool.filterEntries _).get c = none
      rw [OrderedMap.get_filterEntries, hs.absent j c hj, Option.filter_none]
    obtain ⟨hproper, hdisposed, _⟩ := htidy.disposeRuntimeOnce (not_le.mp hknown)
      fun c h => (hpool c runtime h).2 rfl
    refine ⟨hproper.tidy, ?_, hproper.disposed⟩
    intro c r h
    by_cases hr : r = runtime
    · rw [hr]
      exact .inr hdisposed
    · left
      rw [disposeRuntimeOnce_frame.1, OrderedMap.get_filterEntries, h, Option.filter_some,
        if_pos (by simpa using hr)]

theorem quarantineMcpRuntime_calls : (s.quarantineMcpRuntime runtime).calls = s.calls := by
  unfold SessionPool.quarantineMcpRuntime
  split_ifs
  · rfl
  · exact disposeRuntimeOnce_frame.2.1

theorem Winds.quarantineMcpRuntime (hc : s.Closed) : s.Winds (s.quarantineMcpRuntime runtime) := by
  unfold SessionPool.quarantineMcpRuntime
  split_ifs
  · exact .refl hc
  · obtain ⟨hpool, hcalls, hawaited, _⟩ := @disposeRuntimeOnce_frame
      { s with pool := s.pool.filterEntries fun _ pooled => decide (pooled ≠ runtime) } runtime
    refine ⟨?_, ?_, ?_, ?_, ?_⟩
    · unfold disposeRuntimeOnce
      split_ifs <;> exact ⟨hc.blocked, hc.shutting⟩
    · intro c r h
      rw [hpool, OrderedMap.get_filterEntries, Option.filter_eq_some_iff] at h
      exact h.1
    · rw [hcalls]
      exact fun _ h => h
    · rw [hawaited]
      exact fun _ _ h => .inl h
    · rw [hcalls]
      exact fun _ _ h => .inl h

theorem same_resume {drained : Bool} : s.SameSessions (s.resumeMcpAdmissions drained) := by
  unfold resumeMcpAdmissions
  split_ifs <;> exact ⟨rfl, rfl, rfl, rfl, rfl, rfl, rfl, rfl⟩

theorem startIdleDispose_removes (hnone : s.idleMainDisposalsInFlight.get chat = none)
    (hget : s.pool.get chat = some runtime) :
    (s.startIdleDispose chat runtime).pool.get chat = none ∧
      (s.startIdleDispose chat runtime).idleMainDisposalsInFlight.get chat = some runtime := by
  unfold startIdleDispose
  rw [if_neg (by rw [hnone]; exact Bool.false_ne_true), if_pos hget]
  dsimp only
  rw [disposeRuntimeOnce_frame.1, OrderedMap.get_delete, if_pos rfl, OrderedMap.get_set_self]
  exact ⟨rfl, rfl⟩

end Quarantine

end SessionPool

end Piclaw
