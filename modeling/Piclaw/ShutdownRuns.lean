import Piclaw.SessionShutdown

/-!
# A shutdown and its disposals

The first disposal that fails ends the shutdown, and the sessions behind it stay in the pool. In
every run in which no awaited disposal fails while the pool holds another session, the shutdown
settles only when every runtime of the pool has been disposed of.
-/

namespace Piclaw

namespace SessionManager
open SessionPool
variable {m : SessionManager} {e : ManagerEvent} {chat : String} {runtime : ℕ}

/-- No call is under way. -/
def Idle (m : SessionManager) : Prop := ∀ i, (m.sessions.calls i).underway = false

/-- What holds between the awaits of a shutdown. -/
def Ready (m : SessionManager) : Prop :=
  match m.phase with
  | .running => ∀ i, (m.sessions.calls i).underway = true → i ∈ m.mcpLifecycleWork
  | .draining calls disposals =>
    m.sessions.Closed ∧ (∀ i, (m.sessions.calls i).underway = true → i ∈ calls) ∧
      ∀ chat runtime, m.sessions.idleMainDisposalsInFlight.get chat = some runtime →
        (chat, runtime) ∈ disposals ∨ ∃ i, (m.sessions.calls i).cleans = some runtime
  | .continuing chats =>
    m.sessions.Closed ∧ m.Idle ∧ (∀ chat, m.sessions.idleMainDisposalsInFlight.get chat = none) ∧
      ∀ chat runtime, m.sessions.pool.get chat = some runtime → chat ∈ chats
  | .disposing runtime chats =>
    m.sessions.Closed ∧ m.Idle ∧
      (∀ chat disposing, m.sessions.idleMainDisposalsInFlight.get chat = some disposing →
        disposing = runtime) ∧
      ∀ chat runtime, m.sessions.pool.get chat = some runtime → chat ∈ chats
  | .resolved | .rejected =>
    m.sessions.Closed ∧ m.Idle ∧ ∀ chat, m.sessions.pool.get chat = none

structure Sound (m : SessionManager) : Prop where
  tidy : m.sessions.Tidy
  ready : m.Ready

/-- A disposal that the shutdown awaits fails only when no other session is left in the pool. -/
def FailsLast (m : SessionManager) (e : ManagerEvent) : Prop :=
  ∀ runtime chats, m.phase = .disposing runtime chats → e = .session (.disposalEnded runtime false) →
    ∀ chat, m.sessions.pool.get chat = none

section Phases

theorem cleans_underway {call : SessionCall} (h : call.cleans = some runtime) :
    call.underway = true := by
  cases call with
  | discarding | cleaningExisting => rfl
  | _ => cases h

/-- With nothing under way no idle disposal begins. -/
theorem awaited_of_idle {s t : SessionPool} (h : s.Winds t)
    (hidle : ∀ i, (s.calls i).underway = false)
    (hget : t.idleMainDisposalsInFlight.get chat = some runtime) :
    s.idleMainDisposalsInFlight.get chat = some runtime := by
  rcases h.awaited chat runtime hget with h' | ⟨i, hi⟩
  · exact h'
  · have hunderway := h.underway i (cleans_underway hi)
    rw [hidle i] at hunderway
    cases hunderway

theorem idle_of_winds {s t : SessionPool} (h : s.Winds t)
    (hidle : ∀ i, (s.calls i).underway = false) (i : ℕ) : (t.calls i).underway = false := by
  cases hi : (t.calls i).underway with
  | false => rfl
  | true =>
    have hunderway := h.underway i hi
    rw [hidle i] at hunderway
    cases hunderway

/-- An event that the shutdown does not wait for leaves the phase as it is, and what holds in it. -/
theorem ready_of_winds {t : SessionPool} {work : List ℕ} (hrunning : m.phase ≠ .running)
    (hready : m.Ready) (h : m.sessions.Winds t) :
    Ready { sessions := t, mcpLifecycleWork := work, phase := m.phase } := by
  unfold Ready at hready ⊢
  cases hphase : m.phase with
  | running => exact absurd hphase hrunning
  | draining calls disposals =>
    rw [hphase] at hready
    obtain ⟨_, hcalls, hawaited⟩ := hready
    refine ⟨h.closed, fun i hi => hcalls i (h.underway i hi), ?_⟩
    intro c r hget
    rcases h.awaited c r hget with hold | hcleans
    · rcases hawaited c r hold with hmem | ⟨i, hi⟩
      · exact .inl hmem
      · rcases h.cleaning i r hi with hi | hnot
        · exact .inr ⟨i, hi⟩
        · exact absurd hold (hnot c)
    · exact .inr hcleans
  | continuing chats =>
    rw [hphase] at hready
    obtain ⟨_, hidle, hnone, hpool⟩ := hready
    refine ⟨h.closed, idle_of_winds h hidle, ?_, fun c r hget => hpool c r (h.pool c r hget)⟩
    intro c
    cases hget : t.idleMainDisposalsInFlight.get c with
    | none => rfl
    | some r =>
      have hold := awaited_of_idle h hidle hget
      rw [hnone c] at hold
      cases hold
  | disposing r chats =>
    rw [hphase] at hready
    obtain ⟨_, hidle, hmine, hpool⟩ := hready
    exact ⟨h.closed, idle_of_winds h hidle, fun c r' hget => hmine c r' (awaited_of_idle h hidle hget),
      fun c r' hget => hpool c r' (h.pool c r' hget)⟩
  | resolved =>
    rw [hphase] at hready
    obtain ⟨_, hidle, hnone⟩ := hready
    refine ⟨h.closed, idle_of_winds h hidle, ?_⟩
    intro c
    cases hget : t.pool.get c with
    | none => rfl
    | some r =>
      have hold := h.pool c r hget
      rw [hnone c] at hold
      cases hold
  | rejected =>
    rw [hphase] at hready
    obtain ⟨_, hidle, hnone⟩ := hready
    refine ⟨h.closed, idle_of_winds h hidle, ?_⟩
    intro c
    cases hget : t.pool.get c with
    | none => rfl
    | some r =>
      have hold := h.pool c r hget
      rw [hnone c] at hold
      cases hold

theorem closed_of_ready (hready : m.Ready) (hrunning : m.phase ≠ .running) : m.sessions.Closed := by
  unfold Ready at hready
  cases hphase : m.phase with
  | running => exact absurd hphase hrunning
  | _ =>
    rw [hphase] at hready
    exact hready.1

end Phases

section Steps

theorem Sound.session {event : SessionEvent} (hm : m.Sound)
    (h : m.FailsLast (.session event)) :
    (m.session event).Sound ∧ m.sessions.Proper (m.session event).sessions := by
  unfold SessionManager.session
  split_ifs with hevent
  · exact ⟨hm, .refl hm.tidy⟩
  · have hevent : event.shuts = false := by simpa using hevent
    have hproper := hm.tidy.step hevent
    refine ⟨⟨hproper.tidy, ?_⟩, hproper⟩
    have hready := hm.ready
    by_cases hrunning : m.phase = .running
    · have hphase : m.observe event = .running := by
        unfold observe
        rw [hrunning]
      unfold Ready at hready ⊢
      rw [hrunning] at hready
      dsimp only
      rw [hphase]
      intro i hi
      rcases underway_step hevent hi with hi | hi
      · exact List.mem_append_right _ (hready i hi)
      · exact List.mem_append_left _ hi
    · have hclosed := closed_of_ready hready hrunning
      have hwinds := Winds.step hm.tidy hclosed hevent
      have hsame : m.observe event = m.phase →
          Ready ⟨m.sessions.step event, event.registers ++ m.mcpLifecycleWork, m.observe event⟩ := by
        intro hphase
        rw [hphase]
        exact ready_of_winds hrunning hready hwinds
      -- only the end of the disposal that the shutdown awaits changes the phase
      by_cases hphase : m.observe event = m.phase
      · exact hsame hphase
      · cases hdisposing : m.phase with
        | disposing r chats =>
          unfold Ready at hready
          rw [hdisposing] at hready
          obtain ⟨_, hidle, hmine, hpool⟩ := hready
          cases event with
          | disposalEnded ended ok =>
            have hobserve : m.observe (.disposalEnded ended ok) =
                if ended = r ∧ m.sessions.runtimeDisposeInFlight.contains ended = true then
                  if ok then .continuing chats else .rejected
                else .disposing r chats := by
              unfold observe
              rw [hdisposing]
            rw [hobserve] at hphase ⊢
            split_ifs at hphase ⊢ with hcond hok
            · obtain ⟨rfl, hflight⟩ := hcond
              refine ⟨hwinds.closed, idle_of_winds hwinds hidle, ?_,
                fun c r hget => hpool c r (hwinds.pool c r hget)⟩
              intro c
              have hfilter : (m.sessions.step (.disposalEnded ended ok)).idleMainDisposalsInFlight =
                  m.sessions.idleMainDisposalsInFlight.filterEntries
                    (fun _ disposing => decide (disposing ≠ ended)) := by
                change (m.sessions.disposalEnded ended ok).idleMainDisposalsInFlight = _
                unfold disposalEnded
                rw [hflight, hok, if_neg (by simp), if_pos rfl]
              change (m.sessions.step _).idleMainDisposalsInFlight.get c = none
              rw [hfilter, OrderedMap.get_filterEntries]
              cases hget : m.sessions.idleMainDisposalsInFlight.get c with
              | none => rfl
              | some r' =>
                rw [hmine c r' hget, Option.filter_some, if_neg (by simp)]
            · obtain ⟨rfl, _⟩ := hcond
              have hfails : ok = false := by simpa using hok
              have hnone := h ended chats hdisposing (by rw [hfails])
              refine ⟨hwinds.closed, idle_of_winds hwinds hidle, ?_⟩
              intro c
              cases hget : (m.sessions.step (.disposalEnded ended ok)).pool.get c with
              | none => rfl
              | some r' =>
                have hold := hwinds.pool c r' hget
                rw [hnone c] at hold
                cases hold
            · exact absurd hdisposing.symm hphase
          | _ =>
            refine absurd ?_ hphase
            unfold observe
            rw [hdisposing]
        | _ =>
          refine absurd ?_ hphase
          unfold observe
          rw [hdisposing]

theorem Sound.shutdown (hm : m.Sound) :
    m.shutdown.Sound ∧ m.sessions.Proper m.shutdown.sessions := by
  unfold SessionManager.shutdown
  cases hphase : m.phase with
  | running =>
    have hproper : m.sessions.Proper
        { m.sessions.blockMcpAdmissions with isShuttingDown := true } :=
      hm.tidy.same ⟨rfl, rfl, rfl, rfl, rfl, rfl, rfl, rfl⟩
    refine ⟨⟨hproper.tidy, ⟨rfl, rfl⟩, ?_, ?_⟩, hproper⟩
    · intro i hi
      have hready := hm.ready
      unfold Ready at hready
      rw [hphase] at hready
      exact List.mem_filter.mpr ⟨hready i hi, hi⟩
    · intro c r hget
      exact .inl (OrderedMap.mem_of_get hget)
  | _ => exact ⟨hm, .refl hm.tidy⟩

theorem Sound.shutdownAdmitted (hm : m.Sound) :
    m.shutdownAdmitted.Sound ∧ m.sessions.Proper m.shutdownAdmitted.sessions := by
  unfold SessionManager.shutdownAdmitted
  cases hphase : m.phase with
  | draining calls disposals =>
    dsimp only
    split_ifs with hdrained
    · have hready := hm.ready
      unfold Ready at hready
      rw [hphase] at hready
      obtain ⟨hclosed, hcalls, hawaited⟩ := hready
      unfold drained at hdrained
      rw [Bool.and_eq_true, List.all_eq_true, List.all_eq_true] at hdrained
      have hproper : m.sessions.Proper { m.sessions with evictionProtections := [] } :=
        hm.tidy.same ⟨rfl, rfl, rfl, rfl, rfl, rfl, rfl, rfl⟩
      have hidle : ∀ i, (m.sessions.calls i).underway = false := by
        intro i
        cases hi : (m.sessions.calls i).underway with
        | false => rfl
        | true =>
          have hover := hdrained.1 i (hcalls i hi)
          rw [hi] at hover
          cases hover
      refine ⟨⟨hproper.tidy, ⟨hclosed.blocked, hclosed.shutting⟩, hidle, ?_, ?_⟩, hproper⟩
      · intro c
        cases hget : m.sessions.idleMainDisposalsInFlight.get c with
        | none => rfl
        | some r =>
          rcases hawaited c r hget with hmem | ⟨i, hi⟩
          · have hended := hdrained.2 (c, r) hmem
            simp only [decide_eq_true_eq] at hended
            exact absurd hget hended
          · have hunderway := cleans_underway hi
            rw [hidle i] at hunderway
            cases hunderway
      · intro c r hget
        exact List.mem_map_of_mem (OrderedMap.mem_of_get hget)
    · exact ⟨hm, .refl hm.tidy⟩
  | _ => exact ⟨hm, .refl hm.tidy⟩

theorem Sound.shutdownNext (hm : m.Sound) :
    m.shutdownNext.Sound ∧ m.sessions.Proper m.shutdownNext.sessions := by
  cases hphase : m.phase with
  | continuing chats =>
    have hready := hm.ready
    unfold Ready at hready
    rw [hphase] at hready
    obtain ⟨hclosed, hidle, hnone, hpool⟩ := hready
    cases chats with
    | nil =>
      have hnext : m.shutdownNext =
          ⟨{ m.sessions with pool := .empty }, m.mcpLifecycleWork, .resolved⟩ := by
        unfold SessionManager.shutdownNext
        rw [hphase]
      have htidy : Tidy { m.sessions with pool := .empty } :=
        ⟨fun _ _ h => (nomatch h), hm.tidy.known, hm.tidy.made, hm.tidy.inFlight, fun _ _ _ => rfl,
          fun _ _ h => (nomatch h), hm.tidy.settled, hm.tidy.running, hm.tidy.awaited⟩
      rw [hnext]
      refine ⟨⟨htidy, ⟨hclosed.blocked, hclosed.shutting⟩, hidle, fun _ => rfl⟩, htidy, ?_,
        fun _ h => h⟩
      intro c r hget
      exact nomatch hpool c r hget
    | cons chat chats =>
      cases hget : m.sessions.pool.get chat with
      | none =>
        have hnext : m.shutdownNext = ⟨m.sessions, m.mcpLifecycleWork, .continuing chats⟩ := by
          unfold SessionManager.shutdownNext
          rw [hphase]
          dsimp only
          rw [hget]
        rw [hnext]
        refine ⟨⟨hm.tidy, hclosed, hidle, hnone, ?_⟩, .refl hm.tidy⟩
        intro c r hc
        rcases List.mem_cons.mp (hpool c r hc) with rfl | hmem
        · change m.sessions.pool.get c = some r at hc
          rw [hget] at hc
          cases hc
        · exact hmem
      | some r =>
        have hproper := hm.tidy.startIdleDispose hget
        obtain ⟨hremoved, hawaits⟩ := startIdleDispose_removes (hnone chat) hget
        have hentry : m.sessions.disposeEntry chat = m.sessions.startIdleDispose chat r := by
          unfold disposeEntry
          rw [hget]
        have hnext : m.shutdownNext =
            ⟨m.sessions.startIdleDispose chat r, m.mcpLifecycleWork, .disposing r chats⟩ := by
          unfold SessionManager.shutdownNext
          rw [hphase]
          dsimp only
          rw [hget, hentry, hawaits]
        rw [hnext]
        refine ⟨⟨hproper.tidy, startIdleDispose_closed hclosed, ?_, ?_, ?_⟩, hproper⟩
        · intro i
          change ((m.sessions.startIdleDispose chat r).calls i).underway = false
          rw [startIdleDispose_calls]
          exact hidle i
        · intro c disposing hc
          rcases startIdleDispose_awaited hc with hold | ⟨_, h⟩
          · rw [hnone c] at hold
            cases hold
          · exact h
        · intro c r' hc
          rcases List.mem_cons.mp (hpool c r' (startIdleDispose_pool hc)) with rfl | hmem
          · change (m.sessions.startIdleDispose c r).pool.get c = some r' at hc
            rw [hremoved] at hc
            cases hc
          · exact hmem
  | _ =>
    have hnext : m.shutdownNext = m := by
      unfold SessionManager.shutdownNext
      rw [hphase]
    rw [hnext]
    exact ⟨hm, .refl hm.tidy⟩

theorem sound_step (hm : m.Sound) (h : m.FailsLast e) :
    (m.step e).Sound ∧ m.sessions.Proper (m.step e).sessions := by
  cases e with
  | session event => exact hm.session h
  | quarantineMcpRuntime r =>
    have hproper := @Tidy.quarantineMcpRuntime _ r hm.tidy
    refine ⟨⟨hproper.tidy, ?_⟩, hproper⟩
    by_cases hrunning : m.phase = .running
    · have hready := hm.ready
      unfold Ready at hready ⊢
      dsimp only [SessionManager.step]
      rw [hrunning] at hready ⊢
      dsimp only
      rw [quarantineMcpRuntime_calls]
      exact hready
    · exact ready_of_winds hrunning hm.ready
        (Winds.quarantineMcpRuntime (closed_of_ready hm.ready hrunning))
  | resumeMcpAdmissions drained =>
    have hsame := @same_resume m.sessions drained
    have hproper := hm.tidy.same hsame
    refine ⟨⟨hproper.tidy, ?_⟩, hproper⟩
    by_cases hrunning : m.phase = .running
    · have hready := hm.ready
      unfold Ready at hready ⊢
      dsimp only [SessionManager.step]
      rw [hrunning] at hready ⊢
      dsimp only
      rw [hsame.calls]
      exact hready
    · have hclosed := closed_of_ready hm.ready hrunning
      have hstays : m.sessions.resumeMcpAdmissions drained = m.sessions := by
        unfold resumeMcpAdmissions
        rw [hclosed.shutting, Bool.true_or, Bool.true_or, if_pos rfl]
      dsimp only [SessionManager.step]
      rw [hstays]
      exact hm.ready
  | shutdown => exact hm.shutdown
  | shutdownAdmitted => exact hm.shutdownAdmitted
  | shutdownNext => exact hm.shutdownNext

theorem sound_initial : SessionManager.initial.Sound where
  tidy := by
    refine ⟨?_, ?_, ?_, ?_, ?_, ?_, ?_, ?_, ?_⟩
    · exact fun _ _ h => nomatch h
    · exact fun _ h => nomatch h
    · exact fun _ _ _ h => nomatch h
    · exact fun _ _ => ⟨fun h => (nomatch h), fun h => (nomatch h)⟩
    · exact fun _ _ _ => rfl
    · exact fun _ _ h => nomatch h
    · exact fun _ h => nomatch h
    · exact fun _ h => nomatch h
    · exact fun _ _ h => nomatch h
  ready := fun _ h => nomatch h

/-- From a sound state on no runtime of the pool is lost. -/
theorem run_sound {events : List ManagerEvent} (hm : m.Sound)
    (h : Relational.Along SessionManager.step FailsLast m events) :
    (Relational.run SessionManager.step m events).Sound ∧
      m.sessions.Proper (Relational.run SessionManager.step m events).sessions := by
  induction events generalizing m with
  | nil => exact ⟨hm, .refl hm.tidy⟩
  | cons e events ih =>
    obtain ⟨hfirst, hproper⟩ := sound_step hm h.1
    obtain ⟨hlast, hrest⟩ := ih hfirst h.2
    exact ⟨hlast, hproper.trans hrest⟩

end Steps

section Settling

def settled (m : SessionManager) : Prop := m.phase = .resolved ∨ m.phase = .rejected

/-- The runtimes that are or were in the pool before the shutdown began have been disposed of. -/
def DisposesAll (events : List ManagerEvent) : Prop :=
  ∀ before after, events = before ++ after →
    (Relational.run SessionManager.step .initial before).phase = .running →
      (Relational.run SessionManager.step .initial events).settled →
        ∀ chat runtime,
          (Relational.run SessionManager.step .initial before).sessions.pool.get chat =
            some runtime →
          runtime ∈ (Relational.run SessionManager.step .initial events).sessions.disposed

/-- A shutdown has disposed of every session when it settles, where no disposal that it awaits fails
with another session left in the pool. -/
theorem shutdown_disposes (events : List ManagerEvent)
    (h : Relational.Along SessionManager.step FailsLast .initial events) : DisposesAll events := by
  rintro before after rfl _ hsettled chat runtime hpool
  obtain ⟨hfirst, hrest⟩ := Relational.along_append.mp h
  obtain ⟨hsound, _⟩ := run_sound sound_initial hfirst
  obtain ⟨hlast, hproper⟩ := run_sound hsound hrest
  rw [Relational.run_append] at hsettled ⊢
  rcases hproper.kept chat runtime hpool with hget | hdisposed
  · have hready := hlast.ready
    unfold Ready at hready
    have hnone : (Relational.run SessionManager.step (Relational.run SessionManager.step .initial
        before) after).sessions.pool.get chat = none := by
      rcases hsettled with hphase | hphase
      · rw [hphase] at hready
        exact hready.2.2 chat
      · rw [hphase] at hready
        exact hready.2.2 chat
    rw [hnone] at hget
    cases hget
  · exact hdisposed

/-- A chat gets its session. -/
def openSession (i : ℕ) (chat : String) : List ManagerEvent :=
  [.getOrCreate i chat, .entered i true, .prepared i true, .sessionCreated i true [],
    .seeded i true, .bound i true, .returned i true].map .session

def shutDown (ok : Bool) : List ManagerEvent :=
  [.shutdown, .shutdownAdmitted, .shutdownNext, .session (.disposalEnded 0 ok)]

theorem shutdown_disposes_single : DisposesAll (openSession 0 "web" ++ shutDown false) := by
  refine shutdown_disposes _ (Relational.along_append.mpr ⟨?_, ?_⟩)
  · refine ⟨?_, ?_, ?_, ?_, ?_, ?_, ?_, trivial⟩ <;> exact fun _ _ _ h => nomatch h
  · refine ⟨fun _ _ _ h => (nomatch h), fun _ _ _ h => (nomatch h), fun _ _ _ h => (nomatch h), ?_,
      trivial⟩
    intro runtime chats _ _ chat
    have hempty : (Relational.run SessionManager.step .initial
        (openSession 0 "web" ++ [.shutdown, .shutdownAdmitted, .shutdownNext])).sessions.pool =
        .empty := by
      apply OrderedMap.ext
      decide +kernel
    exact congrArg (fun pool => OrderedMap.get pool chat) hempty

theorem session_left_behind : ¬ ∀ events, DisposesAll events := by
  intro h
  have hlost := h ((openSession 0 "web" ++ openSession 1 "mail") ++ shutDown false)
    (openSession 0 "web" ++ openSession 1 "mail") (shutDown false) rfl (by decide +kernel)
    (.inr (by decide +kernel)) "mail" 1 (by decide +kernel)
  exact absurd hlost (by decide +kernel)

end Settling

end SessionManager
end Piclaw
