import Piclaw.AgentQueueTurns

/-!
# Shutting down and sealing the agent queue

While the queue shuts down nothing new starts, so a join that has seen the running tasks come back
and finds no pending and no retained item certifies an empty queue. A sealed queue takes nothing
new, so once its drain is certified it stays empty.
-/

namespace Piclaw

namespace AgentQueue

variable {q q' : AgentQueue} {i : ℕ} {item : QueueItem} {k : String}

def liveAll (q : AgentQueue) : ℕ := q.live fun _ => true

theorem Placed.liveAll_eq_zero_iff {hand : Option QueueItem} (h : q.Placed hand) :
    q.liveAll = 0 ↔ (∀ i, (q.objects i).items = []) ∧ q.waiting = [] := by
  unfold liveAll
  rw [live_eq_zero_iff fun i => h.fresh_of_le]
  constructor
  · rintro ⟨hlanes, hwaiting⟩
    refine ⟨fun i => ?_, ?_⟩ <;>
    · apply List.eq_nil_iff_forall_not_mem.mpr
      intro x hx
      first
        | exact Bool.noConfusion (hlanes i x hx)
        | exact Bool.noConfusion (hwaiting x hx)
  · rintro ⟨hlanes, hwaiting⟩
    refine ⟨fun i x hx => ?_, fun x hx => ?_⟩
    · rw [hlanes i] at hx
      cases hx
    · rw [hwaiting] at hx
      cases hx

/-- A queue in which no lane runs, none has a pending item and no retry is retained. -/
theorem Placed.liveAll_of_quiet (h : q.Placed none)
    (hruns : ∀ i, (q.objects i).runningPromise = none)
    (hpending : (q.mapped.any fun lane => !lane.pending.isEmpty) = false)
    (htimers : q.retryTimers = []) : q.liveAll = 0 := by
  rw [h.liveAll_eq_zero_iff]
  refine ⟨fun i => ?_, ?_⟩
  · have hcurrent : (q.objects i).current = none := by
      rcases h.shaped i with ⟨_, _, hsome⟩ | ⟨_, hnone, _⟩
      · rw [hruns i] at hsome
        cases hsome
      · exact hnone
    by_contra hitems
    obtain ⟨x, hx⟩ := List.exists_mem_of_ne_nil _ hitems
    obtain ⟨k, hk⟩ := h.exists_laneOf hx
    have hempty := List.any_eq_false.mp hpending _ (mem_mapped hk)
    rw [Bool.not_eq_true, Bool.not_eq_false', List.isEmpty_iff] at hempty
    unfold LaneState.items at hx
    rw [hcurrent, hempty] at hx
    cases hx
  · unfold waiting
    rw [htimers]
    rfl

theorem Placed.liveAll_of_isDrained (h : q.Placed none) (hdrained : q.isDrained = true) :
    q.liveAll = 0 := by
  unfold isDrained at hdrained
  rw [Bool.and_eq_true, Bool.and_eq_true, List.isEmpty_iff, List.isEmpty_iff] at hdrained
  obtain ⟨⟨_, htimers⟩, hidle⟩ := hdrained
  have hfresh : ∀ i, q.objects i = .fresh := by
    intro i
    by_cases hmapped : ∃ k, q.laneOf k = some i
    · obtain ⟨k, hk⟩ := hmapped
      exact (LaneState.idle_iff _).mp (List.all_eq_true.mp hidle _ (mem_mapped hk))
    · push Not at hmapped
      exact h.unmapped i hmapped
  apply h.liveAll_of_quiet _ _ htimers
  · intro i
    rw [hfresh]
    rfl
  · rw [List.any_eq_false]
    intro lane hlane
    obtain ⟨e, _, rfl⟩ := List.mem_map.mp hlane
    rw [hfresh]
    exact Bool.false_ne_true

theorem checkMigrationDrain_frame (q : AgentQueue) :
    q.checkMigrationDrain.retryTimers = q.retryTimers ∧
      q.checkMigrationDrain.shutdownPromise = q.shutdownPromise ∧
      q.checkMigrationDrain.shuttingDown = q.shuttingDown ∧
      (q.migration.isSome → q.checkMigrationDrain.migration.isSome) := by
  unfold checkMigrationDrain
  cases hm : q.migration with
  | none => exact ⟨rfl, rfl, rfl, fun h => by cases h⟩
  | some m =>
    dsimp only
    split_ifs
    · exact ⟨rfl, rfl, rfl, fun _ => by rw [hm]; rfl⟩
    · exact ⟨rfl, rfl, rfl, fun _ => rfl⟩
    · exact ⟨rfl, rfl, rfl, fun _ => rfl⟩

/-- What only `shutdown` and its join change. -/
structure SameShutdown (q q' : AgentQueue) : Prop where
  down : q'.shuttingDown = q.shuttingDown
  promise : q'.shutdownPromise = q.shutdownPromise
  migration : q.migration.isSome → q'.migration.isSome

theorem SameShutdown.trans {q₁ q₂ q₃ : AgentQueue} (h₁ : q₁.SameShutdown q₂)
    (h₂ : q₂.SameShutdown q₃) : q₁.SameShutdown q₃ :=
  ⟨h₂.down.trans h₁.down, h₂.promise.trans h₁.promise, fun h => h₂.migration (h₁.migration h)⟩

theorem sameShutdown_checkMigrationDrain (q : AgentQueue) :
    q.SameShutdown q.checkMigrationDrain := by
  obtain ⟨_, hpromise, hdown, hmigration⟩ := checkMigrationDrain_frame q
  exact ⟨hdown, hpromise, hmigration⟩

theorem sameShutdown_getLane (q : AgentQueue) (k : String) : q.SameShutdown (q.getLane k).1 := by
  unfold getLane
  cases q.laneOf k <;> exact ⟨rfl, rfl, id⟩

theorem sameShutdown_admitItem (i : ℕ) (item : QueueItem) (q : AgentQueue) :
    q.SameShutdown (q.admitItem i item) := by
  unfold admitItem
  split_ifs <;> exact ⟨rfl, rfl, id⟩

theorem sameShutdown_enqueue (admits : Bool) (id laneKey : Option String) (q : AgentQueue) :
    q.SameShutdown (q.enqueue admits id laneKey) := by
  unfold enqueue
  split_ifs
  · exact ⟨rfl, rfl, fun h => h⟩
  · exact ⟨rfl, rfl, fun h => h⟩
  · have hlane := sameShutdown_getLane q (resolveLaneKey laneKey)
    refine hlane.trans (SameShutdown.trans ?_ (sameShutdown_admitItem _ _ _))
    exact ⟨rfl, rfl, fun h => h⟩

theorem sameShutdown_fireRetry (timer : ℕ) (q : AgentQueue) :
    q.SameShutdown (q.fireRetry timer) := by
  unfold fireRetry
  cases q.retryTimers.find? fun t => decide (t.timer = timer) && t.armed with
  | none => exact ⟨rfl, rfl, id⟩
  | some t =>
    dsimp only
    split_ifs
    · exact ⟨rfl, rfl, id⟩
    · refine SameShutdown.trans ?_ (sameShutdown_admitItem _ _ _)
      refine SameShutdown.trans ?_ (sameShutdown_getLane _ _)
      exact ⟨rfl, rfl, id⟩

theorem sameShutdown_noteOutcome (success : Bool) (item : QueueItem) (q : AgentQueue) :
    q.SameShutdown (q.noteOutcome success item) := by
  have hmap : q.migration.isSome →
      (q.migration.map fun m => { m with failed := true }).isSome := by
    rw [Option.isSome_map]
    exact id
  unfold noteOutcome scheduleRetry
  split_ifs
  · exact ⟨rfl, rfl, id⟩
  · exact ⟨rfl, rfl, hmap⟩
  · exact ⟨rfl, rfl, hmap⟩

theorem sameShutdown_advanceLane (i : ℕ) (item : QueueItem) (q : AgentQueue) :
    q.SameShutdown (q.advanceLane i item) := by
  have hremoved : q.SameShutdown (q.removeLaneIfIdle item.laneKey) := by
    unfold removeLaneIfIdle
    cases q.laneOf item.laneKey with
    | none => exact ⟨rfl, rfl, id⟩
    | some j =>
      dsimp only
      split_ifs <;> exact ⟨rfl, rfl, id⟩
  unfold advanceLane
  split
  · exact ⟨rfl, rfl, id⟩
  · exact hremoved

theorem sameShutdown_executeItem (run : ℕ) (success : Bool) (q : AgentQueue) :
    q.SameShutdown (q.executeItem run success) := by
  rw [executeItem_eq]
  cases q.findTask run .executing with
  | none => exact ⟨rfl, rfl, id⟩
  | some task =>
    refine SameShutdown.trans ?_ (sameShutdown_advanceLane _ _ _)
    refine SameShutdown.trans ?_ (sameShutdown_noteOutcome _ _ _)
    exact ⟨rfl, rfl, id⟩

theorem sameShutdown_resolveRun (run : ℕ) (q : AgentQueue) :
    q.SameShutdown (q.resolveRun run) := by
  unfold resolveRun
  cases q.findTask run .settled with
  | none => exact ⟨rfl, rfl, id⟩
  | some task =>
    refine SameShutdown.trans ?_ (sameShutdown_checkMigrationDrain _)
    exact ⟨rfl, rfl, id⟩

theorem sameShutdown_sealAndDrain (q : AgentQueue) : q.SameShutdown q.sealAndDrain := by
  unfold sealAndDrain
  cases hm : q.migration with
  | some m => exact ⟨rfl, rfl, id⟩
  | none =>
    dsimp only
    split_ifs
    · exact ⟨rfl, rfl, fun _ => rfl⟩
    · refine SameShutdown.trans ?_ (sameShutdown_checkMigrationDrain _)
      exact ⟨rfl, rfl, fun _ => rfl⟩

def Shuts (turn : QueueTurn) : Prop :=
  turn = .shutdown ∨ turn = .shutdownJoined ∨ turn = .shutdownTimeout

theorem sameShutdown_step {turn : QueueTurn} (hturn : ¬ Shuts turn) (q : AgentQueue) :
    q.SameShutdown (queueStep q turn) := by
  cases turn with
  | enqueue admits id laneKey => exact sameShutdown_enqueue admits id laneKey q
  | startTask run =>
    change q.SameShutdown (q.startTask run)
    unfold startTask
    cases q.findTask run .starting <;> exact ⟨rfl, rfl, id⟩
  | finishTask run success => exact sameShutdown_executeItem run success q
  | resolveRun run => exact sameShutdown_resolveRun run q
  | fireRetry timer => exact sameShutdown_fireRetry timer q
  | sealAndDrain => exact sameShutdown_sealAndDrain q
  | release =>
    refine ⟨rfl, rfl, fun h => ?_⟩
    change (q.migration.map _).isSome
    rwa [Option.isSome_map]
  | shutdown => exact absurd (.inl rfl) hturn
  | shutdownJoined => exact absurd (.inr (.inl rfl)) hturn
  | shutdownTimeout => exact absurd (.inr (.inr rfl)) hturn

/-! ## A queue that shuts down only finishes what it runs -/

structure Winding (q q' : AgentQueue) : Prop where
  timers : q'.retryTimers = q.retryTimers
  runs : ∀ i r, (q'.objects i).runningPromise = some r → (q.objects i).runningPromise = some r
  live : q'.liveAll ≤ q.liveAll

theorem Winding.refl (q : AgentQueue) : q.Winding q := ⟨rfl, fun _ _ hr => hr, le_rfl⟩

theorem Winding.sameWork (same : q.SameWork q') (htimers : q'.retryTimers = q.retryTimers) :
    q.Winding q' := by
  refine ⟨htimers, fun i r hr => ?_, ?_⟩
  · rwa [same.objects] at hr
  · exact le_of_eq (same.live _)

theorem retryTimers_sealAndDrain (q : AgentQueue) :
    q.sealAndDrain.retryTimers = q.retryTimers := by
  unfold sealAndDrain
  cases q.migration with
  | some m => rfl
  | none =>
    dsimp only
    split_ifs
    · rfl
    · rw [(checkMigrationDrain_frame _).1]

theorem Core.winding_executeItem (h : q.Core) (hdown : q.shuttingDown = true) (run : ℕ)
    (success : Bool) : q.Winding (q.executeItem run success) := by
  rw [executeItem_eq]
  cases hfind : q.findTask run .executing with
  | none => exact .refl q
  | some task =>
    obtain ⟨hmem, rfl, hstage⟩ := findTask_eq_some hfind
    have hunsettled : task.stage ≠ .settled := by
      rw [hstage]
      intro heq
      cases heq
    have hi := h.laneOf_task hmem hunsettled
    dsimp only
    generalize hq₁ : (q.setStage task.promise .settled).vacate task.lane = q₁
    obtain ⟨hlanes, hobjects, hdown₁, _⟩ := noteOutcome_frame success task.item q₁
    have htimers : (q₁.noteOutcome success task.item).retryTimers = q.retryTimers := by
      have hsame : q₁.retryTimers = q.retryTimers := by rw [← hq₁]; rfl
      have hshut : (q₁.noteFailure task.item).shuttingDown = true := by rw [← hq₁]; exact hdown
      have hstop : shouldRetry task.item.retries defaultMaxRetries true = false := rfl
      unfold noteOutcome scheduleRetry
      rw [hshut, if_pos hstop, ← hsame]
      split_ifs <;> rfl
    have hallocated : (q₁.noteOutcome success task.item).allocated = q.allocated := by
      rw [← hq₁]
      unfold noteOutcome scheduleRetry
      split_ifs <;> rfl
    have hadvance : (q₁.noteOutcome success task.item).advanceLane task.lane task.item =
        (q₁.noteOutcome success task.item).removeLaneIfIdle task.item.laneKey := by
      have hshut : (q₁.noteOutcome success task.item).shuttingDown = true := by
        rw [hdown₁, ← hq₁]
        exact hdown
      unfold AgentQueue.advanceLane
      rw [hshut]
      split
      · rename_i heq
        cases heq
      · rfl
    have hremoved : ∀ q₂ : AgentQueue,
        (q₂.removeLaneIfIdle task.item.laneKey).retryTimers = q₂.retryTimers ∧
        (q₂.removeLaneIfIdle task.item.laneKey).objects = q₂.objects ∧
        (q₂.removeLaneIfIdle task.item.laneKey).allocated = q₂.allocated := by
      intro q₂
      unfold removeLaneIfIdle
      cases q₂.laneOf task.item.laneKey with
      | none => exact ⟨rfl, rfl, rfl⟩
      | some j =>
        dsimp only
        split_ifs <;> exact ⟨rfl, rfl, rfl⟩
    rw [hadvance]
    obtain ⟨hr₁, hr₂, hr₃⟩ := hremoved (q₁.noteOutcome success task.item)
    have hlane : ∀ j, q₁.objects j =
        if j = task.lane then ⟨false, (q.objects task.lane).pending, none, none⟩
        else q.objects j := by
      rw [← hq₁]
      exact fun j => Function.update_apply q.objects task.lane _ j
    refine ⟨hr₁.trans htimers, fun i r hr => ?_, ?_⟩
    · rw [hr₂, hobjects, hlane] at hr
      split_ifs at hr
      exact hr
    · unfold liveAll live waiting
      rw [hr₁, hr₂, hr₃, htimers, hobjects, hallocated]
      apply Nat.add_le_add_right
      apply Finset.sum_le_sum
      intro j _
      rw [hlane]
      split_ifs with hj
      · rw [hj]
        unfold LaneState.count
        rw [Option.toList_none, List.countP_nil]
        exact Nat.le_add_right _ _
      · exact le_rfl

/-- While the queue shuts down, a turn retains the retries, starts nothing and adds nothing. -/
theorem Core.winding_step (h : q.Core) (hdown : q.shuttingDown = true)
    (hdisarmed : ∀ t ∈ q.retryTimers, t.armed = false) (hjoined : q.shutdownPromise.isSome)
    (turn : QueueTurn) : q.Winding (queueStep q turn) := by
  cases turn with
  | enqueue admits id laneKey =>
    change q.Winding (q.enqueue admits id laneKey)
    unfold AgentQueue.enqueue
    rw [if_pos (.inr (.inr hdown))]
    exact .refl q
  | startTask run =>
    change q.Winding (q.startTask run)
    unfold AgentQueue.startTask
    cases q.findTask run .starting <;> exact ⟨rfl, fun _ _ hr => hr, le_rfl⟩
  | finishTask run success => exact h.winding_executeItem hdown run success
  | resolveRun run =>
    change q.Winding (q.resolveRun run)
    unfold AgentQueue.resolveRun
    cases q.findTask run .settled with
    | none => exact .refl q
    | some task =>
      have hsame := Winding.sameWork (sameWork_checkMigrationDrain
        { q with tasks := q.tasks.filter fun t => decide (t.promise ≠ run) })
        (checkMigrationDrain_frame _).1
      exact ⟨hsame.timers, hsame.runs, hsame.live⟩
  | fireRetry timer =>
    have hnone : q.retryTimers.find? (fun t => decide (t.timer = timer) && t.armed) = none := by
      rw [List.find?_eq_none]
      intro t ht
      rw [hdisarmed t ht, Bool.and_false]
      exact Bool.false_ne_true
    change q.Winding (q.fireRetry timer)
    unfold AgentQueue.fireRetry
    rw [hnone]
    exact .refl q
  | sealAndDrain =>
    exact .sameWork (sameWork_sealAndDrain q).1 (retryTimers_sealAndDrain q)
  | release => exact ⟨rfl, fun _ _ hr => hr, le_rfl⟩
  | shutdown =>
    obtain ⟨promise, hpromise⟩ := Option.isSome_iff_exists.mp hjoined
    change q.Winding (q.shutdown)
    unfold AgentQueue.shutdown
    rw [hpromise]
    exact .refl q
  | shutdownJoined =>
    change q.Winding q.shutdownJoined
    unfold shutdownJoined
    split
    · split_ifs <;> exact ⟨rfl, fun _ _ hr => hr, le_rfl⟩
    · exact .refl q
  | shutdownTimeout =>
    change q.Winding q.shutdownTimeout
    unfold shutdownTimeout
    split
    · exact ⟨rfl, fun _ _ hr => hr, le_rfl⟩
    · exact .refl q

/-- What the state of the shutdown promise says about the queue. -/
structure Closing (q : AgentQueue) : Prop where
  disarmed : q.shuttingDown = true → ∀ t ∈ q.retryTimers, t.armed = false
  started : q.shuttingDown = true → q.shutdownPromise.isSome
  migrated : q.shutdownPromise = some .migration → q.shuttingDown = false ∧ q.migration.isSome
  owned : ∀ promise, q.shutdownPromise = some promise → promise ≠ .migration →
    q.shuttingDown = true
  joined : ∀ runs retained, q.shutdownPromise = some (.joining runs retained) →
    (∀ i r, (q.objects i).runningPromise = some r → r ∈ runs) ∧
      (retained = false → q.retryTimers = [])
  certified : q.shutdownPromise = some .resolved → q.liveAll = 0

theorem Closing.winding (h : q.Closing) (hcore : q.Core) (hdown : q.shuttingDown = true)
    (turn : QueueTurn) : q.Winding (queueStep q turn) :=
  hcore.winding_step hdown (h.disarmed hdown) (h.started hdown) turn

theorem Closing.sameShutdown (h : q.Closing) (hcore : q.Core) {turn : QueueTurn}
    (same : q.SameShutdown (queueStep q turn)) : (queueStep q turn).Closing := by
  cases hdown : q.shuttingDown with
  | false =>
    have hopen : (queueStep q turn).shuttingDown = false := same.down.trans hdown
    have howned : ∀ promise, (queueStep q turn).shutdownPromise = some promise →
        promise = .migration := by
      intro promise hpromise
      rw [same.promise] at hpromise
      by_contra hne
      have := h.owned promise hpromise hne
      rw [hdown] at this
      cases this
    constructor
    · intro htrue
      rw [hopen] at htrue
      cases htrue
    · intro htrue
      rw [hopen] at htrue
      cases htrue
    · intro hpromise
      rw [same.promise] at hpromise
      exact ⟨hopen, same.migration (h.migrated hpromise).2⟩
    · intro promise hpromise hne
      exact absurd (howned promise hpromise) hne
    · intro runs retained hpromise
      cases howned _ hpromise
    · intro hpromise
      cases howned _ hpromise
  | true =>
    have hwinding := h.winding hcore hdown turn
    have hdown' : (queueStep q turn).shuttingDown = true := same.down.trans hdown
    constructor
    · intro _
      rw [hwinding.timers]
      exact h.disarmed hdown
    · intro _
      rw [same.promise]
      exact h.started hdown
    · intro hpromise
      rw [same.promise] at hpromise
      have := (h.migrated hpromise).1
      rw [hdown] at this
      cases this
    · exact fun _ _ _ => hdown'
    · intro runs retained hpromise
      rw [same.promise] at hpromise
      obtain ⟨hruns, hretained⟩ := h.joined runs retained hpromise
      refine ⟨fun i r hr => hruns i r (hwinding.runs i r hr), fun hnot => ?_⟩
      rw [hwinding.timers]
      exact hretained hnot
    · intro hpromise
      rw [same.promise] at hpromise
      have := h.certified hpromise
      have := hwinding.live
      omega

theorem joinOutcome_eq_resolved {retained : Bool} (hresolved : q.joinOutcome retained = .resolved) :
    retained = false ∧ (q.mapped.any fun lane => !lane.pending.isEmpty) = false := by
  unfold joinOutcome at hresolved
  split_ifs at hresolved with hkept
  push Not at hkept
  exact ⟨Bool.not_eq_true _ ▸ hkept.1, Bool.not_eq_true _ ▸ hkept.2⟩

theorem joinOutcome_cases (retained : Bool) (q : AgentQueue) :
    q.joinOutcome retained = .resolved ∨ q.joinOutcome retained = .incomplete := by
  unfold joinOutcome
  split_ifs
  · exact .inr rfl
  · exact .inl rfl

theorem mem_runs (h : q.Placed none) {r : ℕ} (hr : (q.objects i).runningPromise = some r) :
    r ∈ q.mapped.filterMap fun lane => lane.runningPromise := by
  by_cases hmapped : ∃ k, q.laneOf k = some i
  · obtain ⟨k, hk⟩ := hmapped
    exact List.mem_filterMap.mpr ⟨_, mem_mapped hk, hr⟩
  · push Not at hmapped
    rw [h.unmapped i hmapped] at hr
    cases hr

theorem Closing.joinShutdown (h : q.Core) : q.joinShutdown.Closing := by
  have hlive : q.joinShutdown.liveAll = q.liveAll := by
    unfold liveAll live waiting AgentQueue.joinShutdown
    dsimp only
    rw [List.map_map]
    rfl
  have htimers : q.joinShutdown.retryTimers = q.retryTimers.map fun t => { t with armed := false } :=
    rfl
  have hpromise : q.joinShutdown.shutdownPromise =
      some (if (q.mapped.filterMap fun lane => lane.runningPromise) = []
        then q.joinOutcome (!q.retryTimers.isEmpty)
        else .joining (q.mapped.filterMap fun lane => lane.runningPromise)
          (!q.retryTimers.isEmpty)) := rfl
  constructor
  · intro _ t ht
    rw [htimers] at ht
    obtain ⟨u, _, rfl⟩ := List.mem_map.mp ht
    rfl
  · exact fun _ => rfl
  · intro hmigration
    rw [hpromise] at hmigration
    split_ifs at hmigration
    · rcases joinOutcome_cases (!q.retryTimers.isEmpty) q with hout | hout <;>
      · rw [hout] at hmigration
        cases hmigration
    · cases hmigration
  · exact fun _ _ _ => rfl
  · intro runs retained hjoining
    rw [hpromise] at hjoining
    split_ifs at hjoining
    · rcases joinOutcome_cases (!q.retryTimers.isEmpty) q with hout | hout <;>
      · rw [hout] at hjoining
        cases hjoining
    · cases hjoining
      refine ⟨fun i r hr => mem_runs h.placed hr, fun hretained => ?_⟩
      rw [Bool.not_eq_false', List.isEmpty_iff] at hretained
      rw [htimers, hretained]
      rfl
  · intro hresolved
    rw [hpromise] at hresolved
    split_ifs at hresolved with hruns
    · obtain ⟨hretained, hpending⟩ := joinOutcome_eq_resolved (Option.some.inj hresolved)
      rw [hlive]
      apply h.placed.liveAll_of_quiet _ hpending
      · rwa [Bool.not_eq_false', List.isEmpty_iff] at hretained
      · intro i
        cases hr : (q.objects i).runningPromise with
        | none => rfl
        | some r =>
          have hmem := mem_runs h.placed hr
          rw [hruns] at hmem
          cases hmem
    · cases hresolved

theorem Closing.step (h : q.Closing) (hcore : q.Core) (turn : QueueTurn) :
    (queueStep q turn).Closing := by
  by_cases hturn : Shuts turn
  · rcases hturn with rfl | rfl | rfl
    · change q.shutdown.Closing
      unfold shutdown
      cases hpromise : q.shutdownPromise with
      | some promise => exact h
      | none =>
        cases hmigration : q.migration with
        | some m =>
          have hopen : q.shuttingDown = false := by
            cases hdown : q.shuttingDown with
            | false => rfl
            | true =>
              have hsome := h.started hdown
              rw [hpromise] at hsome
              cases hsome
          constructor
          · exact h.disarmed
          · exact fun _ => rfl
          · exact fun _ => ⟨hopen, rfl⟩
          · intro promise heq hne
            exact absurd (Option.some.inj heq).symm hne
          · intro runs retained heq
            cases heq
          · intro heq
            cases heq
        | none => exact Closing.joinShutdown hcore
    · change q.shutdownJoined.Closing
      unfold shutdownJoined
      split
      · rename_i runs retained hpromise
        have hdown := h.owned _ hpromise (by intro heq; cases heq)
        obtain ⟨hruns, hretained⟩ := h.joined runs retained hpromise
        split_ifs with hopen
        · exact h
        · have hquiet : ∀ i, (q.objects i).runningPromise = none := by
            intro i
            cases hr : (q.objects i).runningPromise with
            | none => rfl
            | some r =>
              obtain ⟨t, ht, _, hpromise, _⟩ := hcore.tasked.owned i r hr
              exfalso
              apply hopen
              rw [List.any_eq_true]
              refine ⟨r, hruns i r hr, ?_⟩
              rw [List.any_eq_true]
              exact ⟨t, ht, decide_eq_true hpromise⟩
          rcases joinOutcome_cases retained q with hout | hout
          · obtain ⟨hnot, hpending⟩ := joinOutcome_eq_resolved hout
            rw [hout]
            refine ⟨h.disarmed, fun _ => rfl, ?_, fun _ _ _ => hdown, ?_, fun _ => ?_⟩
            · intro heq
              cases heq
            · intro runs retained heq
              cases heq
            · exact hcore.placed.liveAll_of_quiet hquiet hpending (hretained hnot)
          · rw [hout]
            refine ⟨h.disarmed, fun _ => rfl, ?_, fun _ _ _ => hdown, ?_, ?_⟩
            · intro heq
              cases heq
            · intro runs retained heq
              cases heq
            · intro heq
              cases heq
      · exact h
    · change q.shutdownTimeout.Closing
      unfold shutdownTimeout
      split
      · rename_i runs retained hpromise
        have hdown := h.owned _ hpromise (by intro heq; cases heq)
        refine ⟨h.disarmed, fun _ => rfl, ?_, fun _ _ _ => hdown, ?_, ?_⟩
        · intro heq
          cases heq
        · intro runs retained heq
          cases heq
        · intro heq
          cases heq
      · exact h
  · exact h.sameShutdown hcore (sameShutdown_step hturn q)

/-! ## A sealed queue -/

/-- What the queue did since it was sealed, latest first. -/
def sinceSealing (q : AgentQueue) : List QueueEvent :=
  q.history.takeWhile fun e => decide (e ≠ .sealed)

/-- Steps that leave the migration alone and record allowed events only. -/
structure Adds (allowed : QueueEvent → Prop) (q q' : AgentQueue) : Prop where
  migration : q'.migration = q.migration
  history : ∃ events, q'.history = events ++ q.history ∧ ∀ e ∈ events, allowed e

section Adds

variable {allowed : QueueEvent → Prop}

theorem Adds.of_eq (hmigration : q'.migration = q.migration) (hhistory : q'.history = q.history) :
    q.Adds allowed q' := by
  refine ⟨hmigration, [], hhistory, ?_⟩
  intro e he
  cases he

theorem Adds.of_cons {event : QueueEvent} (hmigration : q'.migration = q.migration)
    (hhistory : q'.history = event :: q.history) (hallowed : allowed event) :
    q.Adds allowed q' := by
  refine ⟨hmigration, [event], hhistory, ?_⟩
  intro e he
  rw [List.mem_singleton.mp he]
  exact hallowed

theorem Adds.trans {q₁ q₂ q₃ : AgentQueue} (h₁ : q₁.Adds allowed q₂) (h₂ : q₂.Adds allowed q₃) :
    q₁.Adds allowed q₃ := by
  obtain ⟨events₁, hhistory₁, hevents₁⟩ := h₁.history
  obtain ⟨events₂, hhistory₂, hevents₂⟩ := h₂.history
  refine ⟨h₂.migration.trans h₁.migration, events₂ ++ events₁, ?_, ?_⟩
  · rw [hhistory₂, hhistory₁, List.append_assoc]
  · intro e he
    rcases List.mem_append.mp he with hmem | hmem
    · exact hevents₂ e hmem
    · exact hevents₁ e hmem

theorem Adds.mono {allowed' : QueueEvent → Prop} (h : q.Adds allowed q')
    (himp : ∀ e, allowed e → allowed' e) : q.Adds allowed' q' := by
  obtain ⟨events, hhistory, hevents⟩ := h.history
  exact ⟨h.migration, events, hhistory, fun e he => himp e (hevents e he)⟩

end Adds

def IsStart (e : QueueEvent) : Prop := ∃ x, e = .started x

/-- The events that neither seal the queue nor fail an item. -/
def Harmless (e : QueueEvent) : Prop := e ≠ .sealed ∧ ∀ x, e ≠ .failed x

theorem IsStart.harmless {e : QueueEvent} (h : IsStart e) : Harmless e := by
  obtain ⟨x, rfl⟩ := h
  refine ⟨?_, fun y => ?_⟩ <;>
  · intro heq
    cases heq

theorem adds_getLane (q : AgentQueue) (k : String) : q.Adds IsStart (q.getLane k).1 := by
  unfold getLane
  cases q.laneOf k <;> exact .of_eq rfl rfl

theorem adds_runItem (i : ℕ) (item : QueueItem) (q : AgentQueue) :
    q.Adds IsStart (q.runItem i item) := .of_cons rfl rfl ⟨item, rfl⟩

theorem adds_admitItem (i : ℕ) (item : QueueItem) (q : AgentQueue) :
    q.Adds IsStart (q.admitItem i item) := by
  unfold admitItem
  split_ifs
  · exact .of_eq rfl rfl
  · exact adds_runItem i item q

theorem adds_fireRetry (timer : ℕ) (q : AgentQueue) : q.Adds IsStart (q.fireRetry timer) := by
  unfold fireRetry
  cases q.retryTimers.find? fun t => decide (t.timer = timer) && t.armed with
  | none => exact .of_eq rfl rfl
  | some t =>
    dsimp only
    split_ifs
    · exact .of_eq rfl rfl
    · refine Adds.trans ?_ (adds_admitItem _ _ _)
      refine Adds.trans ?_ (adds_getLane _ _)
      exact .of_eq rfl rfl

theorem adds_advanceLane (i : ℕ) (item : QueueItem) (q : AgentQueue) :
    q.Adds IsStart (q.advanceLane i item) := by
  have hremoved : q.Adds IsStart (q.removeLaneIfIdle item.laneKey) := by
    unfold removeLaneIfIdle
    cases q.laneOf item.laneKey with
    | none => exact .of_eq rfl rfl
    | some j =>
      dsimp only
      split_ifs <;> exact .of_eq rfl rfl
  unfold advanceLane
  split
  · refine Adds.trans ?_ (adds_runItem _ _ _)
    exact .of_eq rfl rfl
  · exact hremoved

theorem adds_scheduleRetry (item : QueueItem) (q : AgentQueue) :
    q.Adds Harmless (q.scheduleRetry item) := by
  unfold scheduleRetry
  split_ifs
  · refine .of_cons rfl rfl ⟨?_, fun x => ?_⟩ <;>
    · intro heq
      cases heq
  · exact .of_eq rfl rfl

/-- What the state of the migration says about the queue. -/
structure Sealing (q : AgentQueue) : Prop where
  failures : ∀ m x, q.migration = some m → .failed x ∈ q.sinceSealing → m.failed = true
  drained : ∀ m, q.migration = some m → m.joined = .resolved → q.liveAll = 0 ∧ m.failed = false

theorem Adds.sinceSealing (h : q.Adds Harmless q') {x : QueueItem}
    (hx : .failed x ∈ q'.sinceSealing) : .failed x ∈ q.sinceSealing := by
  obtain ⟨events, hhistory, hevents⟩ := h.history
  unfold AgentQueue.sinceSealing at hx ⊢
  rw [hhistory, List.takeWhile_append_of_pos] at hx
  · rcases List.mem_append.mp hx with hmem | hold
    · exact absurd rfl ((hevents _ hmem).2 x)
    · exact hold
  · intro e he
    exact decide_eq_true (hevents e he).1

theorem Adds.sealing (h : q.Adds Harmless q') (hsealing : q.Sealing)
    (hlive : ∀ m, q.migration = some m → m.joined = .resolved → q'.liveAll = q.liveAll) :
    q'.Sealing := by
  constructor
  · intro m x hm hx
    rw [h.migration] at hm
    exact hsealing.failures m x hm (h.sinceSealing hx)
  · intro m hm hjoined
    rw [h.migration] at hm
    rw [hlive m hm hjoined]
    exact hsealing.drained m hm hjoined

theorem Sealing.checkMigrationDrain (h : q.Sealing) (hplaced : q.Placed none) :
    q.checkMigrationDrain.Sealing := by
  unfold AgentQueue.checkMigrationDrain
  cases hm : q.migration with
  | none => exact h
  | some m =>
    dsimp only
    split_ifs with hsettled hfailed
    · exact h
    · constructor
      · intro m' x hm' hx
        cases hm'
        exact hfailed
      · intro m' hm' hjoined
        cases hm'
        cases hjoined
    · have hdrained : q.isDrained = true := by
        by_contra hnot
        exact hsettled (.inr (Bool.not_eq_true _ ▸ hnot))
      constructor
      · intro m' x hm' hx
        cases hm'
        unfold sinceSealing at hx
        rw [List.takeWhile_cons_of_pos (by decide)] at hx
        rcases List.mem_cons.mp hx with heq | hold
        · cases heq
        · exact h.failures m x hm hold
      · intro m' hm' _
        cases hm'
        exact ⟨hplaced.liveAll_of_isDrained hdrained, Bool.not_eq_true _ ▸ hfailed⟩

theorem Placed.findTask_none (h : q.Core) (hlive : q.liveAll = 0) (run : ℕ) :
    q.findTask run .executing = none := by
  cases hfind : q.findTask run .executing with
  | none => rfl
  | some task =>
    obtain ⟨hmem, _, hstage⟩ := findTask_eq_some hfind
    have hcurrent := (h.tasked.running task hmem (by rw [hstage]; intro heq; cases heq)).1
    have hitems := (h.placed.liveAll_eq_zero_iff.mp hlive).1 task.lane
    unfold LaneState.items at hitems
    rw [hcurrent] at hitems
    cases hitems

theorem Sealing.executeItem (h : q.Sealing) (hcore : q.Core) (run : ℕ) (success : Bool) :
    (q.executeItem run success).Sealing := by
  by_cases hdone : ∃ m, q.migration = some m ∧ m.joined = .resolved
  · obtain ⟨m, hm, hjoined⟩ := hdone
    have hnone := Placed.findTask_none hcore (h.drained m hm hjoined).1 run
    unfold AgentQueue.executeItem
    rw [hnone]
    exact h
  · push Not at hdone
    rw [executeItem_eq]
    cases hfind : q.findTask run .executing with
    | none => exact h
    | some task =>
      dsimp only
      apply ((adds_advanceLane _ _ _).mono fun e => IsStart.harmless).sealing
      · have hbefore : ((q.setStage run .settled).vacate task.lane).Sealing := by
          constructor
          · exact h.failures
          · exact fun m hm hjoined => absurd hjoined (hdone m hm)
        unfold noteOutcome
        split_ifs
        · apply Adds.sealing _ hbefore
          · exact fun m hm hjoined => absurd hjoined (hdone m hm)
          · refine .of_cons rfl rfl ⟨?_, fun x => ?_⟩ <;>
            · intro heq
              cases heq
        · apply (adds_scheduleRetry _ _).sealing
          · constructor
            · intro m x hm hx
              obtain ⟨m', _, rfl⟩ := Option.map_eq_some_iff.mp hm
              rfl
            · intro m hm hjoined
              obtain ⟨m', hm', rfl⟩ := Option.map_eq_some_iff.mp hm
              exact absurd hjoined (hdone m' hm')
          · intro m hm hjoined
            obtain ⟨m', hm', rfl⟩ := Option.map_eq_some_iff.mp hm
            exact absurd hjoined (hdone m' hm')
      · intro m hm hjoined
        exfalso
        have hsame : ∃ m', q.migration = some m' ∧ m'.joined = m.joined := by
          unfold noteOutcome at hm
          split_ifs at hm
          · exact ⟨m, hm, rfl⟩
          · rw [(adds_scheduleRetry _ _).migration] at hm
            obtain ⟨m', hm', rfl⟩ := Option.map_eq_some_iff.mp hm
            exact ⟨m', hm', rfl⟩
        obtain ⟨m', hm', hjoined'⟩ := hsame
        exact hdone m' hm' (hjoined'.trans hjoined)

theorem Sealing.fireRetry (h : q.Sealing) (hcore : q.Core) (timer : ℕ) :
    (q.fireRetry timer).Sealing := by
  apply ((adds_fireRetry timer q).mono fun e => IsStart.harmless).sealing h
  intro m hm hjoined
  have hwaiting := (hcore.placed.liveAll_eq_zero_iff.mp (h.drained m hm hjoined).1).2
  have htimers : q.retryTimers = [] := List.map_eq_nil_iff.mp hwaiting
  unfold AgentQueue.fireRetry
  rw [htimers]
  rfl

theorem Sealing.enqueue (h : q.Sealing) (admits : Bool) (id laneKey : Option String) :
    (q.enqueue admits id laneKey).Sealing := by
  unfold AgentQueue.enqueue
  split_ifs with hclosed hdup
  · exact h
  · exact ⟨h.failures, h.drained⟩
  · have hnone : q.migration = none := by
      cases hm : q.migration with
      | none => rfl
      | some m => exact absurd (.inr (.inl (by rw [hm]; rfl))) hclosed
    have hsilent : q.migration = ((q.getLane (resolveLaneKey laneKey)).1.acceptItem
        (q.getLane (resolveLaneKey laneKey)).2
        ⟨q.metrics.enqueued, id, resolveLaneKey laneKey, 0⟩).migration := by
      unfold acceptItem
      rw [(adds_admitItem _ _ _).migration]
      exact (adds_getLane q _).migration.symm
    constructor
    · intro m x hm
      rw [← hsilent, hnone] at hm
      cases hm
    · intro m hm
      rw [← hsilent, hnone] at hm
      cases hm

theorem Sealing.sealAndDrain (h : q.Sealing) (hplaced : q.Placed none) :
    q.sealAndDrain.Sealing := by
  unfold AgentQueue.sealAndDrain
  cases hm : q.migration with
  | some m => exact h
  | none =>
    dsimp only
    split_ifs
    · constructor
      · intro m x hm' _
        cases hm'
        rfl
      · intro m hm' hjoined
        cases hm'
        cases hjoined
    · apply Sealing.checkMigrationDrain
      · constructor
        · intro m x hm' hx
          cases hx
        · intro m hm' hjoined
          cases hm'
          cases hjoined
      · refine hplaced.congr rfl rfl rfl rfl rfl rfl rfl rfl ?_ ?_ ?_
        · exact fun n => List.countP_cons_of_neg Bool.false_ne_true
        · exact fun n => List.countP_cons_of_neg Bool.false_ne_true
        · intro x hx
          rcases List.mem_cons.mp hx with heq | hold
          · cases heq
          · exact hold

theorem Sealing.step (h : q.Sealing) (hcore : q.Core) (turn : QueueTurn) :
    (queueStep q turn).Sealing := by
  cases turn with
  | enqueue admits id laneKey => exact h.enqueue admits id laneKey
  | startTask run =>
    change (q.startTask run).Sealing
    unfold startTask
    cases q.findTask run .starting <;> exact ⟨h.failures, h.drained⟩
  | finishTask run success => exact h.executeItem hcore run success
  | resolveRun run =>
    have hcore' := hcore.resolveRun run
    change (q.resolveRun run).Sealing
    unfold resolveRun
    cases hfind : q.findTask run .settled with
    | none => exact h
    | some task =>
      apply Sealing.checkMigrationDrain
      · exact ⟨h.failures, h.drained⟩
      · exact hcore.placed.congr rfl rfl rfl rfl rfl rfl rfl rfl (fun _ => rfl) (fun _ => rfl)
          fun _ hx => hx
  | fireRetry timer => exact h.fireRetry hcore timer
  | sealAndDrain => exact h.sealAndDrain hcore.placed
  | release =>
    constructor
    · intro m x hm hx
      obtain ⟨m', hm', rfl⟩ := Option.map_eq_some_iff.mp hm
      exact h.failures m' x hm' hx
    · intro m hm hjoined
      obtain ⟨m', hm', rfl⟩ := Option.map_eq_some_iff.mp hm
      exact h.drained m' hm' hjoined
  | shutdown =>
    apply Adds.sealing _ h
    · exact fun _ _ _ => (sameWork_shutdown q).live _
    · change q.Adds Harmless q.shutdown
      unfold shutdown
      cases q.shutdownPromise with
      | some promise => exact .of_eq rfl rfl
      | none =>
        cases hm : q.migration with
        | some m => exact .of_eq hm.symm rfl
        | none => exact .of_eq rfl rfl
  | shutdownJoined =>
    change q.shutdownJoined.Sealing
    unfold shutdownJoined
    split
    · split_ifs <;> exact ⟨h.failures, h.drained⟩
    · exact h
  | shutdownTimeout =>
    change q.shutdownTimeout.Sealing
    unfold shutdownTimeout
    split <;> exact ⟨h.failures, h.drained⟩

/-! ## Every run -/

structure Sound (q : AgentQueue) : Prop where
  core : q.Core
  closing : q.Closing
  sealing : q.Sealing

theorem Core.step (h : q.Core) (hclosing : q.Closing) (turn : QueueTurn) :
    (queueStep q turn).Core := by
  cases turn with
  | enqueue admits id laneKey => exact h.enqueue admits id laneKey
  | startTask run => exact h.startTask run
  | finishTask run success => exact h.executeItem run success
  | resolveRun run => exact h.resolveRun run
  | fireRetry timer => exact h.fireRetry timer hclosing.disarmed
  | sealAndDrain =>
    obtain ⟨hsame, hdown⟩ := sameWork_sealAndDrain q
    apply hsame.core h
    intro hopen
    exact hdown.symm.trans hopen
  | release =>
    have hsame : q.SameWork q.release := { SameWork.refl q with }
    exact hsame.core h id
  | shutdown =>
    apply (sameWork_shutdown q).core h
    unfold shutdown
    cases q.shutdownPromise with
    | some promise => exact id
    | none =>
      cases q.migration with
      | some m => exact id
      | none =>
        intro hopen
        cases hopen
  | shutdownJoined =>
    change q.shutdownJoined.Core
    unfold shutdownJoined
    split
    · split_ifs
      · exact h
      · exact SameWork.core { SameWork.refl q with } h id
    · exact h
  | shutdownTimeout =>
    change q.shutdownTimeout.Core
    unfold shutdownTimeout
    split
    · exact SameWork.core { SameWork.refl q with } h id
    · exact h

theorem Sound.step (h : q.Sound) (turn : QueueTurn) : (queueStep q turn).Sound :=
  ⟨h.core.step h.closing turn, h.closing.step h.core turn, h.sealing.step h.core turn⟩

end AgentQueue

end Piclaw
