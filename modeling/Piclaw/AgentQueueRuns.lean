import Piclaw.AgentQueueClosing

/-!
# Runs of the agent queue

What holds after any sequence of turns, and what a shutdown that resolves certifies. The second
depends on the failures that happen while the queue shuts down: such an item is not retried.
-/

namespace Piclaw

namespace AgentQueue

variable {q : AgentQueue}

def afterTurns (turns : List QueueTurn) : AgentQueue := turns.foldl queueStep .empty

theorem afterTurns_append (turns : List QueueTurn) (turn : QueueTurn) :
    afterTurns (turns ++ [turn]) = queueStep (afterTurns turns) turn := by
  unfold afterTurns
  rw [List.foldl_append]
  rfl

theorem placed_empty : empty.Placed none := by
  have hlaneOf : ∀ k i, empty.laneOf k ≠ some i := by
    intro k i heq
    cases heq
  constructor
  · exact fun _ _ => rfl
  · exact fun k i hi => absurd hi (hlaneOf k i)
  · exact fun k _ i hi => absurd hi (hlaneOf k i)
  · exact fun k i hi => absurd hi (hlaneOf k i)
  · exact fun i => .inr ⟨rfl, rfl, rfl⟩
  · intro n
    have hnone : ¬ n < empty.metrics.enqueued := Nat.not_lt_zero n
    rw [if_neg hnone]
    rfl
  · exact fun _ => Nat.zero_le 1
  · intro x hx
    cases hx
  · intro t ht
    cases ht
  · exact List.nodup_nil
  · intro i x hx
    cases hx
  · intro i x hx
    cases hx
  · intro x hx
    cases hx
  · exact fun _ => Nat.zero_le _
  · exact fun _ _ => rfl
  · intro x hx
    cases hx

theorem sound_empty : empty.Sound := by
  refine ⟨⟨placed_empty, fun _ => rfl, ?_, fun _ _ _ => rfl, rfl⟩, ?_, ?_⟩
  · refine ⟨?_, List.nodup_nil, ?_, ?_⟩
    · intro t ht
      cases ht
    · intro t ht
      cases ht
    · intro i r hr
      cases hr
  · refine ⟨?_, ?_, ?_, ?_, ?_, ?_⟩
    · intro hdown
      cases hdown
    · intro hdown
      cases hdown
    · intro hpromise
      cases hpromise
    · intro promise hpromise
      cases hpromise
    · intro runs retained hpromise
      cases hpromise
    · intro hpromise
      cases hpromise
  · refine ⟨?_, ?_⟩
    · intro m x hm
      cases hm
    · intro m hm
      cases hm

theorem sound_afterTurns (turns : List QueueTurn) : (afterTurns turns).Sound := by
  induction turns using List.reverseRecOn with
  | nil => exact sound_empty
  | append_singleton turns turn ih =>
      rw [afterTurns_append]
      exact ih.step turn

/-! ## Scheduling -/

theorem Core.number_lt (h : q.Core) {x : QueueItem} (hx : .accepted x ∈ q.history) :
    x.number < q.metrics.enqueued := by
  have hmem : x.number ∈ q.history.filterMap QueueEvent.acceptedNumber :=
    List.mem_filterMap.mpr ⟨_, hx, rfl⟩
  rw [h.counted, List.mem_reverse, List.mem_range] at hmem
  exact hmem

theorem Core.acceptedIn_sublist (q : AgentQueue) (k : String) :
    (q.acceptedIn k).Sublist (q.history.filterMap QueueEvent.acceptedNumber) := by
  unfold acceptedIn
  induction q.history with
  | nil => exact List.Sublist.refl _
  | cons e events ih =>
      cases e with
      | accepted x =>
        rw [List.filterMap_cons, List.filterMap_cons]
        by_cases hk : x.laneKey = k
        · have hevent : QueueEvent.acceptedIn k (.accepted x) = some x.number := if_pos hk
          rw [hevent]
          exact ih.cons_cons _
        · have hevent : QueueEvent.acceptedIn k (.accepted x) = none := if_neg hk
          rw [hevent]
          exact ih.cons _
      | _ => exact ih

theorem Core.acceptedIn_pairwise (h : q.Core) (k : String) :
    (q.acceptedIn k).Pairwise (· > ·) := by
  apply List.Pairwise.sublist (Core.acceptedIn_sublist q k)
  rw [h.counted, List.pairwise_reverse]
  exact List.pairwise_lt_range

theorem Core.laneOf_item (h : q.Core) {i : ℕ} {x : QueueItem} (hx : x ∈ (q.objects i).items) :
    q.laneOf x.laneKey = some i := by
  obtain ⟨k, hk⟩ := h.placed.exists_laneOf hx
  rw [h.placed.keyed k i hk x hx]
  exact hk

theorem Core.one_task (h : q.Core) {t u : QueueTask} (ht : t ∈ q.tasks) (hu : u ∈ q.tasks)
    (hts : t.stage ≠ .settled) (hus : u.stage ≠ .settled)
    (hkey : t.item.laneKey = u.item.laneKey) : t = u := by
  have hlane : t.lane = u.lane := by
    have htl := h.laneOf_task ht hts
    have hul := h.laneOf_task hu hus
    rw [hkey, hul] at htl
    exact (Option.some.inj htl).symm
  have htr := (h.tasked.running t ht hts).2
  have hur := (h.tasked.running u hu hus).2
  rw [hlane, hur] at htr
  exact h.tasked.eq_of_promise ht hu (Option.some.inj htr).symm

theorem Placed.live_id_le (h : q.Placed none) {s : String} (hs : s ≠ "") :
    q.live (fun x => decide (x.id = some s)) ≤ 1 := by
  have hsame : (fun x : QueueItem => decide (x.id = some s)) =
      fun x => decide (x.key = some s) := by
    funext x
    rw [decide_eq_decide, QueueItem.key_eq_some]
    exact ⟨fun hid => ⟨hid, hs⟩, fun hkey => hkey.1⟩
  rw [hsame]
  exact h.ids s

/-- The scheduling invariant, in every state that any sequence of turns reaches. -/
theorem agentQueue_scheduling (turns : List QueueTurn) :
    (∀ t ∈ (afterTurns turns).tasks, ∀ u ∈ (afterTurns turns).tasks,
        t.stage ≠ .settled → u.stage ≠ .settled → t.item.laneKey = u.item.laneKey → t = u) ∧
      (∀ i, ∀ x ∈ ((afterTurns turns).objects i).items,
        (afterTurns turns).laneOf x.laneKey = some i) ∧
      (∀ k, ((afterTurns turns).acceptedIn k).Pairwise (· > ·) ∧
        (afterTurns turns).firstStarts k <:+ (afterTurns turns).acceptedIn k) ∧
      (∀ s, s ≠ "" → (afterTurns turns).live (fun x => decide (x.id = some s)) ≤ 1) ∧
      (∀ x, .accepted x ∈ (afterTurns turns).history →
        (afterTurns turns).live (fun y => decide (y.number = x.number)) +
          (afterTurns turns).finished x.number = 1) ∧
      (∀ n, (afterTurns turns).starts n ≤ 1 + defaultMaxRetries) ∧
      (∀ m, (afterTurns turns).migration = some m → m.joined = .resolved →
        (afterTurns turns).live (fun _ => true) = 0 ∧
          ∀ x, .failed x ∉ (afterTurns turns).sinceSealing) := by
  have h := sound_afterTurns turns
  refine ⟨?_, ?_, ?_, ?_, ?_, ?_, ?_⟩
  · exact fun t ht u hu hts hus hkey => h.core.one_task ht hu hts hus hkey
  · exact fun i x hx => h.core.laneOf_item hx
  · intro k
    refine ⟨h.core.acceptedIn_pairwise k, ?_⟩
    rw [h.core.ordered k]
    exact List.suffix_append _ _
  · exact fun s hs => h.core.placed.live_id_le hs
  · intro x hx
    have hcount := h.core.placed.numbers x.number
    rw [if_pos (h.core.number_lt hx)] at hcount
    exact hcount
  · exact h.core.placed.limited
  · intro m hm hjoined
    obtain ⟨hlive, hfailed⟩ := h.sealing.drained m hm hjoined
    refine ⟨hlive, fun x hx => ?_⟩
    rw [h.sealing.failures m x hm hx] at hfailed
    cases hfailed

/-! ## Shutting down -/

/-- The promise that `shutdown` returned has resolved without error. -/
def shutdownResolved (q : AgentQueue) : Bool :=
  match q.shutdownPromise with
  | some .resolved => true
  | some .migration => q.migration.any fun m => decide (m.joined = .resolved)
  | _ => false

/-- The item has succeeded or has been started as often as the retry policy allows. -/
def Accounted (q : AgentQueue) (x : QueueItem) : Prop :=
  (∃ y, .succeeded y ∈ q.history ∧ y.number = x.number) ∨
    q.starts x.number = 1 + defaultMaxRetries

/-- The turn in which a task with attempts left fails after the shutdown has started. -/
def FailsInShutdown (q : AgentQueue) (turn : QueueTurn) : Prop :=
  ∃ run task, turn = .finishTask run false ∧ q.findTask run .executing = some task ∧
    q.shuttingDown = true ∧ task.item.retries < defaultMaxRetries

theorem Sound.liveAll_of_shutdownResolved (h : q.Sound) (hresolved : q.shutdownResolved = true) :
    q.liveAll = 0 := by
  unfold shutdownResolved at hresolved
  split at hresolved
  · rename_i hpromise
    exact h.closing.certified hpromise
  · rw [Option.any_eq_true_iff_get] at hresolved
    obtain ⟨hsome, hjoined⟩ := hresolved
    exact (h.sealing.drained _ (Option.some_get hsome).symm (of_decide_eq_true hjoined)).1
  · cases hresolved

def succeededNumber (n : ℕ) : QueueEvent → Bool
  | .succeeded item => decide (item.number = n)
  | _ => false

def gaveUpNumber (n : ℕ) : QueueEvent → Bool
  | .gaveUp item => decide (item.number = n)
  | _ => false

theorem finished_eq (n : ℕ) (q : AgentQueue) :
    q.finished n = q.history.countP (succeededNumber n) + q.history.countP (gaveUpNumber n) := by
  unfold finished
  induction q.history with
  | nil => rfl
  | cons e events ih =>
      rw [List.countP_cons, List.countP_cons, List.countP_cons, ih]
      cases e with
      | succeeded x =>
        change _ + (if decide (x.number = n) = true then 1 else 0) =
          _ + (if decide (x.number = n) = true then 1 else 0) + (_ + 0)
        omega
      | gaveUp x =>
        change _ + (if decide (x.number = n) = true then 1 else 0) =
          _ + 0 + (_ + (if decide (x.number = n) = true then 1 else 0))
        omega
      | _ => rfl

theorem countP_succeeded_pos {n : ℕ} : 0 < q.history.countP (succeededNumber n) ↔
    ∃ y, .succeeded y ∈ q.history ∧ y.number = n := by
  rw [List.countP_pos_iff]
  constructor
  · rintro ⟨e, he, hn⟩
    cases e with
    | succeeded y => exact ⟨y, he, of_decide_eq_true hn⟩
    | _ => cases hn
  · rintro ⟨y, hy, hn⟩
    exact ⟨_, hy, decide_eq_true hn⟩

theorem countP_gaveUp_pos {n : ℕ} : 0 < q.history.countP (gaveUpNumber n) ↔
    ∃ y, .gaveUp y ∈ q.history ∧ y.number = n := by
  rw [List.countP_pos_iff]
  constructor
  · rintro ⟨e, he, hn⟩
    cases e with
    | gaveUp y => exact ⟨y, he, of_decide_eq_true hn⟩
    | _ => cases hn
  · rintro ⟨y, hy, hn⟩
    exact ⟨_, hy, decide_eq_true hn⟩

theorem Core.exists_accepted (h : q.Core) {n : ℕ} (hn : n < q.metrics.enqueued) :
    ∃ x, .accepted x ∈ q.history ∧ x.number = n := by
  have hmem : n ∈ q.history.filterMap QueueEvent.acceptedNumber := by
    rw [h.counted, List.mem_reverse, List.mem_range]
    exact hn
  obtain ⟨e, he, hnumber⟩ := List.mem_filterMap.mp hmem
  cases e with
  | accepted x => exact ⟨x, he, Option.some.inj hnumber⟩
  | _ => cases hnumber

/-- In an empty queue every item is accounted for unless one was given up too early. -/
theorem Core.accounted_iff (h : q.Core) (hlive : q.liveAll = 0) :
    (∀ x, .accepted x ∈ q.history → q.Accounted x) ↔
      ∀ y, .gaveUp y ∈ q.history → y.retries = defaultMaxRetries := by
  have hempty : ∀ n, q.live (fun x => decide (x.number = n)) = 0 := by
    intro n
    obtain ⟨hlanes, hwaiting⟩ := h.placed.liveAll_eq_zero_iff.mp hlive
    rw [live_eq_zero_iff fun i => h.placed.fresh_of_le]
    refine ⟨fun i x hx => ?_, fun x hx => ?_⟩
    · rw [hlanes i] at hx
      cases hx
    · rw [hwaiting] at hx
      cases hx
  have hfinished : ∀ n, n < q.metrics.enqueued → q.finished n = 1 := by
    intro n hn
    have hcount := h.placed.numbers n
    rw [if_pos hn, hempty] at hcount
    change 0 + 0 + _ = 1 at hcount
    omega
  constructor
  · intro hall y hy
    have hstarts := h.placed.gone y hy
    have hlimit := h.placed.limited y.number
    have hpos : 0 < q.history.countP (gaveUpNumber y.number) :=
      countP_gaveUp_pos.mpr ⟨y, hy, rfl⟩
    have hlt : y.number < q.metrics.enqueued := by
      by_contra hnot
      have := h.placed.unstarted y.number (by omega)
      omega
    obtain ⟨x, hx, hxy⟩ := h.exists_accepted hlt
    rcases hall x hx with hsucceeded | hstarted
    · have hone := hfinished x.number (hxy ▸ hlt)
      have := countP_succeeded_pos.mpr hsucceeded
      rw [finished_eq, hxy] at hone
      rw [hxy] at this
      omega
    · rw [hxy] at hstarted
      omega
  · intro hall x hx
    have hone := hfinished x.number (h.number_lt hx)
    rw [finished_eq] at hone
    by_cases hsucceeded : 0 < q.history.countP (succeededNumber x.number)
    · exact .inl (countP_succeeded_pos.mp hsucceeded)
    · have hgave : 0 < q.history.countP (gaveUpNumber x.number) := by omega
      obtain ⟨y, hy, hxy⟩ := countP_gaveUp_pos.mp hgave
      have hstarts := h.placed.gone y hy
      rw [hall y hy, hxy] at hstarts
      exact .inr (hstarts.trans (Nat.add_comm _ _))

/-! ## What is given up -/

theorem Adds.gaveUp_iff {q' : AgentQueue} {allowed : QueueEvent → Prop} (h : q.Adds allowed q')
    (hallowed : ∀ x, ¬ allowed (.gaveUp x)) (x : QueueItem) :
    .gaveUp x ∈ q'.history ↔ .gaveUp x ∈ q.history := by
  obtain ⟨events, hhistory, hevents⟩ := h.history
  rw [hhistory, List.mem_append]
  constructor
  · rintro (hmem | hold)
    · exact absurd (hevents _ hmem) (hallowed x)
    · exact hold
  · exact .inr

theorem not_isStart_gaveUp (x : QueueItem) : ¬ IsStart (.gaveUp x) := by
  rintro ⟨y, heq⟩
  cases heq

theorem SameWork.gaveUp_iff {q' : AgentQueue} (same : q.SameWork q') (x : QueueItem) :
    .gaveUp x ∈ q'.history ↔ .gaveUp x ∈ q.history := by
  obtain ⟨marks, hhistory, hmarks⟩ := same.history
  rw [hhistory, List.mem_append]
  constructor
  · rintro (hmem | hold)
    · rcases hmarks _ hmem with heq | heq <;> cases heq
    · exact hold
  · exact .inr

theorem mem_cons_of_ne {x : QueueItem} {event : QueueEvent} {events : List QueueEvent}
    (hne : .gaveUp x ≠ event) : .gaveUp x ∈ event :: events ↔ .gaveUp x ∈ events := by
  rw [List.mem_cons]
  exact or_iff_right hne

/-- A task that fails is given up when the retry policy refuses it. -/
theorem gaveUp_executeItem (run : ℕ) (success : Bool) (x : QueueItem) :
    .gaveUp x ∈ (q.executeItem run success).history ↔ .gaveUp x ∈ q.history ∨
      ∃ task, success = false ∧ q.findTask run .executing = some task ∧ task.item = x ∧
        shouldRetry x.retries defaultMaxRetries q.shuttingDown = false := by
  rw [executeItem_eq]
  cases hfind : q.findTask run .executing with
  | none =>
    constructor
    · exact .inl
    · rintro (hold | ⟨task, _, heq, _⟩)
      · exact hold
      · cases heq
  | some task =>
    dsimp only
    rw [(adds_advanceLane _ _ _).gaveUp_iff not_isStart_gaveUp]
    unfold noteOutcome
    cases success with
    | true =>
      rw [if_pos rfl]
      change .gaveUp x ∈ .succeeded task.item :: q.history ↔ _
      rw [mem_cons_of_ne (by intro heq; cases heq)]
      constructor
      · exact .inl
      · rintro (hold | ⟨_, heq, _⟩)
        · exact hold
        · cases heq
    | false =>
      rw [if_neg Bool.false_ne_true]
      unfold scheduleRetry
      have hdown : (((q.setStage run .settled).vacate task.lane).noteFailure task.item).shuttingDown =
          q.shuttingDown := rfl
      rw [hdown]
      split_ifs with hretry
      · change .gaveUp x ∈ .gaveUp task.item :: .failed task.item :: q.history ↔ _
        rw [List.mem_cons, mem_cons_of_ne (by intro heq; cases heq)]
        constructor
        · rintro (heq | hold)
          · cases heq
            exact .inr ⟨task, rfl, rfl, rfl, hretry⟩
          · exact .inl hold
        · rintro (hold | ⟨_, _, heq, rfl, _⟩)
          · exact .inr hold
          · cases heq
            exact .inl rfl
      · change .gaveUp x ∈ .failed task.item :: q.history ↔ _
        rw [mem_cons_of_ne (by intro heq; cases heq)]
        constructor
        · exact .inl
        · rintro (hold | ⟨_, _, heq, rfl, hno⟩)
          · exact hold
          · cases heq
            exact absurd hno hretry

theorem gaveUp_enqueue (admits : Bool) (id laneKey : Option String) (x : QueueItem) :
    .gaveUp x ∈ (q.enqueue admits id laneKey).history ↔ .gaveUp x ∈ q.history := by
  unfold enqueue
  split_ifs
  · rfl
  · rfl
  · unfold acceptItem
    rw [(adds_admitItem _ _ _).gaveUp_iff not_isStart_gaveUp]
    change .gaveUp x ∈ .accepted _ :: (q.getLane (resolveLaneKey laneKey)).1.history ↔ _
    rw [mem_cons_of_ne (by intro heq; cases heq)]
    exact (adds_getLane q _).gaveUp_iff not_isStart_gaveUp x

theorem gaveUp_step (turn : QueueTurn) (x : QueueItem) :
    .gaveUp x ∈ (queueStep q turn).history ↔ .gaveUp x ∈ q.history ∨
      ∃ run task, turn = .finishTask run false ∧ q.findTask run .executing = some task ∧
        task.item = x ∧ shouldRetry x.retries defaultMaxRetries q.shuttingDown = false := by
  have hother : ∀ q' : AgentQueue, (.gaveUp x ∈ q'.history ↔ .gaveUp x ∈ q.history) →
      (∀ run, turn ≠ .finishTask run false) → (.gaveUp x ∈ q'.history ↔ .gaveUp x ∈ q.history ∨
        ∃ run task, turn = .finishTask run false ∧ q.findTask run .executing = some task ∧
          task.item = x ∧ shouldRetry x.retries defaultMaxRetries q.shuttingDown = false) := by
    intro q' hiff hne
    rw [hiff]
    constructor
    · exact .inl
    · rintro (hold | ⟨run, _, heq, _⟩)
      · exact hold
      · exact absurd heq (hne run)
  cases turn with
  | finishTask run success =>
    change .gaveUp x ∈ (q.executeItem run success).history ↔ _
    rw [gaveUp_executeItem]
    constructor
    · rintro (hold | ⟨task, rfl, hfind, hitem, hretry⟩)
      · exact .inl hold
      · exact .inr ⟨run, task, rfl, hfind, hitem, hretry⟩
    · rintro (hold | ⟨_, task, heq, hfind, hitem, hretry⟩)
      · exact .inl hold
      · cases heq
        exact .inr ⟨task, rfl, hfind, hitem, hretry⟩
  | enqueue admits id laneKey =>
    exact hother _ (gaveUp_enqueue admits id laneKey x) fun _ heq => by cases heq
  | startTask run =>
    refine hother (q.startTask run) ?_ fun _ heq => by cases heq
    unfold startTask
    cases q.findTask run .starting <;> rfl
  | resolveRun run =>
    refine hother (q.resolveRun run) ?_ fun _ heq => by cases heq
    unfold resolveRun
    cases q.findTask run .settled with
    | none => rfl
    | some task => exact (sameWork_checkMigrationDrain _).gaveUp_iff x
  | fireRetry timer =>
    exact hother _ ((adds_fireRetry timer q).gaveUp_iff not_isStart_gaveUp x) fun _ heq => by
      cases heq
  | sealAndDrain =>
    exact hother _ ((sameWork_sealAndDrain q).1.gaveUp_iff x) fun _ heq => by cases heq
  | release => exact hother q.release Iff.rfl fun _ heq => by cases heq
  | shutdown =>
    exact hother _ ((sameWork_shutdown q).gaveUp_iff x) fun _ heq => by cases heq
  | shutdownJoined =>
    refine hother q.shutdownJoined ?_ fun _ heq => by cases heq
    unfold shutdownJoined
    split
    · split_ifs <;> rfl
    · rfl
  | shutdownTimeout =>
    refine hother q.shutdownTimeout ?_ fun _ heq => by cases heq
    unfold shutdownTimeout
    split <;> rfl

theorem Core.retries_le (h : q.Core) {x : QueueItem} (hx : .gaveUp x ∈ q.history) :
    x.retries ≤ defaultMaxRetries := by
  have := h.placed.gone x hx
  have := h.placed.limited x.number
  omega

/-- An item is given up with attempts left exactly when it fails while the queue shuts down. -/
theorem gaveUp_early_iff (turns : List QueueTurn) :
    (∃ x, .gaveUp x ∈ (afterTurns turns).history ∧ x.retries < defaultMaxRetries) ↔
      ∃ before turn, before ++ [turn] <+: turns ∧ FailsInShutdown (afterTurns before) turn := by
  induction turns using List.reverseRecOn with
  | nil =>
    constructor
    · rintro ⟨x, hx, _⟩
      cases hx
    · rintro ⟨before, turn, hinit, _⟩
      have := List.prefix_nil.mp hinit
      exact absurd this (List.append_ne_nil_of_right_ne_nil _ (List.cons_ne_nil _ _))
  | append_singleton turns turn ih =>
    rw [afterTurns_append]
    constructor
    · rintro ⟨x, hx, hlt⟩
      rcases (gaveUp_step turn x).mp hx with hold | ⟨run, task, hturn, hfind, rfl, hretry⟩
      · obtain ⟨before, t, hinit, hfails⟩ := ih.mp ⟨x, hold, hlt⟩
        exact ⟨before, t, hinit.trans (List.prefix_append _ _), hfails⟩
      · refine ⟨turns, turn, List.prefix_rfl, run, task, hturn, hfind, ?_, hlt⟩
        unfold shouldRetry at hretry
        rw [decide_eq_true hlt, Bool.and_true, Bool.not_eq_false'] at hretry
        exact hretry
    · rintro ⟨before, t, hinit, hfails⟩
      rcases List.prefix_concat_iff.mp hinit with heq | hold
      · obtain ⟨rfl, hlast⟩ := List.append_inj' heq rfl
        obtain rfl : t = turn := List.head_eq_of_cons_eq hlast
        obtain ⟨run, task, hturn, hfind, hdown, hlt⟩ := hfails
        refine ⟨task.item, (gaveUp_step t task.item).mpr (.inr ?_), hlt⟩
        refine ⟨run, task, hturn, hfind, rfl, ?_⟩
        rw [hdown]
        rfl
      · obtain ⟨x, hx, hlt⟩ := ih.mpr ⟨before, t, hold, hfails⟩
        exact ⟨x, (gaveUp_step turn x).mpr (.inl hx), hlt⟩

end AgentQueue

end Piclaw
