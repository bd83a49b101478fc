import Piclaw.AgentQueue

/-!
# The places of an accepted item

Every accepted item is pending in a lane, current in a lane, waiting for its retry timer or
finished. The invariant counts these places. A turn moves an item in small steps, so the invariant
speaks of a queue with an item in hand, one that has left its place and not yet reached the next.
-/

namespace Piclaw

def LaneState.count (p : QueueItem → Bool) (lane : LaneState) : ℕ :=
  lane.pending.countP p + lane.current.toList.countP p

@[simp] theorem LaneState.count_fresh (p : QueueItem → Bool) : LaneState.fresh.count p = 0 := rfl

def LaneState.items (lane : LaneState) : List QueueItem := lane.current.toList ++ lane.pending

theorem LaneState.count_eq_zero_iff {p : QueueItem → Bool} {lane : LaneState} :
    lane.count p = 0 ↔ ∀ x ∈ lane.items, p x = false := by
  unfold count items
  rw [Nat.add_eq_zero_iff, List.countP_eq_zero, List.countP_eq_zero]
  simp only [List.mem_append, Bool.not_eq_true]
  grind

theorem LaneState.idle_iff (lane : LaneState) : lane.idle = true ↔ lane = .fresh := by
  rcases lane with ⟨running, pending, current, runningPromise⟩
  simp only [idle, fresh, mk.injEq, Bool.and_eq_true, Bool.not_eq_true', List.isEmpty_iff,
    Option.isNone_iff_eq_none]
  tauto

/-- A lane runs exactly when it has a current item and the promise of its run. -/
def LaneState.Shape (lane : LaneState) : Prop :=
  (lane.running = true ∧ lane.current.isSome ∧ lane.runningPromise.isSome) ∨
    (lane.running = false ∧ lane.current = none ∧ lane.runningPromise = none)

namespace QueueEvent

def startedNumber (n : ℕ) : QueueEvent → Bool
  | .started item => decide (item.number = n)
  | _ => false

def finishedNumber (n : ℕ) : QueueEvent → Bool
  | .succeeded item => decide (item.number = n)
  | .gaveUp item => decide (item.number = n)
  | _ => false

def acceptedNumber : QueueEvent → Option ℕ
  | .accepted item => some item.number
  | _ => none

def acceptedIn (laneKey : String) : QueueEvent → Option ℕ
  | .accepted item => if item.laneKey = laneKey then some item.number else none
  | _ => none

def firstStartIn (laneKey : String) : QueueEvent → Option ℕ
  | .started item =>
    if item.laneKey = laneKey ∧ item.retries = 0 then some item.number else none
  | _ => none

end QueueEvent

namespace AgentQueue

variable {q : AgentQueue} {p : QueueItem → Bool} {i : ℕ} {item : QueueItem} {k : String}

def waiting (q : AgentQueue) : List QueueItem := q.retryTimers.map RetryTimer.item

/-- How many live items satisfy `p`: pending and current ones of every lane object that was ever
made, and the ones that wait for a retry timer. -/
def live (p : QueueItem → Bool) (q : AgentQueue) : ℕ :=
  ∑ i ∈ Finset.range q.allocated, (q.objects i).count p + q.waiting.countP p

def starts (n : ℕ) (q : AgentQueue) : ℕ := q.history.countP (QueueEvent.startedNumber n)

def finished (n : ℕ) (q : AgentQueue) : ℕ := q.history.countP (QueueEvent.finishedNumber n)

/-- The numbers of the accepted items of a lane, latest first. -/
def acceptedIn (k : String) (q : AgentQueue) : List ℕ := q.history.filterMap (QueueEvent.acceptedIn k)

/-- The numbers of the first attempts started in a lane, latest first. -/
def firstStarts (k : String) (q : AgentQueue) : List ℕ := q.history.filterMap (QueueEvent.firstStartIn k)

def firstAttempts (items : List QueueItem) : List ℕ :=
  (items.filter fun item => decide (item.retries = 0)).map QueueItem.number

/-- The numbers of the pending first attempts of a lane, in the order in which they will start. -/
def freshIn (k : String) (q : AgentQueue) : List ℕ :=
  match q.laneOf k with
  | some i => firstAttempts (q.objects i).pending
  | none => []

theorem sum_update {n i : ℕ} (hi : i < n) (f : ℕ → LaneState) (lane : LaneState)
    (p : QueueItem → Bool) :
    ∑ j ∈ Finset.range n, (Function.update f i lane j).count p + (f i).count p =
      ∑ j ∈ Finset.range n, (f j).count p + lane.count p := by
  have hmem : i ∈ Finset.range n := Finset.mem_range.mpr hi
  rw [← Finset.add_sum_erase _ _ hmem, ← Finset.add_sum_erase _ (fun j => (f j).count p) hmem]
  have hrest : ∑ j ∈ (Finset.range n).erase i, (Function.update f i lane j).count p =
      ∑ j ∈ (Finset.range n).erase i, (f j).count p := by
    apply Finset.sum_congr rfl
    intro j hj
    rw [Function.update_of_ne (Finset.ne_of_mem_erase hj)]
  rw [hrest, Function.update_self]
  omega

/-- Replacing one lane object changes the count by what the object held and holds. -/
theorem live_update {q' : AgentQueue} {lane : LaneState} (hi : i < q.allocated)
    (hobjects : q'.objects = Function.update q.objects i lane)
    (hallocated : q'.allocated = q.allocated) (hwaiting : q'.waiting = q.waiting)
    (p : QueueItem → Bool) :
    q'.live p + (q.objects i).count p = q.live p + lane.count p := by
  have hsum := sum_update hi q.objects lane p
  unfold live
  rw [hobjects, hallocated, hwaiting]
  omega

theorem live_eq_zero_iff (hmapped : ∀ i, q.allocated ≤ i → q.objects i = .fresh) :
    q.live p = 0 ↔ (∀ i, ∀ x ∈ (q.objects i).items, p x = false) ∧
      ∀ x ∈ q.waiting, p x = false := by
  unfold live
  rw [Nat.add_eq_zero_iff, Finset.sum_eq_zero_iff, List.countP_eq_zero]
  constructor
  · rintro ⟨hlanes, hwaiting⟩
    refine ⟨fun i => ?_, fun x hx => by simpa using hwaiting x hx⟩
    by_cases hi : i < q.allocated
    · exact LaneState.count_eq_zero_iff.mp (hlanes i (Finset.mem_range.mpr hi))
    · rw [hmapped i (by omega)]
      intro x hx
      cases hx
  · rintro ⟨hlanes, hwaiting⟩
    exact ⟨fun i _ => LaneState.count_eq_zero_iff.mpr (hlanes i),
      fun x hx => by simpa using hwaiting x hx⟩

/-- An item that waits to be started. -/
def Ready (q : AgentQueue) (x : QueueItem) : Prop :=
  q.starts x.number = x.retries ∧ x.retries ≤ defaultMaxRetries

/-- An item that has been started and has not come back. -/
def Ran (q : AgentQueue) (x : QueueItem) : Prop :=
  q.starts x.number = x.retries + 1 ∧ x.retries ≤ defaultMaxRetries

structure Placed (hand : Option QueueItem) (q : AgentQueue) : Prop where
  unmapped : ∀ i, (∀ k, q.laneOf k ≠ some i) → q.objects i = .fresh
  bounded : ∀ k i, q.laneOf k = some i → i < q.allocated
  apart : ∀ k k' i, q.laneOf k = some i → q.laneOf k' = some i → k = k'
  keyed : ∀ k i, q.laneOf k = some i → ∀ x ∈ (q.objects i).items, x.laneKey = k
  shaped : ∀ i, (q.objects i).Shape
  numbers : ∀ n, q.live (fun x => decide (x.number = n)) +
    hand.toList.countP (fun x => decide (x.number = n)) + q.finished n =
      if n < q.metrics.enqueued then 1 else 0
  ids : ∀ s, q.live (fun x => decide (x.key = some s)) +
    hand.toList.countP (fun x => decide (x.key = some s)) ≤ 1
  retrying : ∀ x ∈ q.waiting, ∀ s, x.key = some s → s ∈ q.retryingIds
  timed : ∀ t ∈ q.retryTimers, t.timer < q.timers
  distinct : (q.retryTimers.map RetryTimer.timer).Nodup
  pendingReady : ∀ i, ∀ x ∈ (q.objects i).pending, q.Ready x
  currentRan : ∀ i x, (q.objects i).current = some x → q.Ran x
  waitingReady : ∀ x ∈ q.waiting, q.Ready x ∧ 0 < x.retries
  limited : ∀ n, q.starts n ≤ 1 + defaultMaxRetries
  unstarted : ∀ n, q.metrics.enqueued ≤ n → q.starts n = 0
  gone : ∀ x, .gaveUp x ∈ q.history → q.starts x.number = x.retries + 1

variable {hand : Option QueueItem}

theorem Placed.fresh_of_le (h : q.Placed hand) (hi : q.allocated ≤ i) :
    q.objects i = .fresh := by
  apply h.unmapped
  intro k hk
  have := h.bounded k i hk
  omega

/-- What the item in hand has in common with no live item. -/
theorem Placed.hand_apart (h : q.Placed (some item)) :
    (∀ i, ∀ x ∈ (q.objects i).items, x.number ≠ item.number) ∧
      (∀ x ∈ q.waiting, x.number ≠ item.number) ∧ q.finished item.number = 0 ∧
      item.number < q.metrics.enqueued := by
  have hcount := h.numbers item.number
  simp only [Option.toList_some, List.countP_cons, List.countP_nil, decide_true, if_true] at hcount
  have hlt : item.number < q.metrics.enqueued := by
    by_contra hnot
    rw [if_neg hnot] at hcount
    omega
  rw [if_pos hlt] at hcount
  have hlive : q.live (fun x => decide (x.number = item.number)) = 0 := by omega
  rw [live_eq_zero_iff fun i => h.fresh_of_le] at hlive
  refine ⟨fun i x hx => ?_, fun x hx => ?_, by omega, hlt⟩
  · simpa using hlive.1 i x hx
  · simpa using hlive.2 x hx

theorem Placed.hand_key (h : q.Placed (some item)) {s : String} (hs : item.key = some s) :
    ∀ x ∈ q.waiting, x.key ≠ some s := by
  have hcount := h.ids s
  simp only [Option.toList_some, List.countP_cons, List.countP_nil, hs, decide_true, if_true]
    at hcount
  have hlive : q.live (fun x => decide (x.key = some s)) = 0 := by omega
  rw [live_eq_zero_iff fun i => h.fresh_of_le] at hlive
  intro x hx
  simpa using hlive.2 x hx

/-! ## What the small steps do to the places -/

theorem Placed.congr {q' : AgentQueue} (h : q.Placed hand) (hlanes : q'.lanes = q.lanes)
    (hobjects : q'.objects = q.objects) (hallocated : q'.allocated = q.allocated)
    (hwaiting : q'.waiting = q.waiting)
    (htimers : q'.retryTimers.map RetryTimer.timer = q.retryTimers.map RetryTimer.timer)
    (hbound : q'.timers = q.timers) (hretrying : q'.retryingIds = q.retryingIds)
    (henqueued : q'.metrics.enqueued = q.metrics.enqueued)
    (hstarts : ∀ n, q'.starts n = q.starts n) (hfinished : ∀ n, q'.finished n = q.finished n)
    (hgone : ∀ x, .gaveUp x ∈ q'.history → .gaveUp x ∈ q.history) : q'.Placed hand := by
  have hlaneOf : q'.laneOf = q.laneOf := by
    funext k
    unfold laneOf
    rw [hlanes]
  have hlive : ∀ p, q'.live p = q.live p := fun p => by
    unfold live
    rw [hobjects, hallocated, hwaiting]
  have hready : ∀ x, q'.Ready x ↔ q.Ready x := fun x => by unfold Ready; rw [hstarts]
  have hran : ∀ x, q'.Ran x ↔ q.Ran x := fun x => by unfold Ran; rw [hstarts]
  have htimed : ∀ t ∈ q'.retryTimers, t.timer < q'.timers := by
    intro t ht
    have hmem : t.timer ∈ q.retryTimers.map RetryTimer.timer := by
      rw [← htimers]
      exact List.mem_map_of_mem ht
    obtain ⟨u, hu, heq⟩ := List.mem_map.mp hmem
    rw [hbound, ← heq]
    exact h.timed u hu
  exact {
    unmapped := by rw [hlaneOf, hobjects]; exact h.unmapped
    bounded := by rw [hlaneOf, hallocated]; exact h.bounded
    apart := by rw [hlaneOf]; exact h.apart
    keyed := by rw [hlaneOf, hobjects]; exact h.keyed
    shaped := by rw [hobjects]; exact h.shaped
    numbers := by simpa only [hlive, hfinished, henqueued] using h.numbers
    ids := by simpa only [hlive] using h.ids
    retrying := by rw [hwaiting, hretrying]; exact h.retrying
    timed := htimed
    distinct := by rw [htimers]; exact h.distinct
    pendingReady := by simpa only [hobjects, hready] using h.pendingReady
    currentRan := by simpa only [hobjects, hran] using h.currentRan
    waitingReady := by simpa only [hwaiting, hready] using h.waitingReady
    limited := by simpa only [hstarts] using h.limited
    unstarted := by simpa only [hstarts, henqueued] using h.unstarted
    gone := fun x hx => by rw [hstarts]; exact h.gone x (hgone x hx) }

theorem laneOf_getLane : (q.getLane k).1.laneOf k = some (q.getLane k).2 := by
  unfold getLane
  cases h : q.laneOf k with
  | none => exact AList.lookup_insert q.lanes
  | some i => exact h

theorem Placed.getLane (h : q.Placed hand) (k : String) : (q.getLane k).1.Placed hand := by
  unfold AgentQueue.getLane
  cases hk : q.laneOf k with
  | some i => exact h
  | none =>
    have hfresh : q.objects q.allocated = .fresh := h.fresh_of_le le_rfl
    have hobjects : Function.update q.objects q.allocated .fresh = q.objects := by
      rw [← hfresh, Function.update_eq_self]
    have hlaneOf : ∀ k', (q.lanes.insert k q.allocated).lookup k' =
        if k' = k then some q.allocated else q.laneOf k' := by
      intro k'
      by_cases hkk : k' = k
      · rw [if_pos hkk, hkk, AList.lookup_insert]
      · rw [if_neg hkk, AList.lookup_insert_ne hkk]
        rfl
    dsimp only
    rw [hobjects]
    have hlive : ∀ p, ({ q with
        lanes := q.lanes.insert k q.allocated
        allocated := q.allocated + 1 } : AgentQueue).live p = q.live p := by
      intro p
      unfold live
      dsimp only
      rw [Finset.sum_range_succ, hfresh]
      rfl
    have hbounded := h.bounded
    exact { h with
      unmapped := by
        intro i hi
        apply h.unmapped
        intro k' hk'
        apply hi k'
        change AList.lookup k' _ = _
        rw [hlaneOf]
        grind
      bounded := by
        intro k' i hi
        change AList.lookup k' _ = _ at hi
        rw [hlaneOf] at hi
        change i < q.allocated + 1
        grind
      apart := by
        intro k₁ k₂ i h₁ h₂
        change AList.lookup _ _ = _ at h₁ h₂
        rw [hlaneOf] at h₁ h₂
        have := h.apart
        grind
      keyed := by
        intro k' i hi x hx
        change AList.lookup k' _ = _ at hi
        rw [hlaneOf] at hi
        split_ifs at hi with hkk
        · obtain rfl : q.allocated = i := Option.some.inj hi
          rw [show q.objects q.allocated = .fresh from hfresh] at hx
          cases hx
        · exact h.keyed k' i hi x hx
      numbers := by
        intro n
        rw [hlive]
        exact h.numbers n
      ids := by
        intro s
        rw [hlive]
        exact h.ids s }

/-- Items move between one lane object and the hand. -/
theorem Placed.setLane {hand' : Option QueueItem} {lane : LaneState} (h : q.Placed hand)
    (hi : q.laneOf k = some i) (hshape : lane.Shape) (hkeyed : ∀ x ∈ lane.items, x.laneKey = k)
    (hbalance : ∀ p, lane.count p + hand'.toList.countP p =
      (q.objects i).count p + hand.toList.countP p)
    (hpending : ∀ x ∈ lane.pending, q.Ready x) (hcurrent : ∀ x, lane.current = some x → q.Ran x) :
    (q.setLane i lane).Placed hand' := by
  have hlive : ∀ p, (q.setLane i lane).live p + (q.objects i).count p =
      q.live p + lane.count p := by
    intro p
    apply live_update (h.bounded k i hi) <;> rfl
  have hobjects : ∀ j, (q.setLane i lane).objects j = if j = i then lane else q.objects j :=
    fun j => Function.update_apply q.objects i lane j
  exact { h with
    unmapped := by
      intro j hj
      rw [hobjects]
      split_ifs with hij
      · exact absurd (hij ▸ hi) (hj k)
      · exact h.unmapped j hj
    keyed := by
      intro k' j hj x hx
      rw [hobjects] at hx
      split_ifs at hx with hij
      · rw [h.apart k' k i (hij ▸ hj) hi]
        exact hkeyed x hx
      · exact h.keyed k' j hj x hx
    shaped := by
      intro j
      rw [hobjects]
      split_ifs with hij
      · exact hshape
      · exact h.shaped j
    numbers := by
      intro n
      have := h.numbers n
      have := hlive fun x => decide (x.number = n)
      have := hbalance fun x => decide (x.number = n)
      change (q.setLane i lane).live _ + _ + q.finished n = _
      change _ = if n < q.metrics.enqueued then 1 else 0
      omega
    ids := by
      intro s
      have := h.ids s
      have := hlive fun x => decide (x.key = some s)
      have := hbalance fun x => decide (x.key = some s)
      omega
    pendingReady := by
      intro j x hx
      rw [hobjects] at hx
      split_ifs at hx with hij
      · exact hpending x hx
      · exact h.pendingReady j x hx
    currentRan := by
      intro j x hx
      rw [hobjects] at hx
      split_ifs at hx with hij
      · exact hcurrent x hx
      · exact h.currentRan j x hx }

theorem Placed.pushPending (h : q.Placed (some item)) (hi : q.laneOf item.laneKey = some i)
    (hready : q.Ready item) : (q.pushPending i item).Placed none := by
  have hitems : ∀ x, x ∈ (q.objects i).current.toList ++ ((q.objects i).pending ++ [item]) →
      x ∈ (q.objects i).items ∨ x = item := by
    intro x hx
    unfold LaneState.items
    simp only [List.mem_append, List.mem_singleton] at hx ⊢
    tauto
  refine h.setLane hi (h.shaped i) (fun x hx => ?_) (fun p => ?_) (fun x hx => ?_)
    (h.currentRan i)
  · rcases hitems x hx with hold | rfl
    · exact h.keyed _ _ hi x hold
    · rfl
  · unfold LaneState.count
    simp only [List.countP_append, Option.toList_some, Option.toList_none, List.countP_nil]
    omega
  · rcases List.mem_append.mp hx with hold | hnew
    · exact h.pendingReady i x hold
    · rwa [List.mem_singleton.mp hnew]

theorem starts_runItem (n : ℕ) : (q.runItem i item).starts n =
    q.starts n + if item.number = n then 1 else 0 := by
  unfold starts runItem forgetRetrying
  rw [List.countP_cons]
  simp only [QueueEvent.startedNumber, decide_eq_true_eq]

theorem Placed.runItem (h : q.Placed (some item)) (hi : q.laneOf item.laneKey = some i)
    (hidle : (q.objects i).current = none) (hready : q.Ready item) :
    (q.runItem i item).Placed none := by
  obtain ⟨hlanes, hwaiting, hfinished, hlt⟩ := h.hand_apart
  have hlive : ∀ p, (q.runItem i item).live p = q.live p + [item].countP p := by
    intro p
    have hcount : (q.runItem i item).live p + (q.objects i).count p = q.live p +
        LaneState.count p ⟨true, (q.objects i).pending, some item, some q.metrics.started⟩ := by
      apply live_update (h.bounded _ i hi) <;> rfl
    unfold LaneState.count at hcount
    rw [hidle, Option.toList_none, Option.toList_some, List.countP_nil] at hcount
    dsimp only at hcount
    omega
  have hobjects : ∀ j, (q.runItem i item).objects j =
      if j = i then ⟨true, (q.objects i).pending, some item, some q.metrics.started⟩
      else q.objects j := fun j => Function.update_apply q.objects i _ j
  have hstarts : ∀ x : QueueItem, x.number ≠ item.number →
      (q.runItem i item).starts x.number = q.starts x.number := by
    intro x hx
    rw [starts_runItem, if_neg (Ne.symm hx), add_zero]
  have hpending : ∀ j, ∀ x ∈ (q.objects j).pending, (q.runItem i item).Ready x := by
    intro j x hx
    have hold := h.pendingReady j x hx
    have hne := hlanes j x (List.mem_append_right _ hx)
    unfold Ready
    rw [hstarts x hne]
    exact hold
  exact { h with
    unmapped := by
      intro j hj
      rw [hobjects]
      split_ifs with hij
      · exact absurd (hij ▸ hi) (hj _)
      · exact h.unmapped j hj
    keyed := by
      intro k' j hj x hx
      rw [hobjects] at hx
      split_ifs at hx with hij
      · rw [h.apart k' item.laneKey i (hij ▸ hj) hi]
        rcases List.mem_cons.mp hx with rfl | hold
        · rfl
        · exact h.keyed _ i hi x (List.mem_append_right _ hold)
      · exact h.keyed k' j hj x hx
    shaped := by
      intro j
      rw [hobjects]
      split_ifs with hij
      · exact .inl ⟨rfl, rfl, rfl⟩
      · exact h.shaped j
    numbers := by
      intro n
      have hold := h.numbers n
      have hsame : (q.runItem i item).finished n = q.finished n := rfl
      rw [hlive, hsame]
      exact hold
    ids := by
      intro s
      rw [hlive]
      exact h.ids s
    retrying := by
      intro x hx s hs
      apply List.mem_filter.mpr
      refine ⟨h.retrying x hx s hs, ?_⟩
      rw [decide_eq_true_eq]
      exact fun heq => h.hand_key heq x hx hs
    pendingReady := by
      intro j x hx
      rw [hobjects] at hx
      split_ifs at hx with hij
      · exact hpending i x hx
      · exact hpending j x hx
    currentRan := by
      intro j x hx
      rw [hobjects] at hx
      split_ifs at hx with hij
      · obtain rfl : item = x := Option.some.inj hx
        refine ⟨?_, hready.2⟩
        rw [starts_runItem, if_pos rfl, hready.1]
      · have hne := hlanes j x (List.mem_append_left _ (by rw [hx]; exact List.mem_singleton_self x))
        unfold Ran
        rw [hstarts x hne]
        exact h.currentRan j x hx
    waitingReady := by
      intro x hx
      unfold Ready
      rw [hstarts x (hwaiting x hx)]
      exact h.waitingReady x hx
    limited := by
      intro n
      have := h.limited n
      have := hready.1
      have := hready.2
      rw [starts_runItem]
      split_ifs with hn
      · subst hn
        omega
      · omega
    unstarted := by
      intro n hn
      change q.metrics.enqueued ≤ n at hn
      rw [starts_runItem, h.unstarted n hn, if_neg]
      omega
    gone := by
      intro x hx
      have hold : .gaveUp x ∈ q.history := by
        rcases List.mem_cons.mp hx with heq | hmem
        · cases heq
        · exact hmem
      have hne : x.number ≠ item.number := by
        intro heq
        have hpos : 0 < q.finished item.number :=
          List.countP_pos_iff.mpr ⟨_, hold, decide_eq_true heq⟩
        omega
      rw [hstarts x hne]
      exact h.gone x hold }

theorem Placed.exists_laneOf (h : q.Placed hand) {x : QueueItem} (hx : x ∈ (q.objects i).items) :
    ∃ k, q.laneOf k = some i := by
  by_contra hnone
  push Not at hnone
  rw [h.unmapped i hnone] at hx
  cases hx

theorem mem_mapped (hi : q.laneOf k = some i) : q.objects i ∈ q.mapped :=
  List.mem_map.mpr ⟨⟨k, i⟩, AList.mem_lookup_iff.mp hi, rfl⟩

theorem QueueItem.key_eq_some {x : QueueItem} {s : String} :
    x.key = some s ↔ x.id = some s ∧ s ≠ "" := by
  unfold QueueItem.key
  rw [Option.filter_eq_some_iff, decide_eq_true_eq]

/-- What is not found by its identifier is not live. -/
theorem Placed.live_of_hasQueuedId (h : q.Placed none) {s : String}
    (hnot : q.hasQueuedId s = false) : q.live (fun x => decide (x.key = some s)) = 0 := by
  unfold hasQueuedId at hnot
  rw [Bool.or_eq_false_iff] at hnot
  obtain ⟨hretrying, hmapped⟩ := hnot
  rw [live_eq_zero_iff fun i => h.fresh_of_le]
  refine ⟨fun i x hx => ?_, fun x hx => ?_⟩
  · obtain ⟨k, hk⟩ := h.exists_laneOf hx
    have hlane := List.any_eq_false.mp hmapped _ (mem_mapped hk)
    simp only [Bool.or_eq_true, not_or, Bool.not_eq_true, List.any_eq_false] at hlane
    rw [decide_eq_false_iff_not, QueueItem.key_eq_some]
    rintro ⟨hid, hne⟩
    rcases List.mem_append.mp hx with hcurrent | hpending
    · rw [Option.mem_toList.mp hcurrent, Option.any_some, decide_eq_false_iff_not] at hlane
      exact hlane.1 hid
    · have := hlane.2 x hpending
      simp [hid] at this
  · rw [decide_eq_false_iff_not]
    intro hkey
    have hmem := h.retrying x hx s hkey
    rw [List.contains_eq_mem, decide_eq_false_iff_not] at hretrying
    exact hretrying hmem

theorem Placed.accept (h : q.Placed none) (id : Option String) (k : String)
    (hfree : ∀ s, QueueItem.key ⟨q.metrics.enqueued, id, k, 0⟩ = some s →
      q.live (fun x => decide (x.key = some s)) = 0) :
    ({ q with
        metrics := { q.metrics with enqueued := q.metrics.enqueued + 1 }
        history := .accepted ⟨q.metrics.enqueued, id, k, 0⟩ :: q.history } : AgentQueue).Placed
      (some ⟨q.metrics.enqueued, id, k, 0⟩) := by
  exact { h with
    numbers := by
      intro n
      have hold := h.numbers n
      change q.live _ + _ + q.finished n = if n < q.metrics.enqueued + 1 then 1 else 0
      change q.live _ + 0 + q.finished n = _ at hold
      simp only [Option.toList_some, List.countP_cons, List.countP_nil, decide_eq_true_eq]
      split_ifs at hold ⊢ <;> omega
    ids := by
      intro s
      have hold := h.ids s
      change q.live _ + 0 ≤ 1 at hold
      change q.live _ + _ ≤ 1
      simp only [Option.toList_some, List.countP_cons, List.countP_nil, decide_eq_true_eq]
      split_ifs with hs
      · rw [hfree s hs]
      · exact hold
    unstarted := fun n hn => h.unstarted n (Nat.le_of_succ_le hn)
    gone := by
      intro x hx
      rcases List.mem_cons.mp hx with heq | hmem
      · cases heq
      · exact h.gone x hmem }

/-- Taking out the one entry with a given timer. -/
theorem perm_filter_timer {timers : List RetryTimer} {t : RetryTimer}
    (hnodup : (timers.map RetryTimer.timer).Nodup) (ht : t ∈ timers) :
    (timers.map RetryTimer.item).Perm
      (t.item :: (timers.filter fun u => decide (u.timer ≠ t.timer)).map RetryTimer.item) := by
  induction timers with
  | nil => cases ht
  | cons u rest ih =>
      rw [List.map_cons, List.nodup_cons] at hnodup
      rcases List.mem_cons.mp ht with rfl | hrest
      · have hkeep : rest.filter (fun u => decide (u.timer ≠ t.timer)) = rest := by
          rw [List.filter_eq_self]
          intro v hv
          rw [decide_eq_true_eq]
          intro heq
          exact hnodup.1 (heq ▸ List.mem_map_of_mem hv)
        rw [List.filter_cons_of_neg (by simp), hkeep]
        rfl
      · have hne : u.timer ≠ t.timer := by
          intro heq
          exact hnodup.1 (heq ▸ List.mem_map_of_mem hrest)
        rw [List.filter_cons_of_pos (by simpa using hne), List.map_cons, List.map_cons]
        exact ((ih hnodup.2 hrest).cons _).trans (List.Perm.swap _ _ _)

theorem Placed.takeTimer {t : RetryTimer} (h : q.Placed none) (ht : t ∈ q.retryTimers) :
    ({ q with retryTimers := q.retryTimers.filter fun u => decide (u.timer ≠ t.timer) } :
      AgentQueue).Placed (some t.item) := by
  have hperm := perm_filter_timer h.distinct ht
  have hlive : ∀ p, ({ q with
      retryTimers := q.retryTimers.filter fun u => decide (u.timer ≠ t.timer) } :
        AgentQueue).live p + [t.item].countP p = q.live p := by
    intro p
    have hcount : q.waiting.countP p = _ := hperm.countP_eq p
    rw [List.countP_cons] at hcount
    unfold live
    rw [hcount, List.countP_cons, List.countP_nil]
    unfold waiting
    dsimp only
    omega
  have hsub : ∀ x ∈ ({ q with
      retryTimers := q.retryTimers.filter fun u => decide (u.timer ≠ t.timer) } :
        AgentQueue).waiting, x ∈ q.waiting := by
    intro x hx
    exact hperm.symm.subset (List.mem_cons_of_mem _ hx)
  exact { h with
    numbers := by
      intro n
      rw [Option.toList_some, hlive]
      exact h.numbers n
    ids := by
      intro s
      rw [Option.toList_some, hlive]
      exact h.ids s
    retrying := fun x hx => h.retrying x (hsub x hx)
    timed := fun u hu => h.timed u (List.mem_filter.mp hu).1
    distinct := h.distinct.sublist (List.filter_sublist.map _)
    waitingReady := fun x hx => h.waitingReady x (hsub x hx) }

theorem Placed.forgetRetrying (h : q.Placed (some item)) :
    (q.forgetRetrying item).Placed (some item) := by
  exact { h with
    retrying := by
      intro x hx s hs
      apply List.mem_filter.mpr
      refine ⟨h.retrying x hx s hs, ?_⟩
      rw [decide_eq_true_eq]
      exact fun heq => h.hand_key heq x hx hs }

theorem Placed.popPending {next : QueueItem} {rest : List QueueItem} (h : q.Placed none)
    (hi : q.laneOf k = some i) (hlane : q.objects i = ⟨false, next :: rest, none, none⟩) :
    (q.setLane i ⟨false, rest, none, none⟩).Placed (some next) := by
  have hitems : (q.objects i).items = next :: rest := by rw [hlane]; rfl
  refine h.setLane hi (.inr ⟨rfl, rfl, rfl⟩) (fun x hx => ?_) (fun p => ?_) (fun x hx => ?_) ?_
  · apply h.keyed k i hi x
    rw [hitems]
    exact List.mem_cons_of_mem _ hx
  · rw [hlane]
    unfold LaneState.count
    rw [List.countP_cons, Option.toList_some, List.countP_cons, List.countP_nil]
    simp only [Option.toList_none, List.countP_nil]
    omega
  · apply h.pendingReady i x
    rw [hlane]
    exact List.mem_cons_of_mem _ hx
  · intro x hx
    cases hx

/-- The lane object is left without a current item. -/
def vacate (i : ℕ) (q : AgentQueue) : AgentQueue :=
  q.setLane i { q.objects i with running := false, current := none, runningPromise := none }

theorem Placed.vacate (h : q.Placed none) (hi : q.laneOf k = some i)
    (hcurrent : (q.objects i).current = some item) : (q.vacate i).Placed (some item) := by
  refine h.setLane hi (.inr ⟨rfl, rfl, rfl⟩) (fun x hx => ?_) (fun p => ?_)
    (h.pendingReady i) (fun x hx => ?_)
  · exact h.keyed k i hi x (List.mem_append_right _ hx)
  · unfold LaneState.count
    rw [hcurrent]
    simp only [Option.toList_none, Option.toList_some, List.countP_nil]
    omega
  · cases hx

theorem Placed.finish {event : QueueEvent} {q' : AgentQueue} (h : q.Placed (some item))
    (hevent : event = .succeeded item ∨ event = .gaveUp item)
    (hran : q.starts item.number = item.retries + 1) (hq : q' = q.record event) :
    q'.Placed none := by
  subst hq
  have hstarts : ∀ n, (q.record event).starts n = q.starts n := by
    intro n
    unfold starts record
    rcases hevent with rfl | rfl <;> exact List.countP_cons_of_neg Bool.false_ne_true
  have hfinished : ∀ n, (q.record event).finished n = q.finished n +
      [item].countP fun x => decide (x.number = n) := by
    intro n
    unfold finished record
    rw [List.countP_cons, List.countP_cons, List.countP_nil]
    rw [zero_add]
    rcases hevent with rfl | rfl <;> rfl
  exact { h with
    numbers := by
      intro n
      have hold := h.numbers n
      rw [Option.toList_some] at hold
      rw [hfinished, Option.toList_none, List.countP_nil]
      change q.live _ + 0 + _ = _
      change _ = if n < q.metrics.enqueued then 1 else 0
      omega
    ids := by
      intro s
      have hold := h.ids s
      change q.live _ + 0 ≤ 1
      omega
    gone := by
      intro x hx
      rw [hstarts]
      rcases List.mem_cons.mp hx with heq | hmem
      · rcases hevent with rfl | rfl
        · cases heq
        · cases heq
          exact hran
      · exact h.gone x hmem
    pendingReady := fun j x hx => by
      unfold Ready
      rw [hstarts]
      exact h.pendingReady j x hx
    currentRan := fun j x hx => by
      unfold Ran
      rw [hstarts]
      exact h.currentRan j x hx
    waitingReady := fun x hx => by
      unfold Ready
      rw [hstarts]
      exact h.waitingReady x hx
    limited := fun n => by
      rw [hstarts]
      exact h.limited n
    unstarted := fun n hn => by
      rw [hstarts]
      exact h.unstarted n hn }

theorem Placed.scheduleRetry (h : q.Placed (some item)) (hran : q.Ran item) :
    (q.scheduleRetry item).Placed none := by
  unfold AgentQueue.scheduleRetry
  split_ifs with hretry
  · exact h.finish (.inr rfl) hran.1 rfl
  · have hlt : item.retries < defaultMaxRetries := by
      unfold shouldRetry at hretry
      grind
    have hwaiting : ∀ t : ℕ,
        (q.retryTimers ++ [RetryTimer.mk t { item with retries := item.retries + 1 } true]).map
          RetryTimer.item = q.waiting ++ [{ item with retries := item.retries + 1 }] := by
      intro t
      rw [List.map_append]
      rfl
    have hcount : ∀ t p, p { item with retries := item.retries + 1 } = p item →
        ((q.retryTimers ++ [RetryTimer.mk t { item with retries := item.retries + 1 } true]).map
          RetryTimer.item).countP p = q.waiting.countP p + [item].countP p := by
      intro t p hp
      rw [hwaiting, List.countP_append, List.countP_cons, List.countP_cons, hp]
    exact { h with
      numbers := by
        intro n
        have hold := h.numbers n
        change _ + _ + q.finished n = if n < q.metrics.enqueued then 1 else 0
        rw [← hold]
        unfold live waiting
        dsimp only
        rw [hcount _ _ rfl, Option.toList_some, Option.toList_none, List.countP_nil]
        unfold waiting
        omega
      ids := by
        intro s
        have hold := h.ids s
        unfold live waiting at hold ⊢
        dsimp only
        rw [hcount _ _ rfl, Option.toList_none, List.countP_nil]
        rw [Option.toList_some] at hold
        unfold waiting
        omega
      retrying := by
        intro x hx s hs
        change x ∈ List.map _ _ at hx
        rw [hwaiting] at hx
        apply List.mem_append.mpr
        rcases List.mem_append.mp hx with hold | hnew
        · exact .inr (h.retrying x hold s hs)
        · rw [List.mem_singleton.mp hnew] at hs
          exact .inl (Option.mem_toList.mpr hs)
      timed := by
        intro t ht
        change t ∈ q.retryTimers ++ [_] at ht
        change t.timer < q.timers + 1
        rcases List.mem_append.mp ht with hold | hnew
        · have := h.timed t hold
          omega
        · rw [List.mem_singleton.mp hnew]
          exact Nat.lt_succ_self _
      distinct := by
        dsimp only
        rw [List.map_append, List.nodup_append]
        refine ⟨h.distinct, List.nodup_singleton _, ?_⟩
        intro n hn m hm
        obtain ⟨t, ht, rfl⟩ := List.mem_map.mp hn
        have := h.timed t ht
        obtain rfl : m = q.timers := List.mem_singleton.mp hm
        omega
      waitingReady := by
        intro x hx
        change x ∈ List.map _ _ at hx
        rw [hwaiting] at hx
        rcases List.mem_append.mp hx with hold | hnew
        · exact h.waitingReady x hold
        · rw [List.mem_singleton.mp hnew]
          exact ⟨⟨hran.1, hlt⟩, Nat.succ_pos _⟩ }

theorem laneOf_erase (k' : String) : AList.lookup k' (q.lanes.erase k) =
    if k' = k then none else q.laneOf k' := by
  by_cases hkk : k' = k
  · rw [if_pos hkk, hkk, AList.lookup_erase]
  · rw [if_neg hkk, AList.lookup_erase_ne hkk]
    rfl

theorem Placed.removeLaneIfIdle (h : q.Placed hand) (k : String) :
    (q.removeLaneIfIdle k).Placed hand := by
  unfold AgentQueue.removeLaneIfIdle
  cases hk : q.laneOf k with
  | none => exact h
  | some i =>
    dsimp only
    split_ifs with hidle
    · have hsub : ∀ k' j, AList.lookup k' (q.lanes.erase k) = some j → q.laneOf k' = some j := by
        intro k' j hj
        rw [laneOf_erase] at hj
        split_ifs at hj
        exact hj
      exact { h with
        unmapped := by
          intro j hj
          by_cases hji : j = i
          · rw [hji]
            exact (LaneState.idle_iff _).mp hidle
          · apply h.unmapped
            intro k' hk'
            apply hj k'
            change AList.lookup k' _ = _
            rw [laneOf_erase, if_neg]
            · exact hk'
            · rintro rfl
              rw [hk] at hk'
              exact hji (Option.some.inj hk').symm
        bounded := fun k' j hj => h.bounded k' j (hsub k' j hj)
        apart := fun k₁ k₂ j h₁ h₂ => h.apart k₁ k₂ j (hsub k₁ j h₁) (hsub k₂ j h₂)
        keyed := fun k' j hj => h.keyed k' j (hsub k' j hj) }
    · exact h

end AgentQueue

end Piclaw
