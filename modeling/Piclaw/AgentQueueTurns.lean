import Piclaw.AgentQueueInvariant

/-!
# The turns of the agent queue

The remaining parts of the invariant: the order in which first attempts start, the lanes that rest,
the tasks that belong to running lanes, and what sealing and shutting down leave behind. Each turn
keeps all of them.
-/

namespace Piclaw

namespace AgentQueue

variable {q : AgentQueue} {i : ℕ} {item : QueueItem} {k : String} {hand : Option QueueItem}

/-! ## The order of first attempts -/

def handFresh (hand : Option QueueItem) (k : String) : List ℕ :=
  firstAttempts (hand.toList.filter fun x => decide (x.laneKey = k))

/-- First attempts start in the order in which their items were accepted: the accepted items of a
lane are the started ones, then the pending ones, then the one in hand. -/
def Ordered (hand : Option QueueItem) (q : AgentQueue) : Prop :=
  ∀ k, q.acceptedIn k = handFresh hand k ++ (q.freshIn k).reverse ++ q.firstStarts k

theorem freshIn_of_laneOf (hi : q.laneOf k = some i) :
    q.freshIn k = firstAttempts (q.objects i).pending := by
  unfold freshIn
  rw [hi]

theorem freshIn_of_none (hk : q.laneOf k = none) : q.freshIn k = [] := by
  unfold freshIn
  rw [hk]

theorem freshIn_update (q' : AgentQueue) {lane : LaneState} (h : q.Placed hand)
    (hi : q.laneOf k = some i) (hlanes : q'.lanes = q.lanes)
    (hobjects : q'.objects = Function.update q.objects i lane) (k' : String) :
    q'.freshIn k' = if k' = k then firstAttempts lane.pending else q.freshIn k' := by
  have hlaneOf : ∀ k, q'.laneOf k = q.laneOf k := fun k => by unfold laneOf; rw [hlanes]
  unfold freshIn
  rw [hlaneOf, hobjects]
  split_ifs with hkk
  · rw [hkk, hi]
    dsimp only
    rw [Function.update_self]
  · cases hk' : q.laneOf k' with
    | none => rfl
    | some j =>
      dsimp only
      rw [Function.update_of_ne]
      rintro rfl
      exact hkk (h.apart _ _ _ hk' hi)

theorem handFresh_of_retried (hretried : 0 < item.retries) (k : String) :
    handFresh (some item) k = [] := by
  unfold handFresh firstAttempts
  rw [Option.toList_some]
  simp only [List.filter_cons, List.filter_nil, decide_eq_true_eq]
  split_ifs with hk
  · rw [List.filter_cons_of_neg (by rw [decide_eq_true_eq]; omega)]
    rfl
  · rfl

theorem handFresh_some (k : String) : handFresh (some item) k =
    if item.laneKey = k ∧ item.retries = 0 then [item.number] else [] := by
  unfold handFresh firstAttempts
  rw [Option.toList_some]
  simp only [List.filter_cons, List.filter_nil, decide_eq_true_eq]
  by_cases hk : item.laneKey = k
  · by_cases hr : item.retries = 0 <;> simp [hk, hr]
  · simp [hk]

theorem firstAttempts_append (xs ys : List QueueItem) :
    firstAttempts (xs ++ ys) = firstAttempts xs ++ firstAttempts ys := by
  unfold firstAttempts
  rw [List.filter_append, List.map_append]

theorem firstAttempts_singleton :
    firstAttempts [item] = if item.retries = 0 then [item.number] else [] := by
  unfold firstAttempts
  by_cases hr : item.retries = 0 <;> simp [hr]

theorem Ordered.congr {q' : AgentQueue} (h : q.Ordered hand)
    (haccepted : ∀ k, q'.acceptedIn k = q.acceptedIn k)
    (hstarts : ∀ k, q'.firstStarts k = q.firstStarts k)
    (hfresh : ∀ k, q'.freshIn k = q.freshIn k) : q'.Ordered hand := by
  intro k
  rw [haccepted, hstarts, hfresh]
  exact h k

theorem freshIn_getLane (h : q.Placed hand) (k k' : String) :
    (q.getLane k).1.freshIn k' = q.freshIn k' := by
  unfold getLane
  cases hk : q.laneOf k with
  | some i => rfl
  | none =>
    dsimp only
    unfold freshIn laneOf
    dsimp only
    by_cases hkk : k' = k
    · rw [hkk, AList.lookup_insert]
      dsimp only
      rw [Function.update_self]
      change [] = freshIn k q
      rw [freshIn_of_none hk]
    · rw [AList.lookup_insert_ne hkk]
      cases hk' : q.laneOf k' with
      | none =>
        change AList.lookup k' q.lanes = none at hk'
        rw [hk']
      | some j =>
        have := h.bounded k' j hk'
        change AList.lookup k' q.lanes = some j at hk'
        rw [hk']
        dsimp only
        rw [Function.update_of_ne]
        omega

theorem freshIn_removeLaneIfIdle (k k' : String) :
    (q.removeLaneIfIdle k).freshIn k' = q.freshIn k' := by
  unfold removeLaneIfIdle
  cases hk : q.laneOf k with
  | none => rfl
  | some i =>
    dsimp only
    split_ifs with hidle
    · by_cases hkk : k' = k
      · subst hkk
        rw [freshIn_of_laneOf hk, (LaneState.idle_iff _).mp hidle]
        apply freshIn_of_none
        exact AList.lookup_erase _ _
      · unfold freshIn laneOf
        rw [AList.lookup_erase_ne hkk]
    · rfl

theorem Ordered.pushPending (h : q.Ordered (some item)) (hplaced : q.Placed (some item))
    (hi : q.laneOf item.laneKey = some i) : (q.pushPending i item).Ordered none := by
  intro k
  have hfresh := freshIn_update (q.pushPending i item) hplaced hi rfl rfl k
  change q.acceptedIn k = [] ++ _ ++ q.firstStarts k
  rw [h k, handFresh_some, hfresh]
  split_ifs with hhand hk hk
  · subst hk
    rw [freshIn_of_laneOf hi, firstAttempts_append, firstAttempts_singleton, if_pos hhand.2]
    simp
  · exact absurd hhand.1.symm hk
  · subst hk
    rw [freshIn_of_laneOf hi, firstAttempts_append, firstAttempts_singleton, if_neg]
    · simp
    · exact fun hr => hhand ⟨rfl, hr⟩
  · rfl

theorem firstStarts_runItem (k : String) : (q.runItem i item).firstStarts k =
    handFresh (some item) k ++ q.firstStarts k := by
  change List.filterMap _ (.started item :: q.history) = _
  rw [handFresh_some, List.filterMap_cons]
  split_ifs with h
  · have hstart : QueueEvent.firstStartIn k (.started item) = some item.number := if_pos h
    rw [hstart]
    rfl
  · have hstart : QueueEvent.firstStartIn k (.started item) = none := if_neg h
    rw [hstart]
    rfl

theorem freshIn_runItem (hplaced : q.Placed hand) (hi : q.laneOf item.laneKey = some i)
    (k : String) : (q.runItem i item).freshIn k = q.freshIn k := by
  have hfresh := freshIn_update (q.runItem i item) hplaced hi rfl rfl k
  rw [hfresh]
  split_ifs with hk
  · subst hk
    rw [freshIn_of_laneOf hi]
    rfl
  · rfl

theorem Ordered.runItem (h : q.Ordered (some item)) (hplaced : q.Placed (some item))
    (hi : q.laneOf item.laneKey = some i) (hpending : (q.objects i).pending = []) :
    (q.runItem i item).Ordered none := by
  intro k
  change q.acceptedIn k = [] ++ _ ++ _
  rw [h k, firstStarts_runItem, freshIn_runItem hplaced hi]
  by_cases hk : item.laneKey = k
  · subst hk
    rw [freshIn_of_laneOf hi, hpending]
    change _ ++ [] ++ _ = [] ++ [] ++ (_ ++ _)
    rw [List.append_nil, List.append_nil, List.nil_append]
  · have hnone : handFresh (some item) k = [] := by
      rw [handFresh_some, if_neg]
      exact fun hand => hk hand.1
    rw [hnone]
    rfl

/-- The oldest pending item of a lane leaves it to be started. -/
theorem Ordered.promote {next : QueueItem} {rest : List QueueItem} (h : q.Ordered none)
    (hplaced : q.Placed none) (hi : q.laneOf next.laneKey = some i)
    (hlane : q.objects i = ⟨false, next :: rest, none, none⟩) :
    ((q.setLane i ⟨false, rest, none, none⟩).runItem i next).Ordered none := by
  have hpopped := hplaced.popPending hi hlane
  intro k
  have hfresh := freshIn_update (q.setLane i ⟨false, rest, none, none⟩) hplaced hi rfl rfl k
  change q.acceptedIn k = [] ++ _ ++ _
  rw [firstStarts_runItem, freshIn_runItem hpopped hi, hfresh, h k, handFresh_some]
  change [] ++ _ ++ q.firstStarts k = [] ++ _ ++ (_ ++ q.firstStarts k)
  by_cases hk : k = next.laneKey
  · rw [hk, if_pos rfl, freshIn_of_laneOf hi, hlane]
    have hcons := firstAttempts_append [next] rest
    rw [firstAttempts_singleton] at hcons
    change ((firstAttempts ([next] ++ rest)).reverse ++ _) = _
    rw [hcons]
    by_cases hr : next.retries = 0 <;> simp [hr]
  · rw [if_neg hk, if_neg fun hand => hk hand.1.symm]
    rfl

/-! ## Tasks and lanes -/

/-- The tasks that have not come back are the current items of the running lanes. -/
structure Tasked (q : AgentQueue) : Prop where
  promised : ∀ t ∈ q.tasks, t.promise < q.metrics.started
  distinct : (q.tasks.map QueueTask.promise).Nodup
  running : ∀ t ∈ q.tasks, t.stage ≠ .settled →
    (q.objects t.lane).current = some t.item ∧
      (q.objects t.lane).runningPromise = some t.promise
  owned : ∀ i r, (q.objects i).runningPromise = some r →
    ∃ t ∈ q.tasks, t.lane = i ∧ t.promise = r ∧ t.stage ≠ .settled

theorem Tasked.congr {q' : AgentQueue} (h : q.Tasked) (htasks : q'.tasks = q.tasks)
    (hstarted : q'.metrics.started = q.metrics.started)
    (hcurrent : ∀ i, (q'.objects i).current = (q.objects i).current)
    (hpromise : ∀ i, (q'.objects i).runningPromise = (q.objects i).runningPromise) :
    q'.Tasked := by
  constructor
  · rw [htasks, hstarted]
    exact h.promised
  · rw [htasks]
    exact h.distinct
  · intro t ht
    rw [htasks] at ht
    rw [hcurrent, hpromise]
    exact h.running t ht
  · intro i r hr
    rw [hpromise] at hr
    rw [htasks]
    exact h.owned i r hr

theorem Tasked.getLane (h : q.Tasked) (hplaced : q.Placed hand) (k : String) :
    (q.getLane k).1.Tasked := by
  unfold AgentQueue.getLane
  cases hk : q.laneOf k with
  | some i => exact h
  | none =>
    have hfresh : q.objects q.allocated = .fresh := hplaced.fresh_of_le le_rfl
    have hobjects : Function.update q.objects q.allocated .fresh = q.objects := by
      rw [← hfresh, Function.update_eq_self]
    dsimp only
    rw [hobjects]
    exact h.congr rfl rfl (fun _ => rfl) fun _ => rfl

theorem Tasked.runItem (h : q.Tasked) (hcurrent : (q.objects i).current = none) :
    (q.runItem i item).Tasked := by
  have hobjects : ∀ j, (q.runItem i item).objects j =
      if j = i then ⟨true, (q.objects i).pending, some item, some q.metrics.started⟩
      else q.objects j := fun j => Function.update_apply q.objects i _ j
  have htasks : (q.runItem i item).tasks =
      q.tasks ++ [⟨q.metrics.started, i, item, .starting⟩] := rfl
  have hother : ∀ t ∈ q.tasks, t.stage ≠ .settled → t.lane ≠ i := by
    intro t ht hstage heq
    have hrunning := (h.running t ht hstage).1
    rw [heq, hcurrent] at hrunning
    cases hrunning
  constructor
  · intro t ht
    change t.promise < q.metrics.started + 1
    rw [htasks] at ht
    rcases List.mem_append.mp ht with hold | hnew
    · have := h.promised t hold
      omega
    · rw [List.mem_singleton.mp hnew]
      exact Nat.lt_succ_self _
  · rw [htasks, List.map_append, List.nodup_append]
    refine ⟨h.distinct, List.nodup_singleton _, ?_⟩
    intro n hn m hm
    obtain ⟨t, ht, rfl⟩ := List.mem_map.mp hn
    have := h.promised t ht
    obtain rfl : m = q.metrics.started := List.mem_singleton.mp hm
    omega
  · intro t ht hstage
    rw [htasks] at ht
    rw [hobjects]
    rcases List.mem_append.mp ht with hold | hnew
    · rw [if_neg (hother t hold hstage)]
      exact h.running t hold hstage
    · rw [List.mem_singleton.mp hnew, if_pos rfl]
      exact ⟨rfl, rfl⟩
  · intro j r hr
    rw [hobjects] at hr
    rw [htasks]
    split_ifs at hr with hji
    · refine ⟨_, List.mem_append_right _ (List.mem_singleton_self _), hji.symm, ?_, ?_⟩
      · exact Option.some.inj hr
      · intro heq
        cases heq
    · obtain ⟨t, ht, hlane⟩ := h.owned j r hr
      exact ⟨t, List.mem_append_left _ ht, hlane⟩

theorem mem_setStage {run : ℕ} {stage : TaskStage} {t : QueueTask} :
    t ∈ (q.setStage run stage).tasks ↔
      ∃ u ∈ q.tasks, t = if u.promise = run then { u with stage := stage } else u := by
  unfold setStage
  rw [List.mem_map]
  constructor
  · rintro ⟨u, hu, rfl⟩
    exact ⟨u, hu, rfl⟩
  · rintro ⟨u, hu, rfl⟩
    exact ⟨u, hu, rfl⟩

theorem promises_setStage (run : ℕ) (stage : TaskStage) :
    (q.setStage run stage).tasks.map QueueTask.promise = q.tasks.map QueueTask.promise := by
  unfold setStage
  rw [List.map_map]
  apply List.map_congr_left
  intro t _
  dsimp only [Function.comp]
  split_ifs <;> rfl

theorem Tasked.eq_of_promise (h : q.Tasked) {t u : QueueTask} (ht : t ∈ q.tasks)
    (hu : u ∈ q.tasks) (heq : t.promise = u.promise) : t = u :=
  List.inj_on_of_nodup_map h.distinct ht hu heq

theorem findTask_eq_some {run : ℕ} {stage : TaskStage} {t : QueueTask}
    (hfind : q.findTask run stage = some t) :
    t ∈ q.tasks ∧ t.promise = run ∧ t.stage = stage := by
  have hcond := List.find?_some hfind
  rw [Bool.and_eq_true, decide_eq_true_eq, decide_eq_true_eq] at hcond
  exact ⟨List.mem_of_find?_eq_some hfind, hcond⟩

theorem Tasked.startTask (h : q.Tasked) (run : ℕ) : (q.startTask run).Tasked := by
  unfold AgentQueue.startTask
  cases hfind : q.findTask run .starting with
  | none => exact h
  | some task =>
    obtain ⟨hmem, hrun, hstage⟩ := findTask_eq_some hfind
    dsimp only
    constructor
    · intro t ht
      obtain ⟨u, hu, rfl⟩ := mem_setStage.mp ht
      have := h.promised u hu
      split_ifs <;> exact this
    · rw [promises_setStage]
      exact h.distinct
    · intro t ht hsettled
      obtain ⟨u, hu, rfl⟩ := mem_setStage.mp ht
      by_cases hu' : u.promise = run
      · obtain rfl := h.eq_of_promise hu hmem (hu'.trans hrun.symm)
        rw [if_pos hu']
        refine h.running u hu ?_
        rw [hstage]
        intro heq
        cases heq
      · rw [if_neg hu'] at hsettled ⊢
        exact h.running u hu hsettled
    · intro i r hr
      obtain ⟨t, ht, hlane, hpromise, hsettled⟩ := h.owned i r hr
      refine ⟨_, mem_setStage.mpr ⟨t, ht, rfl⟩, ?_⟩
      split_ifs
      · refine ⟨hlane, hpromise, ?_⟩
        intro heq
        cases heq
      · exact ⟨hlane, hpromise, hsettled⟩

/-- A task comes back and leaves its lane object. -/
theorem Tasked.settle {task : QueueTask} (h : q.Tasked) (hmem : task ∈ q.tasks)
    (hstage : task.stage ≠ .settled) :
    ((q.setStage task.promise .settled).vacate task.lane).Tasked := by
  have hlane := h.running task hmem hstage
  have hobjects : ∀ j, ((q.setStage task.promise .settled).vacate task.lane).objects j =
      if j = task.lane then ⟨false, (q.objects task.lane).pending, none, none⟩
      else q.objects j := fun j => Function.update_apply q.objects task.lane _ j
  have htasks : ((q.setStage task.promise .settled).vacate task.lane).tasks =
      (q.setStage task.promise .settled).tasks := rfl
  constructor
  · intro t ht
    obtain ⟨u, hu, rfl⟩ := mem_setStage.mp ht
    have := h.promised u hu
    split_ifs <;> exact this
  · rw [htasks, promises_setStage]
    exact h.distinct
  · intro t ht hsettled
    obtain ⟨u, hu, rfl⟩ := mem_setStage.mp ht
    by_cases hpromise : u.promise = task.promise
    · rw [if_pos hpromise] at hsettled
      exact absurd rfl hsettled
    · rw [if_neg hpromise] at hsettled ⊢
      have hold := h.running u hu hsettled
      rw [hobjects, if_neg]
      · exact hold
      · intro heq
        rw [heq, hlane.2] at hold
        exact hpromise (Option.some.inj hold.2).symm
  · intro j r hr
    rw [hobjects] at hr
    split_ifs at hr with hj
    obtain ⟨t, ht, htl, hpromise, hsettled⟩ := h.owned j r hr
    refine ⟨_, mem_setStage.mpr ⟨t, ht, rfl⟩, ?_⟩
    rw [if_neg]
    · exact ⟨htl, hpromise, hsettled⟩
    · intro heq
      rw [h.eq_of_promise ht hmem heq] at htl
      exact hj htl.symm

theorem Tasked.resolve {task : QueueTask} (h : q.Tasked) (hmem : task ∈ q.tasks)
    (hstage : task.stage = .settled) :
    ({ q with tasks := q.tasks.filter fun t => decide (t.promise ≠ task.promise) } :
      AgentQueue).Tasked := by
  have hsub : ∀ t, t ∈ q.tasks.filter (fun t => decide (t.promise ≠ task.promise)) ↔
      t ∈ q.tasks ∧ t.promise ≠ task.promise := by
    intro t
    rw [List.mem_filter, decide_eq_true_eq]
  constructor
  · exact fun t ht => h.promised t ((hsub t).mp ht).1
  · exact h.distinct.sublist (List.filter_sublist.map _)
  · exact fun t ht => h.running t ((hsub t).mp ht).1
  · intro i r hr
    obtain ⟨t, ht, hlane, hpromise, hsettled⟩ := h.owned i r hr
    refine ⟨t, (hsub t).mpr ⟨ht, ?_⟩, hlane, hpromise, hsettled⟩
    intro heq
    rw [h.eq_of_promise ht hmem heq] at hsettled
    exact hsettled hstage

/-- Before a shutdown a lane that does not run has nothing pending. -/
def Resting (q : AgentQueue) : Prop :=
  q.shuttingDown = false → ∀ i, (q.objects i).running = false → (q.objects i).pending = []

/-- What holds of lanes and items in every state. -/
structure Core (q : AgentQueue) : Prop where
  placed : q.Placed none
  ordered : q.Ordered none
  tasked : q.Tasked
  resting : q.Resting
  counted : q.history.filterMap QueueEvent.acceptedNumber = (List.range q.metrics.enqueued).reverse

theorem Placed.promise_of_current (h : q.Placed hand) (hcurrent : (q.objects i).current = none) :
    (q.objects i).running = false ∧ (q.objects i).runningPromise = none := by
  rcases h.shaped i with ⟨_, hsome, _⟩ | ⟨hrunning, _, hpromise⟩
  · rw [hcurrent] at hsome
    cases hsome
  · exact ⟨hrunning, hpromise⟩

theorem Placed.current_of_running (h : q.Placed hand) (hrunning : (q.objects i).running = false) :
    (q.objects i).current = none := by
  rcases h.shaped i with ⟨htrue, _⟩ | ⟨_, hcurrent, _⟩
  · rw [hrunning] at htrue
    cases htrue
  · exact hcurrent

/-- An item in hand is let into its lane. -/
theorem Core.admitItem (hplaced : q.Placed (some item)) (hordered : q.Ordered (some item))
    (htasked : q.Tasked) (hresting : q.Resting) (hopen : q.shuttingDown = false)
    (hcounted : q.history.filterMap QueueEvent.acceptedNumber =
      (List.range q.metrics.enqueued).reverse)
    (hi : q.laneOf item.laneKey = some i) (hready : q.Ready item) : (q.admitItem i item).Core := by
  unfold AgentQueue.admitItem
  split_ifs with hrunning
  · have hobjects : ∀ j, (q.pushPending i item).objects j =
        if j = i then { q.objects i with pending := (q.objects i).pending ++ [item] }
        else q.objects j := fun j => Function.update_apply q.objects i _ j
    refine ⟨hplaced.pushPending hi hready, hordered.pushPending hplaced hi, ?_, ?_, hcounted⟩
    · refine htasked.congr rfl rfl (fun j => ?_) fun j => ?_ <;>
      · rw [hobjects]
        split_ifs with hji
        · rw [hji]
        · rfl
    · intro hdown j hj
      rw [hobjects] at hj ⊢
      split_ifs at hj ⊢ with hji
      · rw [show (q.objects i).running = true from hrunning] at hj
        cases hj
      · exact hresting hdown j hj
  · rw [Bool.not_eq_true] at hrunning
    have hcurrent := hplaced.current_of_running hrunning
    have hpending := hresting hopen i hrunning
    have hobjects : ∀ j, (q.runItem i item).objects j =
        if j = i then ⟨true, (q.objects i).pending, some item, some q.metrics.started⟩
        else q.objects j := fun j => Function.update_apply q.objects i _ j
    refine ⟨hplaced.runItem hi hcurrent hready, hordered.runItem hplaced hi hpending,
      htasked.runItem hcurrent, ?_, hcounted⟩
    intro hdown j hj
    rw [hobjects] at hj ⊢
    split_ifs at hj ⊢ with hji
    exact hresting hdown j hj

theorem getLane_frame (q : AgentQueue) (k : String) :
    (q.getLane k).1.history = q.history ∧ (q.getLane k).1.metrics = q.metrics ∧
      (q.getLane k).1.shuttingDown = q.shuttingDown ∧
      (q.getLane k).1.retryTimers = q.retryTimers := by
  unfold getLane
  cases q.laneOf k <;> exact ⟨rfl, rfl, rfl, rfl⟩

theorem objects_getLane (h : q.Placed hand) (k : String) :
    (q.getLane k).1.objects = q.objects := by
  unfold getLane
  cases hk : q.laneOf k with
  | some i => rfl
  | none =>
    dsimp only
    rw [← h.fresh_of_le le_rfl, Function.update_eq_self]

theorem live_getLane (h : q.Placed hand) (k : String) (p : QueueItem → Bool) :
    (q.getLane k).1.live p = q.live p := by
  have hobjects := objects_getLane h k
  unfold live waiting
  rw [hobjects, (getLane_frame q k).2.2.2]
  unfold getLane
  cases hk : q.laneOf k with
  | some i => rfl
  | none =>
    dsimp only
    rw [Finset.sum_range_succ, h.fresh_of_le le_rfl]
    rfl

theorem Ordered.getLane (h : q.Ordered hand) (hplaced : q.Placed hand) (k : String) :
    (q.getLane k).1.Ordered hand := by
  obtain ⟨hhistory, _⟩ := getLane_frame q k
  apply h.congr
  · intro k'
    unfold acceptedIn
    rw [hhistory]
  · intro k'
    unfold firstStarts
    rw [hhistory]
  · exact freshIn_getLane hplaced k

theorem Core.getLane (h : q.Core) (k : String) : (q.getLane k).1.Core := by
  obtain ⟨hhistory, hmetrics, hdown, _⟩ := getLane_frame q k
  refine ⟨h.placed.getLane k, h.ordered.getLane h.placed k, h.tasked.getLane h.placed k, ?_, ?_⟩
  · unfold Resting
    rw [hdown, objects_getLane h.placed]
    exact h.resting
  · rw [hhistory, hmetrics]
    exact h.counted

theorem Core.acceptItem {id : Option String} (h : q.Core) (hopen : q.shuttingDown = false)
    (hi : q.laneOf k = some i)
    (hfree : ∀ s, QueueItem.key ⟨q.metrics.enqueued, id, k, 0⟩ = some s →
      q.live (fun x => decide (x.key = some s)) = 0) :
    (q.acceptItem i ⟨q.metrics.enqueued, id, k, 0⟩).Core := by
  have hunstarted : q.starts q.metrics.enqueued = 0 := h.placed.unstarted _ le_rfl
  refine Core.admitItem (h.placed.accept id k hfree) ?_
    (h.tasked.congr rfl rfl (fun _ => rfl) fun _ => rfl) h.resting hopen ?_ hi
    ⟨hunstarted, Nat.zero_le _⟩
  · intro k'
    have hold := h.ordered k'
    change q.acceptedIn k' = [] ++ _ ++ _ at hold
    rw [List.nil_append] at hold
    change List.filterMap _ (.accepted _ :: q.history) =
      _ ++ (q.freshIn k').reverse ++ q.firstStarts k'
    rw [handFresh_some, List.filterMap_cons, List.append_assoc, ← hold]
    by_cases hk : k = k'
    · have hevent : QueueEvent.acceptedIn k' (.accepted ⟨q.metrics.enqueued, id, k, 0⟩) =
          some q.metrics.enqueued := if_pos hk
      rw [if_pos ⟨hk, rfl⟩, hevent]
      rfl
    · have hevent : QueueEvent.acceptedIn k' (.accepted ⟨q.metrics.enqueued, id, k, 0⟩) = none :=
        if_neg hk
      rw [if_neg fun hand => hk hand.1, hevent]
      rfl
  · change _ :: List.filterMap QueueEvent.acceptedNumber q.history =
      (List.range (q.metrics.enqueued + 1)).reverse
    rw [List.range_succ, List.reverse_append, h.counted]
    rfl

theorem Core.enqueue (h : q.Core) (admits : Bool) (id laneKey : Option String) :
    (q.enqueue admits id laneKey).Core := by
  unfold AgentQueue.enqueue
  split_ifs with hclosed hdup
  · exact h
  · exact ⟨h.placed.congr rfl rfl rfl rfl rfl rfl rfl rfl (fun _ => rfl) (fun _ => rfl)
      fun _ hx => hx, h.ordered, h.tasked.congr rfl rfl (fun _ => rfl) fun _ => rfl, h.resting,
      h.counted⟩
  · obtain ⟨_, hmetrics, hdown, _⟩ := getLane_frame q (resolveLaneKey laneKey)
    have hopen : q.shuttingDown = false := by
      cases hdown : q.shuttingDown with
      | false => rfl
      | true => exact absurd (.inr (.inr hdown)) hclosed
    have hcore := h.getLane (resolveLaneKey laneKey)
    dsimp only
    rw [← hmetrics]
    apply hcore.acceptItem (hdown.trans hopen) laneOf_getLane
    intro s hs
    rw [live_getLane h.placed]
    apply h.placed.live_of_hasQueuedId
    change Option.filter _ id = some s at hs
    rw [hs] at hdup
    exact Bool.not_eq_true _ ▸ hdup

/-! ## The turns keep the core -/

/-- The events that concern no item. -/
def Marker (event : QueueEvent) : Prop := event = .sealed ∨ event = .drained

theorem filterMap_markers {α : Type} {marks events : List QueueEvent} {f : QueueEvent → Option α}
    (hmarks : ∀ e ∈ marks, Marker e) (hsealed : f .sealed = none) (hdrained : f .drained = none) :
    (marks ++ events).filterMap f = events.filterMap f := by
  rw [List.filterMap_append, List.filterMap_eq_nil_iff.mpr, List.nil_append]
  intro e he
  rcases hmarks e he with rfl | rfl
  · exact hsealed
  · exact hdrained

theorem countP_markers {marks events : List QueueEvent} {f : QueueEvent → Bool}
    (hmarks : ∀ e ∈ marks, Marker e) (hsealed : f .sealed = false) (hdrained : f .drained = false) :
    (marks ++ events).countP f = events.countP f := by
  rw [List.countP_append, List.countP_eq_zero.mpr, zero_add]
  intro e he
  rcases hmarks e he with rfl | rfl
  · simp [hsealed]
  · simp [hdrained]

/-- Two queues that differ in what concerns sealing and shutting down only. -/
structure SameWork (q q' : AgentQueue) : Prop where
  lanes : q'.lanes = q.lanes
  objects : q'.objects = q.objects
  allocated : q'.allocated = q.allocated
  waiting : q'.waiting = q.waiting
  timers : q'.retryTimers.map RetryTimer.timer = q.retryTimers.map RetryTimer.timer
  bound : q'.timers = q.timers
  retrying : q'.retryingIds = q.retryingIds
  metrics : q'.metrics = q.metrics
  tasks : q'.tasks = q.tasks
  history : ∃ marks, q'.history = marks ++ q.history ∧ ∀ e ∈ marks, Marker e

theorem SameWork.refl (q : AgentQueue) : q.SameWork q := by
  refine ⟨rfl, rfl, rfl, rfl, rfl, rfl, rfl, rfl, rfl, [], rfl, ?_⟩
  intro e he
  cases he

theorem SameWork.live {q' : AgentQueue} (same : q.SameWork q') (p : QueueItem → Bool) :
    q'.live p = q.live p := by
  unfold AgentQueue.live
  rw [same.objects, same.allocated, same.waiting]

theorem SameWork.core {q' : AgentQueue} (same : q.SameWork q') (h : q.Core)
    (hdown : q'.shuttingDown = false → q.shuttingDown = false) : q'.Core := by
  obtain ⟨marks, hhistory, hmarks⟩ := same.history
  have hcount : ∀ f : QueueEvent → Bool, f .sealed = false → f .drained = false →
      q'.history.countP f = q.history.countP f := by
    intro f hsealed hdrained
    rw [hhistory, countP_markers hmarks hsealed hdrained]
  have hlaneOf : ∀ k, q'.laneOf k = q.laneOf k := fun k => by unfold laneOf; rw [same.lanes]
  constructor
  · apply h.placed.congr same.lanes same.objects same.allocated same.waiting same.timers
      same.bound same.retrying (by rw [same.metrics])
    · exact fun n => hcount _ rfl rfl
    · exact fun n => hcount _ rfl rfl
    · intro x hx
      rw [hhistory] at hx
      rcases List.mem_append.mp hx with hmark | hold
      · rcases hmarks _ hmark with heq | heq <;> cases heq
      · exact hold
  · apply h.ordered.congr
    · intro k
      unfold acceptedIn
      rw [hhistory, filterMap_markers hmarks rfl rfl]
    · intro k
      unfold firstStarts
      rw [hhistory, filterMap_markers hmarks rfl rfl]
    · intro k
      unfold freshIn
      rw [hlaneOf, same.objects]
  · apply h.tasked.congr same.tasks (by rw [same.metrics]) <;>
    · intro i
      rw [same.objects]
  · intro hopen i
    rw [same.objects]
    exact h.resting (hdown hopen) i
  · rw [hhistory, filterMap_markers hmarks rfl rfl, same.metrics]
    exact h.counted

theorem sameWork_checkMigrationDrain (q : AgentQueue) : q.SameWork q.checkMigrationDrain := by
  unfold checkMigrationDrain
  cases q.migration with
  | none => exact .refl q
  | some m =>
    dsimp only
    split_ifs
    · exact .refl q
    · exact { SameWork.refl q with }
    · refine { SameWork.refl q with history := ⟨[.drained], rfl, ?_⟩ }
      intro e he
      exact .inr (List.mem_singleton.mp he)

theorem shuttingDown_checkMigrationDrain (q : AgentQueue) :
    q.checkMigrationDrain.shuttingDown = q.shuttingDown := by
  unfold checkMigrationDrain
  cases q.migration with
  | none => rfl
  | some m =>
    dsimp only
    split_ifs <;> rfl

theorem SameWork.trans {q₁ q₂ q₃ : AgentQueue} (h₁ : q₁.SameWork q₂) (h₂ : q₂.SameWork q₃) :
    q₁.SameWork q₃ := by
  obtain ⟨marks₁, hhistory₁, hmarks₁⟩ := h₁.history
  obtain ⟨marks₂, hhistory₂, hmarks₂⟩ := h₂.history
  refine ⟨h₂.lanes.trans h₁.lanes, h₂.objects.trans h₁.objects, h₂.allocated.trans h₁.allocated,
    h₂.waiting.trans h₁.waiting, h₂.timers.trans h₁.timers, h₂.bound.trans h₁.bound,
    h₂.retrying.trans h₁.retrying, h₂.metrics.trans h₁.metrics, h₂.tasks.trans h₁.tasks,
    marks₂ ++ marks₁, ?_, ?_⟩
  · rw [hhistory₂, hhistory₁, List.append_assoc]
  · intro e he
    rcases List.mem_append.mp he with hmem | hmem
    · exact hmarks₂ e hmem
    · exact hmarks₁ e hmem

theorem sameWork_sealAndDrain (q : AgentQueue) :
    q.SameWork q.sealAndDrain ∧ q.sealAndDrain.shuttingDown = q.shuttingDown := by
  have hmark : ∀ e ∈ [QueueEvent.sealed], Marker e := by
    intro e he
    exact .inl (List.mem_singleton.mp he)
  unfold sealAndDrain
  cases q.migration with
  | some m => exact ⟨.refl q, rfl⟩
  | none =>
    dsimp only
    split_ifs
    · exact ⟨{ SameWork.refl q with history := ⟨[.sealed], rfl, hmark⟩ }, rfl⟩
    · rw [shuttingDown_checkMigrationDrain]
      refine ⟨SameWork.trans ?_ (sameWork_checkMigrationDrain _), rfl⟩
      exact { SameWork.refl q with history := ⟨[.sealed], rfl, hmark⟩ }

theorem sameWork_shutdown (q : AgentQueue) : q.SameWork q.shutdown := by
  unfold shutdown
  cases q.shutdownPromise with
  | some promise => exact .refl q
  | none =>
    cases q.migration with
    | some m => exact { SameWork.refl q with }
    | none =>
      unfold joinShutdown
      refine { SameWork.refl q with waiting := ?_, timers := ?_ }
      · unfold waiting
        rw [List.map_map]
        rfl
      · rw [List.map_map]
        rfl

theorem Core.startTask (h : q.Core) (run : ℕ) : (q.startTask run).Core := by
  have htasked := h.tasked.startTask run
  unfold AgentQueue.startTask at htasked ⊢
  cases hfind : q.findTask run .starting with
  | none => exact h
  | some task =>
    rw [hfind] at htasked
    exact ⟨h.placed.congr rfl rfl rfl rfl rfl rfl rfl rfl (fun _ => rfl) (fun _ => rfl)
      fun _ hx => hx, h.ordered, htasked, h.resting, h.counted⟩

theorem Core.resolveRun (h : q.Core) (run : ℕ) : (q.resolveRun run).Core := by
  unfold AgentQueue.resolveRun
  cases hfind : q.findTask run .settled with
  | none => exact h
  | some task =>
    obtain ⟨hmem, rfl, hstage⟩ := findTask_eq_some hfind
    have hcore : ({ q with tasks := q.tasks.filter fun t => decide (t.promise ≠ task.promise) } :
        AgentQueue).Core :=
      ⟨h.placed.congr rfl rfl rfl rfl rfl rfl rfl rfl (fun _ => rfl) (fun _ => rfl)
        fun _ hx => hx, h.ordered, h.tasked.resolve hmem hstage, h.resting, h.counted⟩
    apply (sameWork_checkMigrationDrain _).core hcore
    rw [shuttingDown_checkMigrationDrain]
    exact id

/-- In the end of a run the lane takes its next item or is dropped when it is idle. -/
def advanceLane (i : ℕ) (item : QueueItem) (q : AgentQueue) : AgentQueue :=
  match (q.objects i).pending, q.shuttingDown with
  | next :: rest, false => runItem i next (q.setLane i ⟨false, rest, none, none⟩)
  | _, _ => q.removeLaneIfIdle item.laneKey

theorem leaveLane_eq (i : ℕ) (item : QueueItem) (q : AgentQueue) :
    q.leaveLane i item = (q.vacate i).advanceLane i item := by
  have hpending : ((q.vacate i).objects i).pending = (q.objects i).pending := by
    unfold vacate setLane
    dsimp only
    rw [Function.update_self]
  have hdown : (q.vacate i).shuttingDown = q.shuttingDown := rfl
  unfold leaveLane advanceLane
  rw [hpending, hdown]
  rfl

/-- How a task that has come back is recorded. -/
def noteOutcome (success : Bool) (item : QueueItem) (q : AgentQueue) : AgentQueue :=
  if success then q.noteSuccess item else (q.noteFailure item).scheduleRetry item

theorem vacate_noteOutcome (i : ℕ) (success : Bool) (item : QueueItem) (q : AgentQueue) :
    (q.noteOutcome success item).vacate i = (q.vacate i).noteOutcome success item := by
  unfold noteOutcome
  cases success
  · unfold scheduleRetry
    have hdown : ((q.vacate i).noteFailure item).shuttingDown =
        (q.noteFailure item).shuttingDown := rfl
    rw [hdown]
    simp only [Bool.false_eq_true, if_false]
    split_ifs <;> rfl
  · rfl

theorem executeItem_eq (run : ℕ) (success : Bool) (q : AgentQueue) :
    q.executeItem run success = match q.findTask run .executing with
      | none => q
      | some task =>
        (((q.setStage run .settled).vacate task.lane).noteOutcome success task.item).advanceLane
          task.lane task.item := by
  unfold executeItem
  cases q.findTask run .executing with
  | none => rfl
  | some task =>
    dsimp only
    rw [leaveLane_eq, ← vacate_noteOutcome]
    rfl

theorem noteOutcome_frame (success : Bool) (item : QueueItem) (q : AgentQueue) :
    (q.noteOutcome success item).lanes = q.lanes ∧
      (q.noteOutcome success item).objects = q.objects ∧
      (q.noteOutcome success item).shuttingDown = q.shuttingDown ∧
      (q.noteOutcome success item).tasks = q.tasks ∧
      (q.noteOutcome success item).metrics.started = q.metrics.started ∧
      (q.noteOutcome success item).metrics.enqueued = q.metrics.enqueued := by
  unfold noteOutcome scheduleRetry
  split_ifs <;> exact ⟨rfl, rfl, rfl, rfl, rfl, rfl⟩

theorem filterMap_noteOutcome {α : Type} (f : QueueEvent → Option α) (success : Bool)
    (item : QueueItem) (q : AgentQueue) (hsucceeded : f (.succeeded item) = none)
    (hfailed : f (.failed item) = none) (hgaveUp : f (.gaveUp item) = none) :
    (q.noteOutcome success item).history.filterMap f = q.history.filterMap f := by
  unfold noteOutcome scheduleRetry
  split_ifs
  · change List.filterMap f (.succeeded item :: q.history) = _
    rw [List.filterMap_cons, hsucceeded]
  · change List.filterMap f (.gaveUp item :: .failed item :: q.history) = _
    rw [List.filterMap_cons, List.filterMap_cons, hgaveUp, hfailed]
  · change List.filterMap f (.failed item :: q.history) = _
    rw [List.filterMap_cons, hfailed]

theorem Placed.noteOutcome (h : q.Placed (some item)) (hran : q.Ran item) (success : Bool) :
    (q.noteOutcome success item).Placed none := by
  unfold AgentQueue.noteOutcome
  split_ifs
  · have hnoted : ({ q with metrics := { q.metrics with succeeded := q.metrics.succeeded + 1 } } :
        AgentQueue).Placed (some item) :=
      h.congr rfl rfl rfl rfl rfl rfl rfl rfl (fun _ => rfl) (fun _ => rfl) fun _ hx => hx
    exact hnoted.finish (.inl rfl) hran.1 rfl
  · have hnoted : (q.noteFailure item).Placed (some item) := by
      refine h.congr rfl rfl rfl rfl rfl rfl rfl rfl ?_ ?_ ?_
      · exact fun n => List.countP_cons_of_neg Bool.false_ne_true
      · exact fun n => List.countP_cons_of_neg Bool.false_ne_true
      · intro x hx
        rcases List.mem_cons.mp hx with heq | hmem
        · cases heq
        · exact hmem
    apply hnoted.scheduleRetry
    unfold Ran
    have hstarts : (q.noteFailure item).starts item.number = q.starts item.number :=
      List.countP_cons_of_neg Bool.false_ne_true
    rw [hstarts]
    exact hran

theorem Core.advanceLane (hplaced : q.Placed none) (hordered : q.Ordered none)
    (htasked : q.Tasked) (hi : q.laneOf item.laneKey = some i)
    (hresting : q.shuttingDown = false → ∀ j, j ≠ i → (q.objects j).running = false →
      (q.objects j).pending = [])
    (hvacant : (q.objects i).current = none)
    (hcounted : q.history.filterMap QueueEvent.acceptedNumber =
      (List.range q.metrics.enqueued).reverse) : (q.advanceLane i item).Core := by
  obtain ⟨hrunning, hpromise⟩ := hplaced.promise_of_current hvacant
  have hremoved : (q.shuttingDown = false → (q.objects i).pending = []) →
      (q.removeLaneIfIdle item.laneKey).Core := by
    intro hempty
    have hframe : (q.removeLaneIfIdle item.laneKey).objects = q.objects ∧
        (q.removeLaneIfIdle item.laneKey).tasks = q.tasks ∧
        (q.removeLaneIfIdle item.laneKey).metrics = q.metrics ∧
        (q.removeLaneIfIdle item.laneKey).history = q.history ∧
        (q.removeLaneIfIdle item.laneKey).shuttingDown = q.shuttingDown := by
      unfold removeLaneIfIdle
      rw [hi]
      dsimp only
      split_ifs <;> exact ⟨rfl, rfl, rfl, rfl, rfl⟩
    obtain ⟨hobjects, htasks, hmetrics, hhistory, hdown⟩ := hframe
    refine ⟨hplaced.removeLaneIfIdle _, ?_, ?_, ?_, ?_⟩
    · apply hordered.congr
      · intro k
        unfold acceptedIn
        rw [hhistory]
      · intro k
        unfold firstStarts
        rw [hhistory]
      · exact freshIn_removeLaneIfIdle _
    · apply htasked.congr htasks (by rw [hmetrics]) <;>
      · intro j
        rw [hobjects]
    · intro hopen j hj
      rw [hdown] at hopen
      rw [hobjects] at hj ⊢
      by_cases hji : j = i
      · rw [hji]
        exact hempty hopen
      · exact hresting hopen j hji hj
    · rw [hhistory, hmetrics]
      exact hcounted
  unfold AgentQueue.advanceLane
  cases hpending : (q.objects i).pending with
  | nil => exact hremoved fun _ => hpending
  | cons next rest =>
    cases hdown : q.shuttingDown with
    | true =>
      apply hremoved
      intro hopen
      rw [hdown] at hopen
      cases hopen
    | false =>
      have hlane : q.objects i = ⟨false, next :: rest, none, none⟩ := by
        rw [← hpending, ← hrunning, ← hvacant, ← hpromise]
      have hmem : next ∈ (q.objects i).pending := by
        rw [hpending]
        exact List.mem_cons_self
      have hkey : next.laneKey = item.laneKey :=
        hplaced.keyed _ i hi next (List.mem_append_right _ hmem)
      rw [← hkey] at hi
      have hpopped := hplaced.popPending hi hlane
      have hready : (q.setLane i ⟨false, rest, none, none⟩).Ready next :=
        hplaced.pendingReady i next hmem
      have hpoppedLane : ((q.setLane i ⟨false, rest, none, none⟩).objects i).current = none := by
        unfold setLane
        dsimp only
        rw [Function.update_self]
      dsimp only
      refine ⟨hpopped.runItem hi hpoppedLane hready, hordered.promote hplaced hi hlane, ?_, ?_,
        hcounted⟩
      · apply Tasked.runItem _ hpoppedLane
        refine htasked.congr rfl rfl (fun j => ?_) fun j => ?_ <;>
        · unfold setLane
          dsimp only
          rw [Function.update_apply]
          split_ifs with hji
          · rw [hji, hlane]
          · rfl
      · intro hopen j hj
        unfold runItem forgetRetrying setLane at hj ⊢
        dsimp only at hj ⊢
        rw [Function.update_apply] at hj ⊢
        split_ifs at hj ⊢ with hji
        rw [Function.update_of_ne hji] at hj ⊢
        exact hresting hdown j hji hj

theorem Core.laneOf_task (h : q.Core) {task : QueueTask} (hmem : task ∈ q.tasks)
    (hstage : task.stage ≠ .settled) : q.laneOf task.item.laneKey = some task.lane := by
  have hcurrent := (h.tasked.running task hmem hstage).1
  have hitem : task.item ∈ (q.objects task.lane).items :=
    List.mem_append_left _ (Option.mem_toList.mpr hcurrent)
  obtain ⟨k, hk⟩ := h.placed.exists_laneOf hitem
  rw [h.placed.keyed k task.lane hk _ hitem]
  exact hk

theorem Core.executeItem (h : q.Core) (run : ℕ) (success : Bool) :
    (q.executeItem run success).Core := by
  rw [executeItem_eq]
  cases hfind : q.findTask run .executing with
  | none => exact h
  | some task =>
    obtain ⟨hmem, rfl, hstage⟩ := findTask_eq_some hfind
    have hunsettled : task.stage ≠ .settled := by
      rw [hstage]
      intro heq
      cases heq
    have hi := h.laneOf_task hmem hunsettled
    have hcurrent := (h.tasked.running task hmem hunsettled).1
    have hstaged : (q.setStage task.promise .settled).Placed none :=
      h.placed.congr rfl rfl rfl rfl rfl rfl rfl rfl (fun _ => rfl) (fun _ => rfl) fun _ hx => hx
    have hvacated := hstaged.vacate hi hcurrent
    have hran : q.Ran task.item := h.placed.currentRan task.lane task.item hcurrent
    have hplaced := hvacated.noteOutcome hran success
    obtain ⟨hlanes, hobjects, hdown, htasks, hstarted, henqueued⟩ :=
      noteOutcome_frame success task.item ((q.setStage task.promise .settled).vacate task.lane)
    have hlane : ∀ j, ((q.setStage task.promise .settled).vacate task.lane).objects j =
        if j = task.lane then ⟨false, (q.objects task.lane).pending, none, none⟩
        else q.objects j := fun j => Function.update_apply q.objects task.lane _ j
    have hordered : ((q.setStage task.promise .settled).vacate task.lane).Ordered none := by
      refine h.ordered.congr (fun _ => rfl) (fun _ => rfl) fun k => ?_
      have hfresh := freshIn_update ((q.setStage task.promise .settled).vacate task.lane)
        h.placed hi rfl rfl k
      rw [hfresh]
      split_ifs with hk
      · rw [hk, freshIn_of_laneOf hi]
        rfl
      · rfl
    apply Core.advanceLane hplaced
    · apply hordered.congr
      · exact fun k => filterMap_noteOutcome _ success task.item _ rfl rfl rfl
      · exact fun k => filterMap_noteOutcome _ success task.item _ rfl rfl rfl
      · intro k
        unfold freshIn laneOf
        rw [hlanes, hobjects]
    · apply (h.tasked.settle hmem hunsettled).congr htasks hstarted <;>
      · intro j
        rw [hobjects]
    · unfold laneOf
      rw [hlanes]
      exact hi
    · intro hopen j hj hrunning
      rw [hdown] at hopen
      rw [hobjects, hlane, if_neg hj] at hrunning ⊢
      exact h.resting hopen j hrunning
    · rw [hobjects, hlane, if_pos rfl]
    · rw [henqueued, filterMap_noteOutcome _ success task.item _ rfl rfl rfl]
      exact h.counted

theorem Core.fireRetry (h : q.Core) (timer : ℕ)
    (hdisarmed : q.shuttingDown = true → ∀ t ∈ q.retryTimers, t.armed = false) :
    (q.fireRetry timer).Core := by
  unfold AgentQueue.fireRetry
  cases hfind : q.retryTimers.find? fun t => decide (t.timer = timer) && t.armed with
  | none => exact h
  | some t =>
    have hmem := List.mem_of_find?_eq_some hfind
    have hcond := List.find?_some hfind
    rw [Bool.and_eq_true, decide_eq_true_eq] at hcond
    obtain ⟨rfl, harmed⟩ := hcond
    have hopen : q.shuttingDown = false := by
      cases hdown : q.shuttingDown with
      | false => rfl
      | true =>
        rw [hdisarmed hdown t hmem] at harmed
        cases harmed
    obtain ⟨hready, hretried⟩ := h.placed.waitingReady t.item (List.mem_map_of_mem hmem)
    have htaken := (h.placed.takeTimer hmem).forgetRetrying
    dsimp only
    generalize hq₁ : forgetRetrying t.item
      { q with retryTimers := q.retryTimers.filter fun u => decide (u.timer ≠ t.timer) } = q₁
    have hshut : q₁.shuttingDown = false := by
      rw [← hq₁]
      exact hopen
    rw [hq₁] at htaken
    rw [if_neg (by rw [hshut]; exact Bool.false_ne_true)]
    have hordered : q₁.Ordered (some t.item) := by
      rw [← hq₁]
      intro k
      rw [handFresh_of_retried hretried]
      exact h.ordered k
    have htasked : q₁.Tasked := by
      rw [← hq₁]
      exact h.tasked.congr rfl rfl (fun _ => rfl) fun _ => rfl
    have hresting : q₁.Resting := by
      rw [← hq₁]
      exact h.resting
    have hcounted : q₁.history.filterMap QueueEvent.acceptedNumber =
        (List.range q₁.metrics.enqueued).reverse := by
      rw [← hq₁]
      exact h.counted
    have hready₁ : q₁.Ready t.item := by
      rw [← hq₁]
      exact hready
    obtain ⟨hhistory, hmetrics, hdown, _⟩ := getLane_frame q₁ t.item.laneKey
    apply Core.admitItem (htaken.getLane _) (hordered.getLane htaken _) (htasked.getLane htaken _)
    · unfold Resting
      rw [hdown, objects_getLane htaken]
      exact hresting
    · rw [hdown]
      exact hshut
    · rw [hhistory, hmetrics]
      exact hcounted
    · exact laneOf_getLane
    · unfold Ready starts
      rw [hhistory]
      exact hready₁

end AgentQueue

end Piclaw
