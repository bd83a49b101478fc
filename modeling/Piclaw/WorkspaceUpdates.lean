import Piclaw.OrderedMap
import Piclaw.Transactions

/-!
# Throttled workspace updates

Updates are emitted at once when the last emission is long enough ago, and merged per path until a
timer fires otherwise. A timer may fire late: until it does, a new update can overtake the ones
that wait for it.
-/

namespace Piclaw.WorkspaceUpdates

/-- `τ` is the type of the trees. -/
structure WorkspaceUpdate (τ : Type) where
  path : String
  root : τ
  truncated : Bool
  changed_paths : Option (List String)
deriving DecidableEq

structure Throttle (τ : Type) where
  lastEmit : ℚ
  /-- The time at which the timer is due. -/
  throttleTimer : Option ℚ
  pendingUpdates : Option (OrderedMap String (WorkspaceUpdate τ))

variable {τ : Type}

def create : Throttle τ := ⟨0, none, none⟩

/-- `Array.from(new Set(paths))` -/
def distinct (paths : List String) : List String :=
  paths.foldl (fun seen path => if path ∈ seen then seen else seen ++ [path]) []

def mergeUpdate (pending : OrderedMap String (WorkspaceUpdate τ)) (update : WorkspaceUpdate τ) :
    OrderedMap String (WorkspaceUpdate τ) :=
  match pending.get update.path with
  | some existing =>
    pending.set update.path
      { update with
        changed_paths :=
          some (distinct (existing.changed_paths.getD [] ++ update.changed_paths.getD [])) }
  | none => pending.set update.path update

inductive Event (τ : Type)
  /-- `now` is read by `schedule` and `emitTime` by the emission that may follow in it. -/
  | schedule (updates : List (WorkspaceUpdate τ)) (now emitTime : ℚ)
  | fire (now : ℚ)
deriving DecidableEq

/-- What is given to `onUpdate`, if anything is. -/
def emitUpdates (s : Throttle τ) (updates : List (WorkspaceUpdate τ)) (now : ℚ) :
    List (WorkspaceUpdate τ) × Throttle τ :=
  if updates = [] then ([], s) else (updates, { s with lastEmit := now })

def schedule (throttleMs : ℚ) (s : Throttle τ) (updates : List (WorkspaceUpdate τ))
    (now emitTime : ℚ) : List (WorkspaceUpdate τ) × Throttle τ :=
  let elapsed := now - s.lastEmit
  if throttleMs ≤ elapsed then emitUpdates s updates emitTime
  else
    let pending := updates.foldl mergeUpdate (s.pendingUpdates.getD OrderedMap.empty)
    ([], { s with
      pendingUpdates := some pending
      throttleTimer := some (s.throttleTimer.getD (now + max (throttleMs - elapsed) 0)) })

def fire (s : Throttle τ) (now : ℚ) : List (WorkspaceUpdate τ) × Throttle τ :=
  match s.throttleTimer with
  | none => ([], s)
  | some _ =>
    let merged := ((s.pendingUpdates.getD OrderedMap.empty).entries).map Prod.snd
    emitUpdates { s with throttleTimer := none, pendingUpdates := none } merged now

def answer (throttleMs : ℚ) (s : Throttle τ) : Event τ → List (WorkspaceUpdate τ) × Throttle τ
  | .schedule updates now emitTime => schedule throttleMs s updates now emitTime
  | .fire now => fire s now

def next (throttleMs : ℚ) (s : Throttle τ) (e : Event τ) : Throttle τ := (answer throttleMs s e).2

/-- The updates emitted in a run, in order. -/
def emitted (throttleMs : ℚ) : Throttle τ → List (Event τ) → List (WorkspaceUpdate τ)
  | _, [] => []
  | s, e :: events => (answer throttleMs s e).1 ++ emitted throttleMs (next throttleMs s e) events

def Event.updates : Event τ → List (WorkspaceUpdate τ)
  | .schedule updates _ _ => updates
  | .fire _ => []

/-- The updates scheduled in a run, in order. -/
def scheduled (events : List (Event τ)) : List (WorkspaceUpdate τ) := events.flatMap Event.updates

/-- The times do not decrease, and the timer fires when it is due or later. -/
def Timely (throttleMs : ℚ) : Throttle τ → ℚ → List (Event τ) → Prop
  | _, _, [] => True
  | s, clock, .schedule updates now emitTime :: events =>
    (clock ≤ now ∧ now ≤ emitTime) ∧
      Timely throttleMs (next throttleMs s (.schedule updates now emitTime)) emitTime events
  | s, clock, .fire now :: events =>
    (clock ≤ now ∧ s.throttleTimer.any (fun due => decide (due ≤ now)) = true) ∧
      Timely throttleMs (next throttleMs s (.fire now)) now events

/-- The trees that updates carry for a path. -/
def trees (path : String) (updates : List (WorkspaceUpdate τ)) : List τ :=
  (updates.filter (fun update => update.path = path)).map WorkspaceUpdate.root

def pendingAt (s : Throttle τ) (path : String) : Option (WorkspaceUpdate τ) :=
  s.pendingUpdates.bind (fun pending => pending.get path)

/-- No update is emitted at once while an older one for its path waits. -/
def Meets (throttleMs : ℚ) (s : Throttle τ) : Event τ → Prop
  | .schedule updates now _ =>
    throttleMs ≤ now - s.lastEmit → ∀ update ∈ updates, pendingAt s update.path = none
  | .fire _ => True

instance [DecidableEq τ] (throttleMs : ℚ) (s : Throttle τ) :
    (e : Event τ) → Decidable (Meets throttleMs s e)
  | .schedule updates now _ => inferInstanceAs (Decidable (throttleMs ≤ now - s.lastEmit →
      ∀ update ∈ updates, pendingAt s update.path = none))
  | .fire _ => inferInstanceAs (Decidable True)

section Merging
variable {pending : OrderedMap String (WorkspaceUpdate τ)} {path : String}

theorem mem_distinct {paths : List String} {q : String} : q ∈ distinct paths ↔ q ∈ paths := by
  suffices hfold : ∀ seen : List String,
      q ∈ paths.foldl (fun seen path => if path ∈ seen then seen else seen ++ [path]) seen ↔
        q ∈ seen ∨ q ∈ paths by
    have hempty := hfold []
    rw [or_iff_right List.not_mem_nil] at hempty
    exact hempty
  induction paths with
  | nil => simp
  | cons path paths ih =>
    intro seen
    rw [List.foldl_cons, ih]
    split_ifs with hseen
    · rw [List.mem_cons]
      constructor
      · exact Or.imp id Or.inr
      · rintro (hq | rfl | hq)
        · exact Or.inl hq
        · exact Or.inl hseen
        · exact Or.inr hq
    · rw [List.mem_append, List.mem_singleton, List.mem_cons, or_assoc]

/-- What a pending map says about a path: every pending update is stored under its own path. -/
def Keyed (pending : OrderedMap String (WorkspaceUpdate τ)) : Prop :=
  ∀ path update, pending.get path = some update → update.path = path

theorem mergeUpdate_get (pending : OrderedMap String (WorkspaceUpdate τ))
    (update : WorkspaceUpdate τ) :
    (∀ path, path ≠ update.path → (mergeUpdate pending update).get path = pending.get path) ∧
      ∃ merged, (mergeUpdate pending update).get update.path = some merged ∧
        merged.path = update.path ∧ merged.root = update.root ∧
        ∀ q, q ∈ merged.changed_paths.getD [] ↔
          q ∈ ((pending.get update.path).bind WorkspaceUpdate.changed_paths).getD [] ∨
            q ∈ update.changed_paths.getD [] := by
  unfold mergeUpdate
  cases hpath : pending.get update.path with
  | none =>
    refine ⟨fun path hne => OrderedMap.get_set_of_ne _ _ hne,
      update, OrderedMap.get_set_self _ _ _, rfl, rfl, ?_⟩
    simp
  | some existing =>
    refine ⟨fun path hne => OrderedMap.get_set_of_ne _ _ hne,
      _, OrderedMap.get_set_self _ _ _, rfl, rfl, ?_⟩
    intro q
    rw [Option.getD_some, mem_distinct, List.mem_append]
    rfl

theorem keyed_merge (h : Keyed pending) (updates : List (WorkspaceUpdate τ)) :
    Keyed (updates.foldl mergeUpdate pending) := by
  induction updates generalizing pending with
  | nil => exact h
  | cons update updates ih =>
    apply ih
    obtain ⟨hother, merged, hmerged, hpath, -⟩ := mergeUpdate_get pending update
    intro path u hu
    by_cases hne : path = update.path
    · subst hne
      rw [hmerged] at hu
      cases hu
      exact hpath
    · rw [hother path hne] at hu
      exact h path u hu

/-- The tree that waits for a path is the last one scheduled. -/
theorem root_merge (updates : List (WorkspaceUpdate τ)) (path : String) :
    ((updates.foldl mergeUpdate pending).get path).map WorkspaceUpdate.root =
      (trees path updates).getLast?.or ((pending.get path).map WorkspaceUpdate.root) := by
  induction updates generalizing pending with
  | nil => simp [trees]
  | cons update updates ih =>
    obtain ⟨hother, merged, hmerged, -, hroot, -⟩ := mergeUpdate_get pending update
    rw [List.foldl_cons, ih]
    unfold trees
    by_cases hpath : update.path = path
    · subst hpath
      rw [hmerged, Option.map_some, hroot, List.filter_cons_of_pos (by simp), List.map_cons]
      cases hrest : List.map WorkspaceUpdate.root
          (updates.filter (fun u => u.path = update.path)) with
      | nil => rfl
      | cons tree rest =>
        have hlast : (tree :: rest).getLast? = some ((tree :: rest).getLast (by simp)) :=
          List.getLast?_eq_some_getLast _
        rw [List.getLast?_cons_cons, hlast]
        rfl
    · rw [hother path (Ne.symm hpath), List.filter_cons_of_neg (by simpa using hpath)]

theorem changed_merge {q : String} (updates : List (WorkspaceUpdate τ)) (path : String)
    (h : q ∈ ((pending.get path).bind WorkspaceUpdate.changed_paths).getD [] ∨
      ∃ update ∈ updates, update.path = path ∧ q ∈ update.changed_paths.getD []) :
    q ∈ (((updates.foldl mergeUpdate pending).get path).bind
      WorkspaceUpdate.changed_paths).getD [] := by
  induction updates generalizing pending with
  | nil => simpa using h
  | cons update updates ih =>
    obtain ⟨hother, merged, hmerged, -, -, hchanged⟩ := mergeUpdate_get pending update
    apply ih
    by_cases hpath : update.path = path
    · subst hpath
      rw [hmerged, Option.bind_some]
      rcases h with hq | ⟨u, hu, hupath, hq⟩
      · exact Or.inl ((hchanged q).mpr (Or.inl hq))
      · rcases List.mem_cons.mp hu with rfl | hu
        · exact Or.inl ((hchanged q).mpr (Or.inr hq))
        · exact Or.inr ⟨u, hu, hupath, hq⟩
    · rw [hother path (Ne.symm hpath)]
      rcases h with hq | ⟨u, hu, hupath, hq⟩
      · exact Or.inl hq
      · rcases List.mem_cons.mp hu with rfl | hu
        · exact absurd hupath hpath
        · exact Or.inr ⟨u, hu, hupath, hq⟩

theorem filter_key {α : Type} {entries : List (String × α)}
    (hnodup : (entries.map Prod.fst).Nodup) (k : String) :
    entries.filter (fun e => e.1 = k) = (entries.find? (fun e => e.1 = k)).toList := by
  induction entries with
  | nil => rfl
  | cons e entries ih =>
    rw [List.map_cons, List.nodup_cons] at hnodup
    by_cases hk : e.1 = k
    · have hrest : entries.filter (fun e => e.1 = k) = [] := by
        rw [List.filter_eq_nil_iff]
        intro e' he' heq
        apply hnodup.1
        rw [hk, ← of_decide_eq_true heq]
        exact List.mem_map_of_mem he'
      rw [List.filter_cons_of_pos (by simpa using hk), hrest,
        List.find?_cons_of_pos (by simpa using hk)]
      rfl
    · rw [List.filter_cons_of_neg (by simpa using hk), ih hnodup.2,
        List.find?_cons_of_neg (by simpa using hk)]

/-- The updates of a pending map carry one tree for each path in it. -/
theorem trees_entries (h : Keyed pending) (path : String) :
    trees path (pending.entries.map Prod.snd) =
      ((pending.get path).map WorkspaceUpdate.root).toList := by
  have hown : (pending.entries.map Prod.snd).filter (fun update => update.path = path) =
      (pending.entries.filter (fun e => e.1 = path)).map Prod.snd := by
    rw [List.filter_map]
    congr 1
    apply List.filter_congr
    intro e he
    have hpath : e.2.path = e.1 := h e.1 e.2 (OrderedMap.get_of_mem he)
    rw [Function.comp_apply, hpath]
  unfold trees
  rw [hown, filter_key pending.nodup, OrderedMap.get]
  cases pending.entries.find? (fun e => e.1 = path) with
  | none => rfl
  | some e => rfl

end Merging

section Steps
variable {throttleMs : ℚ} {s : Throttle τ} {path : String}

/-- The timer runs while updates wait, and they wait under their own paths. -/
structure Waiting (s : Throttle τ) : Prop where
  timer : s.pendingUpdates.isSome → s.throttleTimer.isSome
  keyed : ∀ pending, s.pendingUpdates = some pending → Keyed pending

theorem keyed_pending (h : Waiting s) : Keyed (s.pendingUpdates.getD OrderedMap.empty) := by
  cases hpending : s.pendingUpdates with
  | none =>
    intro path update hget
    cases hget
  | some pending => exact h.keyed pending hpending

theorem pendingAt_getD (s : Throttle τ) (path : String) :
    pendingAt s path = (s.pendingUpdates.getD OrderedMap.empty).get path := by
  unfold pendingAt
  cases s.pendingUpdates with
  | none => rfl
  | some pending => rfl

theorem emitUpdates_fst (s : Throttle τ) (updates : List (WorkspaceUpdate τ)) (now : ℚ) :
    (emitUpdates s updates now).1 = updates := by
  unfold emitUpdates
  split_ifs with hempty
  · exact hempty.symm
  · rfl

theorem emitUpdates_snd (s : Throttle τ) (updates : List (WorkspaceUpdate τ)) (now : ℚ) :
    (emitUpdates s updates now).2.pendingUpdates = s.pendingUpdates ∧
      (emitUpdates s updates now).2.throttleTimer = s.throttleTimer := by
  unfold emitUpdates
  split_ifs
  · exact ⟨rfl, rfl⟩
  · exact ⟨rfl, rfl⟩

/-- What an event does: it emits the scheduled updates, or merges them with the waiting ones, or
emits the waiting ones. -/
theorem answer_cases (throttleMs : ℚ) (s : Throttle τ) (e : Event τ) (hs : Waiting s) :
    (∃ updates now emitTime, e = .schedule updates now emitTime ∧ throttleMs ≤ now - s.lastEmit ∧
      (answer throttleMs s e).1 = updates ∧
      (next throttleMs s e).pendingUpdates = s.pendingUpdates ∧
      (next throttleMs s e).throttleTimer = s.throttleTimer) ∨
    ((answer throttleMs s e).1 = [] ∧
      (next throttleMs s e).pendingUpdates = some (e.updates.foldl mergeUpdate
        (s.pendingUpdates.getD OrderedMap.empty)) ∧
      (next throttleMs s e).throttleTimer.isSome) ∨
    (e.updates = [] ∧
      (answer throttleMs s e).1 =
        (s.pendingUpdates.getD OrderedMap.empty).entries.map Prod.snd ∧
      (next throttleMs s e).pendingUpdates = none ∧
      (next throttleMs s e).throttleTimer = none) := by
  unfold next
  cases e with
  | schedule updates now emitTime =>
    dsimp only [answer, schedule]
    by_cases helapsed : throttleMs ≤ now - s.lastEmit
    · rw [if_pos helapsed]
      exact Or.inl ⟨updates, now, emitTime, rfl, helapsed, emitUpdates_fst _ _ _,
        (emitUpdates_snd s updates emitTime).1, (emitUpdates_snd s updates emitTime).2⟩
    · rw [if_neg helapsed]
      exact Or.inr (Or.inl ⟨rfl, rfl, rfl⟩)
  | fire now =>
    right
    right
    dsimp only [answer, fire]
    cases htimer : s.throttleTimer with
    | none =>
      have hnone : s.pendingUpdates = none := by
        by_contra hne
        have htimer' := hs.timer (Option.isSome_iff_ne_none.mpr hne)
        rw [htimer] at htimer'
        cases htimer'
      rw [hnone]
      exact ⟨rfl, rfl, rfl, htimer⟩
    | some due =>
      exact ⟨rfl, emitUpdates_fst _ _ _, (emitUpdates_snd _ _ now).1, (emitUpdates_snd _ _ now).2⟩

theorem waiting_next (hs : Waiting s) (e : Event τ) : Waiting (next throttleMs s e) := by
  rcases answer_cases throttleMs s e hs with
    ⟨_, _, _, _, _, _, hpending, htimer⟩ | ⟨_, hpending, htimer⟩ | ⟨_, _, hpending, htimer⟩
  · refine ⟨?_, ?_⟩
    · rw [hpending, htimer]
      exact hs.timer
    · rw [hpending]
      exact hs.keyed
  · refine ⟨fun _ => htimer, ?_⟩
    intro pending heq
    rw [hpending, Option.some_inj] at heq
    rw [← heq]
    exact keyed_merge (keyed_pending hs) _
  · refine ⟨?_, ?_⟩
    · rw [hpending]
      exact fun h => absurd h Bool.false_ne_true
    · rw [hpending]
      exact fun _ h => absurd h (by simp)

theorem waiting_create : Waiting (create : Throttle τ) :=
  ⟨fun h => absurd h Bool.false_ne_true, fun _ h => absurd h (by simp [create])⟩

/-- Nothing waits when no timer runs. -/
theorem pendingAt_of_idle (hs : Waiting s) (hidle : s.throttleTimer = none) (path : String) :
    pendingAt s path = none := by
  have hnone : s.pendingUpdates = none := by
    by_contra hne
    have htimer := hs.timer (Option.isSome_iff_ne_none.mpr hne)
    rw [hidle] at htimer
    cases htimer
  unfold pendingAt
  rw [hnone]
  rfl

def waitingTree (s : Throttle τ) (path : String) : Option τ :=
  (pendingAt s path).map WorkspaceUpdate.root

/-- The trees emitted for a path and the one that waits are some of the scheduled ones, in order,
and end with the last of them. -/
structure InOrder (s : Throttle τ) (path : String) (sent requested : List τ) : Prop where
  ordered : (sent ++ (waitingTree s path).toList).Sublist requested
  last : (sent ++ (waitingTree s path).toList).getLast? = requested.getLast?

theorem trees_append (path : String) (first rest : List (WorkspaceUpdate τ)) :
    trees path (first ++ rest) = trees path first ++ trees path rest := by
  unfold trees
  rw [List.filter_append, List.map_append]

theorem trees_eq_nil {updates : List (WorkspaceUpdate τ)}
    (h : ∀ update ∈ updates, update.path ≠ path) : trees path updates = [] := by
  unfold trees
  rw [List.map_eq_nil_iff, List.filter_eq_nil_iff]
  intro update hupdate hpath
  exact h update hupdate (of_decide_eq_true hpath)

theorem inOrder_next {sent requested : List τ} {e : Event τ} (hs : Waiting s)
    (h : InOrder s path sent requested) (hmeets : Meets throttleMs s e) :
    InOrder (next throttleMs s e) path (sent ++ trees path (answer throttleMs s e).1)
      (requested ++ trees path e.updates) := by
  rcases answer_cases throttleMs s e hs with
    ⟨updates, now, emitTime, rfl, helapsed, hsent, hpending, -⟩ | ⟨hsent, hpending, -⟩ |
      ⟨hnone, hsent, hpending, -⟩
  · have hsame : waitingTree (next throttleMs s (.schedule updates now emitTime)) path =
        waitingTree s path := by
      unfold waitingTree pendingAt
      rw [hpending]
    rw [hsent]
    dsimp only [Event.updates]
    -- Either nothing waits for the path, or none of the emitted updates is for it.
    cases hwaits : waitingTree s path with
    | none =>
      rw [hwaits] at hsame
      have hordered := h.ordered
      have hlast := h.last
      rw [hwaits, Option.toList_none, List.append_nil] at hordered hlast
      refine ⟨?_, ?_⟩
      · rw [hsame, Option.toList_none, List.append_nil]
        exact hordered.append (List.Sublist.refl _)
      · rw [hsame, Option.toList_none, List.append_nil, List.getLast?_append, List.getLast?_append,
          hlast]
    | some tree =>
      have hother : trees path updates = [] := by
        apply trees_eq_nil
        rintro update hupdate rfl
        rw [waitingTree, hmeets helapsed update hupdate] at hwaits
        cases hwaits
      rw [hother, List.append_nil, List.append_nil]
      refine ⟨?_, ?_⟩
      · rw [hsame]
        exact h.ordered
      · rw [hsame]
        exact h.last
  · have hmerged : waitingTree (next throttleMs s e) path =
        (trees path e.updates).getLast?.or (waitingTree s path) := by
      unfold waitingTree
      rw [pendingAt_getD, hpending, Option.getD_some, root_merge, pendingAt_getD]
    rw [hsent]
    have hnil : trees path ([] : List (WorkspaceUpdate τ)) = [] := rfl
    rw [hnil, List.append_nil]
    cases hnew : (trees path e.updates).getLast? with
    | none =>
      rw [List.getLast?_eq_none_iff] at hnew
      rw [hnew, List.getLast?_nil, Option.none_or] at hmerged
      rw [hnew, List.append_nil]
      refine ⟨?_, ?_⟩
      · rw [hmerged]
        exact h.ordered
      · rw [hmerged]
        exact h.last
    | some tree =>
      rw [hnew, Option.some_or] at hmerged
      have hsub : sent.Sublist requested := (List.sublist_append_left _ _).trans h.ordered
      refine ⟨?_, ?_⟩
      · rw [hmerged]
        have htree : [tree].Sublist (trees path e.updates) :=
          List.singleton_sublist.mpr (List.mem_of_getLast? hnew)
        exact hsub.append htree
      · rw [hmerged, List.getLast?_append, List.getLast?_append, hnew]
        rfl
  · have hempty : waitingTree (next throttleMs s e) path = none := by
      unfold waitingTree pendingAt
      rw [hpending]
      rfl
    have hflushed : trees path (answer throttleMs s e).1 = (waitingTree s path).toList := by
      rw [hsent, trees_entries (keyed_pending hs), waitingTree, pendingAt_getD]
    have hnil : trees path ([] : List (WorkspaceUpdate τ)) = [] := rfl
    rw [hnone, hflushed, hnil, List.append_nil]
    refine ⟨?_, ?_⟩
    · rw [hempty, Option.toList_none, List.append_nil]
      exact h.ordered
    · rw [hempty, Option.toList_none, List.append_nil]
      exact h.last

theorem inOrder_run {events : List (Event τ)} {sent requested : List τ} (hs : Waiting s)
    (h : InOrder s path sent requested)
    (hmeets : Relational.Along (next throttleMs) (Meets throttleMs) s events) :
    InOrder (Relational.run (next throttleMs) s events) path
      (sent ++ trees path (emitted throttleMs s events))
      (requested ++ trees path (scheduled events)) := by
  induction events generalizing s sent requested with
  | nil => simpa [emitted, scheduled, trees] using h
  | cons e events ih =>
    have hrest := ih (waiting_next hs e) (inOrder_next hs h hmeets.1) hmeets.2
    rw [emitted, trees_append, ← List.append_assoc]
    unfold scheduled at hrest ⊢
    rw [List.flatMap_cons, trees_append, ← List.append_assoc]
    exact hrest

/-- The changed path `q` waits for an emission of `path`. -/
def Carries (s : Throttle τ) (path q : String) : Prop :=
  q ∈ ((pendingAt s path).bind WorkspaceUpdate.changed_paths).getD []

/-- Some of the updates names the changed path `q` for `path`. -/
def Names (path q : String) (updates : List (WorkspaceUpdate τ)) : Prop :=
  ∃ update ∈ updates, update.path = path ∧ q ∈ update.changed_paths.getD []

theorem names_entries {pending : OrderedMap String (WorkspaceUpdate τ)} {q : String}
    (hkeyed : Keyed pending)
    (h : q ∈ ((pending.get path).bind WorkspaceUpdate.changed_paths).getD []) :
    Names path q (pending.entries.map Prod.snd) := by
  cases hget : pending.get path with
  | none =>
    rw [hget] at h
    exact absurd h List.not_mem_nil
  | some update =>
    rw [hget, Option.bind_some] at h
    have hmem : update ∈ pending.entries.map Prod.snd :=
      List.mem_map.mpr ⟨_, OrderedMap.mem_of_get hget, rfl⟩
    exact ⟨update, hmem, hkeyed path update hget, h⟩

/-- A changed path that waits or comes with an event is emitted by the event or waits after it. -/
theorem carries_next {e : Event τ} {q : String} (hs : Waiting s)
    (h : Carries s path q ∨ Names path q e.updates) :
    Names path q (answer throttleMs s e).1 ∨ Carries (next throttleMs s e) path q := by
  rcases answer_cases throttleMs s e hs with
    ⟨updates, now, emitTime, rfl, -, hsent, hpending, -⟩ | ⟨hsent, hpending, -⟩ |
      ⟨hnone, hsent, hpending, -⟩
  · rcases h with hcarries | hnames
    · right
      unfold Carries pendingAt
      rw [hpending]
      exact hcarries
    · left
      rw [hsent]
      exact hnames
  · right
    unfold Carries at h ⊢
    rw [pendingAt_getD, hpending, Option.getD_some]
    rw [pendingAt_getD] at h
    exact changed_merge e.updates path h
  · left
    rw [hsent]
    rcases h with hcarries | ⟨update, hupdate, -⟩
    · unfold Carries at hcarries
      rw [pendingAt_getD] at hcarries
      exact names_entries (keyed_pending hs) hcarries
    · rw [hnone] at hupdate
      exact absurd hupdate List.not_mem_nil

theorem Names.append_left {q : String} {first rest : List (WorkspaceUpdate τ)}
    (h : Names path q first) : Names path q (first ++ rest) := by
  obtain ⟨update, hupdate, hnamed⟩ := h
  exact ⟨update, List.mem_append_left _ hupdate, hnamed⟩

theorem Names.append_right {q : String} {first rest : List (WorkspaceUpdate τ)}
    (h : Names path q rest) : Names path q (first ++ rest) := by
  obtain ⟨update, hupdate, hnamed⟩ := h
  exact ⟨update, List.mem_append_right _ hupdate, hnamed⟩

theorem carries_run {events : List (Event τ)} {q : String} (hs : Waiting s)
    (h : Carries s path q) :
    Names path q (emitted throttleMs s events) ∨
      Carries (Relational.run (next throttleMs) s events) path q := by
  induction events generalizing s with
  | nil => exact Or.inr h
  | cons e events ih =>
    rcases carries_next hs (Or.inl h) with hnames | hcarries
    · exact Or.inl hnames.append_left
    · exact (ih (waiting_next hs e) hcarries).imp Names.append_right id

theorem waiting_run {events : List (Event τ)} (hs : Waiting s) :
    Waiting (Relational.run (next throttleMs) s events) := by
  induction events generalizing s with
  | nil => exact hs
  | cons e events ih => exact ih (waiting_next hs e)

end Steps

/-- The property of a run: the trees of a path are emitted in the order in which they were
scheduled and, once no timer is pending, end with the last one scheduled; and every changed path
that was scheduled is then named by an emission that is not earlier. -/
structure NeitherLostNorReordered (throttleMs : ℚ) (events : List (Event τ)) : Prop where
  ordered : ∀ path, (trees path (emitted throttleMs create events)).Sublist
    (trees path (scheduled events))
  last : (Relational.run (next throttleMs) create events).throttleTimer = none →
    ∀ path, (trees path (emitted throttleMs create events)).getLast? =
      (trees path (scheduled events)).getLast?
  changed : (Relational.run (next throttleMs) create events).throttleTimer = none →
    ∀ before e after, events = before ++ e :: after → ∀ path q, Names path q e.updates →
      Names path q (emitted throttleMs (Relational.run (next throttleMs) create before)
        (e :: after))

theorem changed_always (throttleMs : ℚ) {before after : List (Event τ)} {e : Event τ}
    (hdone : (Relational.run (next throttleMs) create (before ++ e :: after)).throttleTimer = none)
    {path q : String} (hq : Names path q e.updates) :
    Names path q (emitted throttleMs (Relational.run (next throttleMs) create before)
      (e :: after)) := by
  have hbefore : Waiting (Relational.run (next throttleMs) (create : Throttle τ) before) :=
    waiting_run waiting_create
  rw [emitted]
  rcases carries_next hbefore (Or.inr hq) with hnames | hcarries
  · exact hnames.append_left
  · rcases carries_run (waiting_next hbefore e) hcarries with hnames | hcarries
    · exact hnames.append_right
    · have hwaiting : Waiting (Relational.run (next throttleMs) create (before ++ e :: after)) :=
        waiting_run (waiting_create (τ := τ))
      have hidle := pendingAt_of_idle hwaiting hdone path
      rw [Relational.run_append, Relational.run_cons] at hidle
      unfold Carries at hcarries
      rw [hidle] at hcarries
      exact absurd hcarries List.not_mem_nil

/-- Workspace updates are neither lost nor reordered in every run in which no update is emitted at
once while an older one for its path waits for the timer. -/
theorem updates_in_order {throttleMs : ℚ} (events : List (Event τ))
    (hmeets : Relational.Along (next throttleMs) (Meets throttleMs) create events) :
    NeitherLostNorReordered throttleMs events := by
  have hall : ∀ path, InOrder (Relational.run (next throttleMs) create events) path
      (trees path (emitted throttleMs create events)) (trees path (scheduled events)) := by
    intro path
    have hstart : InOrder (create : Throttle τ) path [] [] := ⟨List.nil_sublist _, rfl⟩
    simpa using inOrder_run waiting_create hstart hmeets
  refine ⟨?_, ?_, ?_⟩
  · intro path
    exact (List.sublist_append_left _ _).trans (hall path).ordered
  · intro hidle path
    have hlast := (hall path).last
    rw [waitingTree, pendingAt_of_idle (waiting_run waiting_create) hidle, Option.map_none,
      Option.toList_none, List.append_nil] at hlast
    exact hlast
  · intro hidle before e after heq path q hq
    rw [heq] at hidle
    exact changed_always throttleMs hidle hq

def update (root : ℕ) : WorkspaceUpdate ℕ := ⟨"notes", root, false, some ["notes/a.md"]⟩

theorem updates_in_order_witness :
    NeitherLostNorReordered (τ := ℕ) 1000 [.schedule [update 1] 1000 1000,
      .schedule [update 2] 1500 1500, .schedule [update 3] 1600 1600, .fire 2050] :=
  updates_in_order _ ⟨by decide +kernel, by decide +kernel, by decide +kernel, trivial, trivial⟩

/-- The timer due at 2000 fires at 2150. The update scheduled at 2100 is emitted at once, and the
tree that has waited since 1500 follows it. -/
theorem late_timer_reorders :
    ¬ ∀ (throttleMs : ℚ) (events : List (Event ℕ)), 0 < throttleMs →
      Timely throttleMs create 0 events → NeitherLostNorReordered throttleMs events := by
  intro h
  have hrun := h 1000 [.schedule [update 1] 1000 1000, .schedule [update 2] 1500 1500,
    .schedule [update 3] 2100 2100, .fire 2150] (by decide +kernel)
    ⟨by decide +kernel, by decide +kernel, by decide +kernel, by decide +kernel, trivial⟩
  have hlast := hrun.last (by decide +kernel) "notes"
  exact absurd hlast (by decide +kernel)

end Piclaw.WorkspaceUpdates
