import Piclaw.OrderedMap
import Piclaw.Transactions

/-!
# Failed sign-in codes and lockouts

The tracker keeps per client key the times of the failed codes and a lockout deadline, and prunes
lazily with a cut-off of its own. What it answers about a key is compared with what the key's
entry would be if nothing were ever pruned and no other key existed.
-/

namespace Piclaw.TotpFailures

structure TotpFailureConfig where
  failureWindowMs : Option ℚ
  failureLimit : Option ℚ
  lockoutMs : Option ℚ
  pruneIntervalMs : Option ℚ

structure TotpFailureSnapshot where
  failures : ℕ
  locked : Bool
  lockedUntil : ℚ
deriving DecidableEq

/-- The read-only fields of a tracker. -/
structure Settings where
  failureWindowMs : ℚ
  failureLimit : ℚ
  lockoutMs : ℚ
  pruneIntervalMs : ℚ

def settings (config : TotpFailureConfig) : Settings where
  failureWindowMs := config.failureWindowMs.getD (5 * 60 * 1000)
  failureLimit := config.failureLimit.getD 5
  lockoutMs := config.lockoutMs.getD (5 * 60 * 1000)
  pruneIntervalMs := config.pruneIntervalMs.getD (10 * 60 * 1000)

structure TotpFailureEntry where
  failures : List ℚ
  lockedUntil : ℚ

structure TotpFailureTracker where
  entries : OrderedMap String TotpFailureEntry
  lastPrune : ℚ

/-- A tracker constructed at the time `now`. -/
def create (now : ℚ) : TotpFailureTracker := ⟨OrderedMap.empty, now⟩

variable (c : Settings)

def pruneEntry (now : ℚ) (entry : TotpFailureEntry) : TotpFailureEntry :=
  let cutoff := now - max c.failureWindowMs c.lockoutMs
  { entry with failures := entry.failures.filter (fun ts => decide (cutoff < ts)) }

def prune (t : TotpFailureTracker) (now : ℚ) : TotpFailureTracker :=
  if now - t.lastPrune < c.pruneIntervalMs then t
  else
    { lastPrune := now
      entries := (t.entries.mapValues (fun _ => pruneEntry c now)).filterEntries
        (fun _ entry => !(entry.failures.isEmpty && decide (entry.lockedUntil ≤ now))) }

def entryLocked (entry : Option TotpFailureEntry) (now : ℚ) : Bool :=
  entry.any (fun entry => decide (now < entry.lockedUntil))

def isLocked (t : TotpFailureTracker) (clientKey : String) (now : ℚ) :
    Bool × TotpFailureTracker :=
  let t := prune c t now
  (entryLocked (t.entries.get clientKey) now, t)

def priorFailures (prior : Option TotpFailureEntry) : List ℚ :=
  (prior.map TotpFailureEntry.failures).getD []

def priorDeadline (prior : Option TotpFailureEntry) : ℚ :=
  (prior.map TotpFailureEntry.lockedUntil).getD 0

/-- The part of `recordFailure` that looks at one entry only. -/
def recordEntry (prior : Option TotpFailureEntry) (now : ℚ) :
    TotpFailureEntry × TotpFailureSnapshot :=
  let cutoff := now - c.failureWindowMs
  let failures := (priorFailures prior).filter (fun ts => decide (cutoff < ts)) ++ [now]
  let locked := decide (c.failureLimit ≤ failures.length)
  let lockedUntil := if locked then now + c.lockoutMs else priorDeadline prior
  (⟨failures, lockedUntil⟩, ⟨failures.length, locked, lockedUntil⟩)

def recordFailure (t : TotpFailureTracker) (clientKey : String) (now : ℚ) :
    TotpFailureSnapshot × TotpFailureTracker :=
  let t := prune c t now
  let recorded := recordEntry c (t.entries.get clientKey) now
  (recorded.2, { t with entries := t.entries.set clientKey recorded.1 })

def clear (t : TotpFailureTracker) (clientKey : String) : TotpFailureTracker :=
  { t with entries := t.entries.delete clientKey }

inductive Operation
  | isLocked (clientKey : String) (now : ℚ)
  | recordFailure (clientKey : String) (now : ℚ)
  | prune (now : ℚ)
  | clear (clientKey : String)

def step (t : TotpFailureTracker) : Operation → TotpFailureTracker
  | .isLocked clientKey now => (isLocked c t clientKey now).2
  | .recordFailure clientKey now => (recordFailure c t clientKey now).2
  | .prune now => prune c t now
  | .clear clientKey => clear t clientKey

/-- The entry of `key` if nothing is ever pruned: only the operations of this key count. -/
def aloneStep (key : String) (entry : Option TotpFailureEntry) :
    Operation → Option TotpFailureEntry
  | .isLocked _ _ => entry
  | .recordFailure clientKey now =>
    if clientKey = key then some (recordEntry c entry now).1 else entry
  | .prune _ => entry
  | .clear clientKey => if clientKey = key then none else entry

def Operation.time? : Operation → Option ℚ
  | .isLocked _ now => some now
  | .recordFailure _ now => some now
  | .prune now => some now
  | .clear _ => none

def Operation.concerns (key : String) : Operation → Bool
  | .isLocked clientKey _ => decide (clientKey = key)
  | .recordFailure clientKey _ => decide (clientKey = key)
  | .prune _ => false
  | .clear clientKey => decide (clientKey = key)

/-- The operations take place at non-decreasing times in the interval from `start` to `stop`. -/
def Chronological : ℚ → List Operation → ℚ → Prop
  | start, [], stop => start ≤ stop
  | start, op :: ops, stop =>
    start ≤ op.time?.getD start ∧ Chronological (op.time?.getD start) ops stop

instance decidableChronological : ∀ start ops stop, Decidable (Chronological start ops stop)
  | _, [], _ => inferInstanceAs (Decidable (_ ≤ _))
  | start, op :: ops, stop =>
    have := decidableChronological (op.time?.getD start) ops stop
    inferInstanceAs (Decidable (_ ∧ _))

section Entries
variable {c} {t : TotpFailureTracker} {key : String} {now : ℚ}

/-- What pruning may do to an entry: forget the failures before both periods, and forget the entry
when nothing is left and its deadline has passed. -/
inductive Pruned (c : Settings) (now : ℚ) :
    Option TotpFailureEntry → Option TotpFailureEntry → Prop
  | kept (entry : Option TotpFailureEntry) : Pruned c now entry entry
  | trimmed (entry : TotpFailureEntry) : Pruned c now (some entry) (some (pruneEntry c now entry))
  | dropped (entry : TotpFailureEntry) (hempty : (pruneEntry c now entry).failures = [])
      (hpast : entry.lockedUntil ≤ now) : Pruned c now (some entry) none

theorem prune_get (t : TotpFailureTracker) (now : ℚ) (key : String) :
    Pruned c now (t.entries.get key) ((prune c t now).entries.get key) := by
  unfold prune
  split_ifs with hinterval
  · exact .kept _
  · rw [OrderedMap.get_filterEntries, OrderedMap.get_mapValues]
    cases hentry : t.entries.get key with
    | none => exact .kept none
    | some entry =>
      rw [Option.map_some, Option.filter_some]
      split_ifs with hkeep
      · exact .trimmed entry
      · rw [Bool.not_eq_true, Bool.not_eq_false', Bool.and_eq_true, decide_eq_true_eq] at hkeep
        exact .dropped entry (List.isEmpty_iff.mp hkeep.1) hkeep.2

theorem get_recordFailure_self :
    (recordFailure c t key now).2.entries.get key =
      some (recordEntry c ((prune c t now).entries.get key) now).1 :=
  OrderedMap.get_set_self _ _ _

theorem get_recordFailure_of_ne {clientKey : String} (hne : clientKey ≠ key) :
    (recordFailure c t clientKey now).2.entries.get key = (prune c t now).entries.get key :=
  OrderedMap.get_set_of_ne _ _ (Ne.symm hne)

theorem get_clear_of_ne {clientKey : String} (hne : clientKey ≠ key) :
    (clear t clientKey).entries.get key = t.entries.get key := by
  unfold clear
  rw [OrderedMap.get_delete, if_neg (Ne.symm hne)]

theorem get_clear_self : (clear t key).entries.get key = none := by
  unfold clear
  rw [OrderedMap.get_delete, if_pos rfl]

end Entries

section Pruning
variable {c}

def inWindow (c : Settings) (u : ℚ) (failures : List ℚ) : List ℚ :=
  failures.filter (fun ts => decide (u - c.failureWindowMs < ts))

/-- Pruning forgets nothing that a later window reaches. -/
theorem inWindow_pruneEntry {now u : ℚ} (hle : now ≤ u) (entry : TotpFailureEntry) :
    inWindow c u (pruneEntry c now entry).failures = inWindow c u entry.failures := by
  unfold inWindow pruneEntry
  rw [List.filter_filter]
  apply List.filter_congr
  intro ts _
  have hmax : c.failureWindowMs ≤ max c.failureWindowMs c.lockoutMs := le_max_left _ _
  rw [Bool.and_eq_left_iff_imp]
  intro hts
  have hreach : u - c.failureWindowMs < ts := of_decide_eq_true hts
  exact decide_eq_true (by linarith)

theorem Pruned.inWindow {now u : ℚ} {entry entry' : Option TotpFailureEntry}
    (h : Pruned c now entry entry') (hle : now ≤ u) :
    inWindow c u (priorFailures entry') = inWindow c u (priorFailures entry) := by
  cases h with
  | kept => rfl
  | trimmed entry => exact inWindow_pruneEntry hle entry
  | dropped entry hempty hpast =>
    have hkept := inWindow_pruneEntry (c := c) hle entry
    rw [hempty] at hkept
    exact hkept

theorem Pruned.deadline {now : ℚ} {entry entry' : Option TotpFailureEntry}
    (h : Pruned c now entry entry') :
    priorDeadline entry' = priorDeadline entry ∨
      priorDeadline entry' = 0 ∧ priorDeadline entry ≤ now := by
  cases h with
  | kept => exact Or.inl rfl
  | trimmed entry => exact Or.inl rfl
  | dropped entry hempty hpast => exact Or.inr ⟨rfl, hpast⟩

theorem entryLocked_iff {entry : Option TotpFailureEntry} {now : ℚ} (hnow : 0 ≤ now) :
    entryLocked entry now = true ↔ now < priorDeadline entry := by
  cases entry with
  | none =>
    have hdeadline : ¬ now < priorDeadline none := not_lt.mpr hnow
    simp [entryLocked, hdeadline]
  | some entry => simp [entryLocked, priorDeadline]

end Pruning

theorem chronological_le {start stop : ℚ} {ops : List Operation}
    (h : Chronological start ops stop) : start ≤ stop := by
  induction ops generalizing start with
  | nil => exact h
  | cons op ops ih => exact h.1.trans (ih h.2)

theorem chronological_earlier {now start stop : ℚ} {ops : List Operation} (hle : now ≤ start)
    (h : Chronological start ops stop) : Chronological now ops stop := by
  induction ops generalizing now start with
  | nil => exact hle.trans h
  | cons op ops ih =>
    unfold Chronological at h ⊢
    cases htime : op.time? with
    | none =>
      rw [htime] at h
      exact ⟨le_rfl, ih hle h.2⟩
    | some time =>
      rw [htime] at h
      exact ⟨hle.trans h.1, h.2⟩

theorem chronological_append {start mid stop : ℚ} {first rest : List Operation}
    (hfirst : Chronological start first mid) (hrest : Chronological mid rest stop) :
    Chronological start (first ++ rest) stop := by
  induction first generalizing start with
  | nil => exact chronological_earlier hfirst hrest
  | cons op first ih => exact ⟨hfirst.1, ih hfirst.2⟩

section Alone
variable {c}

/-- What the entry and the one without pruning agree on from the time `now` on: the failures that a
window still reaches, and the deadline unless it has passed. -/
structure Remembers (c : Settings) (now : ℚ) (entry alone : Option TotpFailureEntry) : Prop where
  failures : ∀ u, now ≤ u →
    inWindow c u (priorFailures entry) = inWindow c u (priorFailures alone)
  deadline : priorDeadline entry = priorDeadline alone ∨
    priorDeadline entry = 0 ∧ priorDeadline alone ≤ now

variable {now now' : ℚ} {entry entry' alone : Option TotpFailureEntry}

theorem Remembers.later (h : Remembers c now entry alone) (hle : now ≤ now') :
    Remembers c now' entry alone where
  failures u hu := h.failures u (hle.trans hu)
  deadline := h.deadline.imp id (fun hpast => ⟨hpast.1, hpast.2.trans hle⟩)

theorem Remembers.pruned (h : Remembers c now entry alone) (hp : Pruned c now entry entry') :
    Remembers c now entry' alone where
  failures u hu := (hp.inWindow hu).trans (h.failures u hu)
  deadline := by
    rcases hp.deadline with hsame | ⟨hzero, hpast⟩
    · rw [hsame]
      exact h.deadline
    · rcases h.deadline with hsame | ⟨-, hpast'⟩
      · exact Or.inr ⟨hzero, hsame ▸ hpast⟩
      · exact Or.inr ⟨hzero, hpast'⟩

theorem Remembers.entryLocked (h : Remembers c now entry alone) (hnow : 0 ≤ now) :
    entryLocked entry now = entryLocked alone now := by
  rw [Bool.eq_iff_iff, entryLocked_iff hnow, entryLocked_iff hnow]
  rcases h.deadline with hsame | ⟨hzero, hpast⟩
  · rw [hsame]
  · rw [hzero]
    exact iff_of_false (not_lt.mpr hnow) (not_lt.mpr hpast)

/-- The answers agree, but for a deadline that has passed and may be forgotten. -/
def SameAnswer (now : ℚ) (answer alone : TotpFailureSnapshot) : Prop :=
  answer.failures = alone.failures ∧ answer.locked = alone.locked ∧
    (answer.lockedUntil = alone.lockedUntil ∨ answer.lockedUntil = 0 ∧ alone.lockedUntil ≤ now)

theorem Remembers.recordEntry (h : Remembers c now entry alone) :
    SameAnswer now (recordEntry c entry now).2 (recordEntry c alone now).2 ∧
      Remembers c now (some (recordEntry c entry now).1) (some (recordEntry c alone now).1) := by
  have hfailures : (priorFailures entry).filter (fun ts => decide (now - c.failureWindowMs < ts)) =
      (priorFailures alone).filter (fun ts => decide (now - c.failureWindowMs < ts)) :=
    h.failures now le_rfl
  have hdeadline : ∀ locked : Bool,
      (if locked then now + c.lockoutMs else priorDeadline entry) =
          (if locked then now + c.lockoutMs else priorDeadline alone) ∨
        (if locked then now + c.lockoutMs else priorDeadline entry) = 0 ∧
          (if locked then now + c.lockoutMs else priorDeadline alone) ≤ now := by
    intro locked
    cases locked with
    | true => exact Or.inl rfl
    | false => exact h.deadline
  unfold TotpFailures.recordEntry
  dsimp only
  rw [hfailures]
  exact ⟨⟨rfl, rfl, hdeadline _⟩, ⟨fun _ _ => rfl, hdeadline _⟩⟩

/-- One operation keeps the agreement, at the time it takes place. -/
theorem Remembers.step {t : TotpFailureTracker} {key : String} (op : Operation)
    (h : Remembers c now (t.entries.get key) alone) (hle : now ≤ op.time?.getD now) :
    Remembers c (op.time?.getD now) ((step c t op).entries.get key) (aloneStep c key alone op) := by
  cases op with
  | isLocked clientKey at_ => exact (h.later hle).pruned (prune_get t _ key)
  | prune at_ => exact (h.later hle).pruned (prune_get t _ key)
  | recordFailure clientKey at_ =>
    have hpruned := (h.later hle).pruned (prune_get t _ key)
    unfold aloneStep
    dsimp only
    split_ifs with hkey
    · subst hkey
      dsimp only [TotpFailures.step]
      rw [get_recordFailure_self]
      exact hpruned.recordEntry.2
    · dsimp only [TotpFailures.step]
      rw [get_recordFailure_of_ne hkey]
      exact hpruned
  | clear clientKey =>
    unfold aloneStep
    dsimp only
    split_ifs with hkey
    · subst hkey
      dsimp only [TotpFailures.step]
      rw [get_clear_self]
      exact ⟨fun _ _ => rfl, Or.inl rfl⟩
    · dsimp only [TotpFailures.step]
      rw [get_clear_of_ne hkey]
      exact h

theorem Remembers.run {t : TotpFailureTracker} {key : String} {stop : ℚ} {ops : List Operation}
    (h : Remembers c now (t.entries.get key) alone) (hops : Chronological now ops stop) :
    Remembers c stop ((Relational.run (TotpFailures.step c) t ops).entries.get key)
      (Relational.run (aloneStep c key) alone ops) := by
  induction ops generalizing now t alone with
  | nil => exact h.later hops
  | cons op ops ih => exact ih (h.step op hops.1) hops.2

theorem aloneStep_of_not_concerns {key : String} {op : Operation} (h : op.concerns key = false) :
    aloneStep c key alone op = alone := by
  cases op with
  | isLocked clientKey at_ => rfl
  | prune at_ => rfl
  | recordFailure clientKey at_ => exact if_neg (of_decide_eq_false h)
  | clear clientKey => exact if_neg (of_decide_eq_false h)

/-- Pruning and the operations of other keys leave no trace. -/
theorem run_concerns (c : Settings) (key : String) (alone : Option TotpFailureEntry)
    (ops : List Operation) :
    Relational.run (aloneStep c key) alone (ops.filter (Operation.concerns key)) =
      Relational.run (aloneStep c key) alone ops := by
  induction ops generalizing alone with
  | nil => rfl
  | cons op ops ih =>
    cases hop : op.concerns key with
    | true =>
      rw [List.filter_cons_of_pos hop]
      exact ih _
    | false =>
      rw [List.filter_cons_of_neg (by rw [hop]; exact Bool.false_ne_true), ih,
        Relational.run_cons, aloneStep_of_not_concerns hop]

/-- What a tracker answers about a key at the time `now`: the answers of the key's own operations
without any pruning. -/
theorem answers_alone {start : ℚ} (hstart : 0 ≤ start) (ops : List Operation)
    (hops : Chronological start ops now) (key : String) :
    let t := Relational.run (step c) (create start) ops
    let alone := Relational.run (aloneStep c key) none (ops.filter (Operation.concerns key))
    (isLocked c t key now).1 = entryLocked alone now ∧
      SameAnswer now (recordFailure c t key now).1 (recordEntry c alone now).2 := by
  intro t alone
  have hfresh : Remembers c start ((create start).entries.get key) none :=
    ⟨fun _ _ => rfl, Or.inl rfl⟩
  have hrun : Remembers c now (t.entries.get key) alone := by
    dsimp only [alone]
    rw [run_concerns]
    exact hfresh.run hops
  have hpruned := hrun.pruned (prune_get t now key)
  exact ⟨hpruned.entryLocked (hstart.trans (chronological_le hops)), hpruned.recordEntry.1⟩

end Alone

end Piclaw.TotpFailures
