import Piclaw.TotpFailures
import Piclaw.BranchHandles

/-!
# Signing in with a TOTP code

`handleAuthVerifyRequest` over the failure tracker. The session of an accepted code is issued in a
write that is awaited, so requests run between a verified code and the clearing of its failures.
-/

namespace Piclaw.TotpFailures

inductive AccessMode
  | singleUser
  | isolatedContainers
deriving DecidableEq

structure VerifyRequest where
  accessMode : Option AccessMode
  isAuthEnabled : Bool
  isTotpEnabled : Bool
  /-- `none` is a body that is not JSON, `some none` one without a string under `code`. -/
  body : Option (Option String)
  clientKey : String
  /-- What `verifyTotp` says about a code, with the secret and the time window of the moment. -/
  verifyTotp : String → Bool

inductive Outcome
  | refused (error : String) (status : ℕ)
  | lockedOut (error : String) (status : ℕ)
  | failed (clientKey : String) (now : ℚ) (error : String) (status : ℕ)
  | issuing
  | notIssued (error : String) (status : ℕ)
  | signedIn (clientKey : String)
  | idle
deriving DecidableEq

inductive Event
  | request (r : VerifyRequest) (now : ℚ)
  /-- The awaited write of the waiting sign-in number `i` comes back. -/
  | settled (i : ℕ) (issued : Bool)

structure Endpoint where
  failureTracker : TotpFailureTracker
  /-- The client keys of the sign-ins whose session is being written. -/
  waiting : List String

def Endpoint.create (now : ℚ) : Endpoint := ⟨TotpFailures.create now, []⟩

variable (c : Settings)

/-- `handleAuthVerifyRequest` after the checks that do not involve the tracker. -/
def evaluate (s : Endpoint) (clientKey : String) (verified : Bool) (now : ℚ) : Outcome × Endpoint :=
  let (locked, tracker) := isLocked c s.failureTracker clientKey now
  if locked then
    (.lockedOut "Too many failed attempts. Try again later." 429,
      { s with failureTracker := tracker })
  else if verified then
    (.issuing, ⟨tracker, s.waiting ++ [clientKey]⟩)
  else
    let (failure, tracker) := recordFailure c tracker clientKey now
    let s := { s with failureTracker := tracker }
    if failure.locked then
      (.failed clientKey now "Too many failed attempts. Try again later." 429, s)
    else (.failed clientKey now "Invalid code" 401, s)

def handleAuthVerifyRequest (s : Endpoint) (r : VerifyRequest) (now : ℚ) : Outcome × Endpoint :=
  if r.accessMode.any (fun mode => mode ≠ .singleUser) then
    (.refused "Account authentication unavailable" 503, s)
  else if !r.isAuthEnabled || !r.isTotpEnabled then (.refused "Auth disabled" 404, s)
  else
    match r.body with
    | none => (.refused "Invalid JSON" 400, s)
    | some code =>
      let code := trim (code.getD "")
      if code = "" then (.refused "Missing code" 400, s)
      else evaluate c s r.clientKey (r.verifyTotp code) now

/-- `handleAuthVerifyRequest` after the write. -/
def settle (s : Endpoint) (i : ℕ) (issued : Bool) : Outcome × Endpoint :=
  match s.waiting[i]? with
  | none => (.idle, s)
  | some clientKey =>
    let s := { s with waiting := s.waiting.eraseIdx i }
    if issued then
      (.signedIn clientKey, { s with failureTracker := clear s.failureTracker clientKey })
    else (.notIssued "Authentication changed; retry sign-in." 401, s)

def answer (s : Endpoint) : Event → Outcome × Endpoint
  | .request r now => handleAuthVerifyRequest c s r now
  | .settled i issued => settle s i issued

def next (s : Endpoint) (e : Event) : Endpoint := (answer c s e).2

def SignsIn (key : String) (s : Endpoint) (e : Event) : Prop := (answer c s e).1 = .signedIn key

instance (key : String) (s : Endpoint) (e : Event) : Decidable (SignsIn c key s e) :=
  inferInstanceAs (Decidable (_ = _))

def Outcome.failedAt? (key : String) : Outcome → Option ℚ
  | .failed clientKey now _ _ => if clientKey = key then some now else none
  | _ => none

/-- The times at which a code of `key` was evaluated and wrong. -/
def failedEvaluations (key : String) : Endpoint → List Event → List ℚ
  | _, [] => []
  | s, e :: events =>
    ((answer c s e).1.failedAt? key).toList ++ failedEvaluations key (next c s e) events

def Event.time (clock : ℚ) : Event → ℚ
  | .request _ now => now
  | .settled _ _ => clock

/-- The calls are made at non-decreasing times in the interval from `start` to `stop`. -/
def Ordered : ℚ → List Event → ℚ → Prop
  | start, [], stop => start ≤ stop
  | start, e :: events, stop => start ≤ e.time start ∧ Ordered (e.time start) events stop

/-- What a call asks of the tracker. -/
def operations (s : Endpoint) : Event → List Operation
  | .request r now =>
    match (handleAuthVerifyRequest c s r now).1 with
    | .lockedOut _ _ => [.isLocked r.clientKey now]
    | .issuing => [.isLocked r.clientKey now]
    | .failed _ _ _ _ => [.isLocked r.clientKey now, .recordFailure r.clientKey now]
    | _ => []
  | .settled i issued =>
    match (settle s i issued).1 with
    | .signedIn clientKey => [.clear clientKey]
    | _ => []

def runOperations : Endpoint → List Event → List Operation
  | _, [] => []
  | s, e :: events => operations c s e ++ runOperations (next c s e) events

section Guesses
variable {c} {now now' : ℚ} {entry entry' : Option TotpFailureEntry} {failed : List ℚ}

def period (c : Settings) : ℚ := min c.failureWindowMs c.lockoutMs

/-- What the entry of a key says about the failures `failed` of the key since some earlier moment:
a window finds at least as many in the entry, the last of them has locked the key when it
completed the limit, and no period has more of them than the limit. -/
structure Counts (c : Settings) (now : ℚ) (entry : Option TotpFailureEntry)
    (failed : List ℚ) : Prop where
  remembered : ∀ u, now ≤ u →
    (inWindow c u failed).length ≤ (inWindow c u (priorFailures entry)).length
  sorted : failed.Pairwise (· ≤ ·)
  past : ∀ ts ∈ failed, ts ≤ now
  locks : ∀ g, failed.getLast? = some g → c.failureLimit ≤ (inWindow c g failed).length →
    ∀ u, now ≤ u → u < g + c.lockoutMs → entryLocked entry u = true
  few : ∀ a, (failed.filter (fun ts => decide (a ≤ ts ∧ ts < a + period c))).length ≤
    ⌈c.failureLimit⌉₊

theorem counts_nil (c : Settings) (now : ℚ) (entry : Option TotpFailureEntry) :
    Counts c now entry [] where
  remembered _ _ := Nat.zero_le _
  sorted := List.Pairwise.nil
  past _ h := absurd h List.not_mem_nil
  locks _ h := absurd h (by simp)
  few _ := Nat.zero_le _

theorem Counts.later (h : Counts c now entry failed) (hle : now ≤ now') :
    Counts c now' entry failed where
  remembered u hu := h.remembered u (hle.trans hu)
  sorted := h.sorted
  past ts hts := (h.past ts hts).trans hle
  locks g hg hlimit u hu := h.locks g hg hlimit u (hle.trans hu)
  few := h.few

theorem Pruned.entryLocked (h : Pruned c now entry entry') (hle : now ≤ now') :
    entryLocked entry' now' = entryLocked entry now' := by
  cases h with
  | kept => rfl
  | trimmed entry => rfl
  | dropped entry hempty hpast =>
    exact (decide_eq_false (not_lt.mpr (hpast.trans hle))).symm

theorem Counts.pruned (h : Counts c now entry failed) (hp : Pruned c now entry entry') :
    Counts c now entry' failed where
  remembered u hu := by
    rw [hp.inWindow hu]
    exact h.remembered u hu
  sorted := h.sorted
  past := h.past
  locks g hg hlimit u hu hbefore := by
    rw [hp.entryLocked hu]
    exact h.locks g hg hlimit u hu hbefore
  few := h.few

theorem inWindow_append (u : ℚ) (first rest : List ℚ) :
    inWindow c u (first ++ rest) = inWindow c u first ++ inWindow c u rest :=
  List.filter_append ..

theorem inWindow_inWindow {u v : ℚ} (hle : u ≤ v) (failures : List ℚ) :
    inWindow c v (inWindow c u failures) = inWindow c v failures := by
  unfold inWindow
  rw [List.filter_filter]
  apply List.filter_congr
  intro ts _
  rw [Bool.and_eq_left_iff_imp]
  intro hts
  have hreach : v - c.failureWindowMs < ts := of_decide_eq_true hts
  exact decide_eq_true (by linarith)

theorem recordEntry_failures (entry : Option TotpFailureEntry) (now : ℚ) :
    (recordEntry c entry now).1.failures = inWindow c now (priorFailures entry) ++ [now] := rfl

theorem le_of_mem_getLast? {g ts : ℚ} (hsorted : failed.Pairwise (· ≤ ·))
    (hg : failed.getLast? = some g) (hts : ts ∈ failed) : ts ≤ g := by
  obtain ⟨before, rfl⟩ := List.getLast?_eq_some_iff.mp hg
  rcases List.mem_append.mp hts with hts | hts
  · exact (List.pairwise_append.mp hsorted).2.2 ts hts g (List.mem_singleton_self g)
  · exact (List.mem_singleton.mp hts).le

/-- Before an evaluation that is let through, a period that reaches the present has room. -/
theorem Counts.room (h : Counts c now entry failed) (hlimit : 0 < c.failureLimit)
    (hopen : entryLocked entry now = false) {a : ℚ} (hnow : now < a + period c) :
    (failed.filter (fun ts => decide (a ≤ ts ∧ ts < a + period c))).length < ⌈c.failureLimit⌉₊ := by
  have hwindow : period c ≤ c.failureWindowMs := min_le_left _ _
  have hlockout : period c ≤ c.lockoutMs := min_le_right _ _
  cases hg : failed.getLast? with
  | none =>
    rw [List.getLast?_eq_none_iff.mp hg]
    exact Nat.ceil_pos.mpr hlimit
  | some g =>
    have hlast : g ∈ failed := List.mem_of_getLast? hg
    -- What the period holds lies in the window of the last failure, which did not reach the limit.
    have hfew : (inWindow c g failed).length < c.failureLimit ∨ g < a := by
      by_contra! hmany
      have hlocked := h.locks g hg hmany.1 now le_rfl (by linarith [hmany.2])
      rw [hopen] at hlocked
      cases hlocked
    rcases hfew with hfew | hearly
    · rw [Nat.lt_ceil]
      refine lt_of_le_of_lt (Nat.cast_le.mpr ?_) hfew
      apply List.Sublist.length_le
      apply List.monotone_filter_right
      intro ts hts
      have hts : a ≤ ts ∧ ts < a + period c := of_decide_eq_true hts
      have hgnow : g ≤ now := h.past g hlast
      exact decide_eq_true (by linarith [hts.1])
    · have hnone : failed.filter (fun ts => decide (a ≤ ts ∧ ts < a + period c)) = [] := by
        rw [List.filter_eq_nil_iff]
        intro ts hts hin
        have hin : a ≤ ts ∧ ts < a + period c := of_decide_eq_true hin
        exact absurd (hin.1.trans (le_of_mem_getLast? h.sorted hg hts)) (not_le.mpr hearly)
      rw [hnone]
      exact Nat.ceil_pos.mpr hlimit

theorem Counts.recordEntry (h : Counts c now entry failed) (hlimit : 0 < c.failureLimit)
    (hopen : entryLocked entry now = false) :
    Counts c now (some (recordEntry c entry now).1) (failed ++ [now]) where
  remembered u hu := by
    dsimp only [priorFailures, Option.map_some, Option.getD_some]
    rw [recordEntry_failures, inWindow_append, inWindow_append, inWindow_inWindow hu,
      List.length_append, List.length_append]
    exact Nat.add_le_add_right (h.remembered u hu) _
  sorted := by
    rw [List.pairwise_append]
    refine ⟨h.sorted, List.pairwise_singleton _ _, ?_⟩
    intro ts hts last hlast
    rw [List.mem_singleton.mp hlast]
    exact h.past ts hts
  past ts hts := by
    rcases List.mem_append.mp hts with hts | hts
    · exact h.past ts hts
    · exact (List.mem_singleton.mp hts).le
  locks g hg hreached u hu hbefore := by
    rw [List.getLast?_append_of_ne_nil _ (List.cons_ne_nil _ _), List.getLast?_singleton,
      Option.some_inj] at hg
    subst hg
    have hcount : (inWindow c now (failed ++ [now])).length ≤
        (inWindow c now (priorFailures entry) ++ [now]).length := by
      rw [inWindow_append, List.length_append, List.length_append]
      exact Nat.add_le_add (h.remembered now le_rfl) (List.length_filter_le _ _)
    have hlocked : c.failureLimit ≤ (inWindow c now (priorFailures entry) ++ [now]).length :=
      hreached.trans (Nat.cast_le.mpr hcount)
    have hdeadline : (TotpFailures.recordEntry c entry now).1.lockedUntil = now + c.lockoutMs :=
      if_pos (decide_eq_true hlocked)
    unfold entryLocked
    rw [Option.any_some, hdeadline]
    exact decide_eq_true hbefore
  few a := by
    rw [List.filter_append, List.length_append]
    by_cases hin : a ≤ now ∧ now < a + period c
    · rw [List.filter_cons_of_pos (by rwa [decide_eq_true_eq]), List.filter_nil]
      exact h.room hlimit hopen hin.2
    · rw [List.filter_cons_of_neg (by rwa [decide_eq_true_eq]), List.filter_nil]
      exact h.few a

end Guesses

section Runs
variable {c} {key : String} {s : Endpoint} {now now' : ℚ} {failed : List ℚ}

def entryOf (key : String) (s : Endpoint) : Option TotpFailureEntry :=
  s.failureTracker.entries.get key

theorem evaluate_counts (hlimit : 0 < c.failureLimit) (clientKey : String) (verified : Bool)
    (h : Counts c now (entryOf key s) failed) :
    Counts c now (entryOf key (evaluate c s clientKey verified now).2)
      (failed ++ ((evaluate c s clientKey verified now).1.failedAt? key).toList) := by
  have hpruned : Counts c now ((prune c s.failureTracker now).entries.get key) failed :=
    h.pruned (prune_get _ now key)
  unfold evaluate isLocked
  dsimp only
  split_ifs with hlocked hverified hfailure
  · simpa [Outcome.failedAt?, entryOf] using hpruned
  · simpa [Outcome.failedAt?, entryOf] using hpruned
  all_goals
    have hagain := hpruned.pruned (prune_get (c := c) (prune c s.failureTracker now) now key)
    unfold Outcome.failedAt? entryOf
    dsimp only
    by_cases hkey : clientKey = key
    · subst hkey
      rw [get_recordFailure_self, if_pos rfl]
      refine hagain.recordEntry hlimit ?_
      rw [(prune_get (prune c s.failureTracker now) now clientKey).entryLocked le_rfl]
      exact Bool.eq_false_iff.mpr hlocked
    · rw [get_recordFailure_of_ne hkey, if_neg hkey]
      simpa using hagain

theorem answer_counts (hlimit : 0 < c.failureLimit) (e : Event)
    (h : Counts c now (entryOf key s) failed) (hle : now ≤ e.time now)
    (hkeeps : ¬ SignsIn c key s e) :
    Counts c (e.time now) (entryOf key (next c s e))
      (failed ++ ((answer c s e).1.failedAt? key).toList) := by
  cases e with
  | request r at_ =>
    have hlater : Counts c at_ (entryOf key s) failed := h.later hle
    dsimp only [Event.time, next, answer, handleAuthVerifyRequest]
    split_ifs
    · simpa [Outcome.failedAt?] using hlater
    · simpa [Outcome.failedAt?] using hlater
    · cases hbody : r.body with
      | none => simpa [Outcome.failedAt?] using hlater
      | some code =>
        dsimp only
        split_ifs
        · simpa [Outcome.failedAt?] using hlater
        · exact evaluate_counts hlimit _ _ hlater
  | settled i issued =>
    dsimp only [Event.time, next, answer, settle]
    cases hwaiting : s.waiting[i]? with
    | none => simpa [Outcome.failedAt?] using h
    | some clientKey =>
      dsimp only
      split_ifs with hissued
      · have hne : clientKey ≠ key := by
          intro heq
          apply hkeeps
          simp [SignsIn, answer, settle, hwaiting, hissued, heq]
        dsimp only [entryOf]
        rw [get_clear_of_ne hne]
        simpa [Outcome.failedAt?, entryOf] using h
      · simpa [Outcome.failedAt?, entryOf] using h

theorem run_counts (hlimit : 0 < c.failureLimit) {events : List Event}
    (h : Counts c now (entryOf key s) failed) {stop : ℚ} (hordered : Ordered now events stop)
    (hkeeps : Relational.Along (next c) (fun s e => ¬ SignsIn c key s e) s events) :
    ∃ now' entry, Counts c now' entry (failed ++ failedEvaluations c key s events) := by
  induction events generalizing s now failed with
  | nil =>
    refine ⟨now, entryOf key s, ?_⟩
    rw [failedEvaluations, List.append_nil]
    exact h
  | cons e events ih =>
    rw [failedEvaluations, ← List.append_assoc]
    exact ih (answer_counts hlimit e h hordered.1 hkeeps.1) hordered.2 hkeeps.2

theorem ordered_append {first rest : List Event} {stop : ℚ}
    (h : Ordered now (first ++ rest) stop) : ∃ now', Ordered now' rest stop := by
  induction first generalizing now with
  | nil => exact ⟨now, h⟩
  | cons e first ih => exact ih h.2

theorem answer_operations (e : Event) (hle : now ≤ e.time now) :
    (next c s e).failureTracker = Relational.run (step c) s.failureTracker (operations c s e) ∧
      Chronological now (operations c s e) (e.time now) := by
  cases e with
  | request r at_ =>
    have hnow : now ≤ at_ := hle
    have hat : Chronological now [] at_ := hle
    dsimp only [next, answer, operations, handleAuthVerifyRequest, Event.time]
    split_ifs
    · exact ⟨rfl, hat⟩
    · exact ⟨rfl, hat⟩
    · cases hbody : r.body with
      | none => exact ⟨rfl, hat⟩
      | some code =>
        dsimp only
        split_ifs
        · exact ⟨rfl, hat⟩
        · unfold evaluate isLocked
          dsimp only
          split_ifs
          all_goals exact ⟨rfl, by simpa [Chronological, Operation.time?] using hnow⟩
  | settled i issued =>
    dsimp only [next, answer, operations, settle, Event.time]
    cases s.waiting[i]? with
    | none => exact ⟨rfl, hle⟩
    | some clientKey =>
      dsimp only
      split_ifs
      all_goals exact ⟨rfl, by simp [Chronological, Operation.time?]⟩

theorem run_operations {events : List Event} {stop : ℚ} (hordered : Ordered now events stop) :
    (Relational.run (next c) s events).failureTracker =
        Relational.run (step c) s.failureTracker (runOperations c s events) ∧
      Chronological now (runOperations c s events) stop := by
  induction events generalizing s now with
  | nil => exact ⟨rfl, hordered⟩
  | cons e events ih =>
    obtain ⟨hrest, htimes⟩ := ih (s := next c s e) hordered.2
    obtain ⟨hfirst, htime⟩ := answer_operations (c := c) (s := s) e hordered.1
    rw [runOperations, Relational.run_append, Relational.run_cons, hrest, hfirst]
    exact ⟨rfl, chronological_append htime htimes⟩

end Runs

def strictConfig : TotpFailureConfig := ⟨some 10, some 2, some 10, some 5⟩

def wrongCode : VerifyRequest where
  accessMode := none
  isAuthEnabled := true
  isTotpEnabled := true
  body := some (some "000000")
  clientKey := "a"
  verifyTotp := fun _ => false

end Piclaw.TotpFailures
