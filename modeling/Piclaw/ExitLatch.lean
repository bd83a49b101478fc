import Piclaw.ProcessExit

/-!
# One exit at a time

An accepted command holds the latch until its exit is refused or done, an accepted `exit_process`
from the moment its exit is scheduled. Where no admission attempt meets the latch of another
request and no late verdict of a round meets a scheduled exit, there is one holder at most.
-/

namespace Piclaw
namespace ProcessExit

/-- What holds the latch: an accepted command before it schedules its exit, or an exit. -/
inductive Hold
  | command (request : ℕ)
  | exit (exit : ScheduledExit)
  deriving DecidableEq

namespace Activity

def hold : Activity → Option Hold
  | .commandAdmitted request _ => some (.command request)
  | .commandInspecting request _ => some (.command request)
  | .finishing exit _ => some (.exit exit)
  | _ => none

def exit : Activity → Option ScheduledExit
  | .finishing exit _ => some exit
  | _ => none

theorem hold_of_exit {a : Activity} {e : ScheduledExit} (h : a.exit = some e) :
    a.hold = some (.exit e) := by
  cases a with
  | finishing f phase =>
    cases h
    rfl
  | _ => cases h

end Activity

def Hold.request : Hold → ℕ
  | .command request => request
  | .exit e => e.request

namespace Controls
variable {s : Controls} {i : ℕ} {a : Activity}

/-- A scheduled exit is under way until its finish handler refuses it or shuts down. -/
structure Latched (s : Controls) : Prop where
  single : ∀ i j e f, (s.activities i).exit = some e → (s.activities j).exit = some f → i = j
  admits : ∀ i e, (s.activities i).exit = some e → ∀ input, (input = none ∨ input ≠ e.input) →
    s.assertAdmission input ≠ .ok ()
  once : s.shutdowns.Nodup

/-- A step requests no shutdown, or it is the return of `closeNative` to a handler that waits for
it, in an idle host. -/
def ShutdownAfterCleanup (s : Controls) (event : Event) : Prop :=
  (s.step event).shutdowns = s.shutdowns ∨
    ∃ i e, event = .nativeClosed i true ∧ s.activities i = .finishing e .cleanup ∧
      s.host.assertSqlIdle none = .ok () ∧ (s.step event).shutdowns = s.shutdowns ++ [e.request]

section Condition

/-- The attempt to accept an `exit_process` finds no receipt to roll back or to replace. -/
def ReceiptAlone (s : Controls) (scope : Scope) (attempt : WriteAttempt) : Prop :=
  match admitSqliteWrite s.host (s.host.assertSqlIdle (some scope)) attempt with
  | .thrown => True
  | .rolledBack | .waiting => s.pending = none
  | .committed => s.pending = none ∧ s.commandPending = false

/-- The attempt to accept a command finds no command to roll back and no other request. -/
def CommandAlone (s : Controls) (attempt : WriteAttempt) : Prop :=
  match admitSqliteWrite s.host (s.host.assertSqlIdle none) attempt with
  | .thrown => True
  | .rolledBack | .waiting => s.commandPending = false
  | .committed => s.pending = none ∧ s.commandPending = false

def Undisturbed (s : Controls) : Event → Prop
  | .exitProcessInspected i answer aborted _ attempt =>
    ∀ reason scope, s.activities i = .toolInspecting reason →
      s.host.exitScope reason answer aborted = .ok scope → s.ReceiptAlone scope attempt
  | .exitProcessRetried i attempt =>
    ∀ receipt scope, s.activities i = .toolAdmitting receipt scope → s.ReceiptAlone scope attempt
  | .commandRetried i attempt =>
    ∀ reason, s.activities i = .commandAdmitting reason → s.CommandAlone attempt
  | .roundVerified i result =>
    ∀ request receipt, s.activities i = .verifying request → result = .ok receipt →
      receipt.map (·.nonce) ≠ some request.nonce →
      s.pending = none ∨ ∀ j, (s.activities j).exit = none
  | _ => True

end Condition

/-- The flags while something holds the latch. -/
def Sealed (s : Controls) : Hold → Prop
  | .command _ => s.commandPending = true ∧ s.pending = none
  | .exit e => s.scheduled = true ∧ match e.input with
    | none => s.commandPending = true
    | some input => ∃ receipt, s.pending = some receipt ∧ receipt.input = input

structure Numbered (s : Controls) : Prop where
  shutdowns : ∀ n ∈ s.shutdowns, n < s.accepted
  pending : s.pending.isSome → s.pendingRequest < s.accepted
  fresh : s.scheduled = false → s.pending.isSome → s.pendingRequest ∉ s.shutdowns
  once : s.shutdowns.Nodup

structure Guarded (s : Controls) : Prop extends Numbered s where
  holds : ∀ i h, (s.activities i).hold = some h →
    s.Sealed h ∧ h.request < s.accepted ∧ h.request ∉ s.shutdowns
  single : ∀ i j, (s.activities i).hold.isSome → (s.activities j).hold.isSome → i = j

/-- Nothing holds the latch. -/
def Unheld (s : Controls) : Prop := ∀ i, (s.activities i).hold = none

section Holding

theorem activities_goto (j : ℕ) :
    (s.goto i a).activities j = if j = i then a else s.activities j := by
  unfold goto
  dsimp only
  rw [Function.update_apply]

theorem Unheld.guarded (hs : s.Unheld) (hn : s.Numbered) : s.Guarded := by
  refine ⟨hn, ?_, ?_⟩
  · intro i h hh
    rw [hs i] at hh
    cases hh
  · intro i j hi
    rw [hs i] at hi
    cases hi

theorem unheld_of_not_sealed (hs : s.Guarded) (h : ∀ hold, ¬ s.Sealed hold) : s.Unheld := by
  intro i
  cases hh : (s.activities i).hold with
  | none => rfl
  | some hold => exact absurd (hs.holds i hold hh).1 (h hold)

theorem unheld_of_no_latch (hs : s.Guarded) (hpending : s.pending = none)
    (hcommand : s.commandPending = false) : s.Unheld := by
  refine unheld_of_not_sealed hs fun hold hsealed => ?_
  cases hold with
  | command request =>
    rw [hsealed.1] at hcommand
    cases hcommand
  | exit e =>
    obtain ⟨-, hinput⟩ := hsealed
    cases hi : e.input with
    | none =>
      rw [hi] at hinput
      rw [show s.commandPending = true from hinput] at hcommand
      cases hcommand
    | some input =>
      rw [hi] at hinput
      obtain ⟨receipt, hreceipt, -⟩ := hinput
      rw [hreceipt] at hpending
      cases hpending

theorem unheld_of_unscheduled {receipt : NativeExitReceipt} (hs : s.Guarded)
    (hpending : s.pending = some receipt) (hscheduled : s.scheduled = false) : s.Unheld := by
  refine unheld_of_not_sealed hs fun hold hsealed => ?_
  cases hold with
  | command request =>
    rw [hsealed.2] at hpending
    cases hpending
  | exit e =>
    rw [hsealed.1] at hscheduled
    cases hscheduled

/-- The slot that holds the latch gives it up. -/
theorem unheld_goto (hs : s.Guarded) (hi : (s.activities i).hold.isSome) (ha : a.hold = none) :
    (s.goto i a).Unheld := by
  intro j
  rw [activities_goto]
  split_ifs with hj
  · exact ha
  · cases hh : (s.activities j).hold with
    | none => rfl
    | some hold => exact absurd (hs.single j i (by rw [hh]; rfl) hi) hj

theorem Unheld.goto (hs : s.Unheld) (ha : a.hold = none) : (s.goto i a).Unheld := by
  intro j
  rw [activities_goto]
  split_ifs
  · exact ha
  · exact hs j

theorem guarded_goto (hs : s.Guarded) (ha : a.hold = none ∨ a.hold = (s.activities i).hold) :
    (s.goto i a).Guarded := by
  have hold_of : ∀ j h, ((s.goto i a).activities j).hold = some h →
      (s.activities j).hold = some h := by
    intro j h hh
    rw [activities_goto] at hh
    split_ifs at hh with hj
    · rcases ha with hnone | hsame
      · rw [hnone] at hh
        cases hh
      · rw [hj, ← hsame]
        exact hh
    · exact hh
  refine ⟨⟨hs.shutdowns, hs.pending, hs.fresh, hs.once⟩, ?_, ?_⟩
  · intro j h hh
    exact hs.holds j h (hold_of j h hh)
  · intro j k hj hk
    obtain ⟨h, hh⟩ := Option.isSome_iff_exists.mp hj
    obtain ⟨h', hh'⟩ := Option.isSome_iff_exists.mp hk
    refine hs.single j k ?_ ?_
    · rw [hold_of j h hh]
      rfl
    · rw [hold_of k h' hh']
      rfl

theorem guarded_hold {h : Hold} (hs : s.Unheld) (hn : s.Numbered) (ha : a.hold = some h)
    (hsealed : s.Sealed h) (hrequest : h.request < s.accepted)
    (hnew : h.request ∉ s.shutdowns) : (s.goto i a).Guarded := by
  have only : ∀ j, ((s.goto i a).activities j).hold.isSome → j = i := by
    intro j hj
    rw [activities_goto] at hj
    split_ifs at hj with heq
    · exact heq
    · rw [hs j] at hj
      cases hj
  refine ⟨⟨hn.shutdowns, hn.pending, hn.fresh, hn.once⟩, ?_, ?_⟩
  · intro j h' hh
    have hj := only j (by rw [hh]; rfl)
    rw [activities_goto, if_pos hj, ha] at hh
    cases hh
    exact ⟨hsealed, hrequest, hnew⟩
  · intro j k hj hk
    rw [only j hj, only k hk]

end Holding

section Flags

theorem Numbered.clearPending (hn : s.Numbered) : Numbered { s with pending := none } := by
  refine ⟨hn.shutdowns, ?_, ?_, hn.once⟩
  · intro h
    cases h
  · intro _ h
    cases h

/-- A receipt whose exit is not under way can be dropped. -/
theorem guarded_clearPending (hs : s.Guarded) (hexit : ∀ j, (s.activities j).exit = none) :
    Guarded { s with pending := none } := by
  refine ⟨hs.toNumbered.clearPending, ?_, hs.single⟩
  intro j h hh
  cases h with
  | command request =>
    obtain ⟨⟨hcommand, -⟩, hrest⟩ := hs.holds j _ hh
    exact ⟨⟨hcommand, rfl⟩, hrest⟩
  | exit e =>
    exfalso
    have hnone := hexit j
    cases hact : s.activities j with
    | finishing f phase =>
      rw [hact] at hnone
      cases hnone
    | _ =>
      change (s.activities j).hold = some (.exit e) at hh
      rw [hact] at hh
      cases hh

theorem clearPending_eq (h : s.pending = none) : { s with pending := none } = s := by
  cases s
  cases h
  rfl

theorem clearCommand_eq (h : s.commandPending = false) :
    { s with commandPending := false } = s := by
  cases s
  cases h
  rfl

theorem Numbered.clearAll (hn : s.Numbered) :
    Numbered { s with pending := none, commandPending := false, scheduled := false } := by
  refine ⟨hn.shutdowns, ?_, ?_, hn.once⟩
  · intro h
    cases h
  · intro _ h
    cases h

theorem Numbered.accept (hn : s.Numbered) (hnone : s.pending = none) :
    Numbered { s with commandPending := true, accepted := s.accepted + 1 } := by
  refine ⟨?_, ?_, ?_, hn.once⟩
  · intro n hmem
    exact Nat.lt_succ_of_lt (hn.shutdowns n hmem)
  · intro h
    dsimp only at h
    rw [hnone] at h
    cases h
  · intro _ h
    dsimp only at h
    rw [hnone] at h
    cases h

theorem Numbered.acceptReceipt (hn : s.Numbered) (receipt : NativeExitReceipt) :
    Numbered { s with
      pending := some receipt, pendingRequest := s.accepted, accepted := s.accepted + 1 } := by
  refine ⟨?_, ?_, ?_, hn.once⟩
  · intro n hmem
    exact Nat.lt_succ_of_lt (hn.shutdowns n hmem)
  · intro _
    exact Nat.lt_succ_self s.accepted
  · intro _ _ hmem
    exact Nat.lt_irrefl _ (hn.shutdowns _ hmem)

theorem Numbered.schedule (hn : s.Numbered) : Numbered { s with scheduled := true } := by
  refine ⟨hn.shutdowns, hn.pending, ?_, hn.once⟩
  intro h
  cases h

theorem Numbered.shutdown {n : ℕ} (hn : s.Numbered) (hscheduled : s.scheduled = true)
    (hlt : n < s.accepted) (hnew : n ∉ s.shutdowns) :
    Numbered { s with shutdowns := s.shutdowns ++ [n] } := by
  refine ⟨?_, hn.pending, ?_, ?_⟩
  · intro m hmem
    rcases List.mem_append.mp hmem with hold | hlast
    · exact hn.shutdowns m hold
    · rw [List.mem_singleton.mp hlast]
      exact hlt
  · intro h
    dsimp only at h
    rw [hscheduled] at h
    cases h
  · rw [List.nodup_append]
    refine ⟨hn.once, List.nodup_singleton n, ?_⟩
    intro m hm k hk heq
    rw [List.mem_singleton.mp hk] at heq
    rw [heq] at hm
    exact hnew hm

end Flags

/-- The slot of a call that schedules its exit can be freed first. -/
theorem scheduleExit_goto (e : ScheduledExit) :
    (s.goto i .ended).scheduleExit i e = s.scheduleExit i e := by
  unfold scheduleExit goto
  dsimp only
  rw [Function.update_idem]

/-- The first attempt of a command runs in the call that found the admission open. -/
theorem commandAlone_of_admission {attempt : WriteAttempt} (h : s.assertAdmission none = .ok ()) :
    s.CommandAlone attempt := by
  have hnone : s.pending = none ∧ s.commandPending = false := by
    unfold assertAdmission at h
    obtain ⟨-, -, h⟩ := Relational.bind_eq_ok.mp h
    unfold Host.refuseIf at h
    split_ifs at h with hsealed
    rw [Bool.not_eq_true, Bool.or_eq_false_iff] at hsealed
    refine ⟨?_, hsealed.1⟩
    cases hpending : s.pending with
    | none => rfl
    | some receipt =>
      rw [hpending] at hsealed
      cases hsealed.2
  unfold CommandAlone
  split
  · trivial
  · exact hnone.2
  · exact hnone.2
  · exact hnone

section Steps
variable (hs : s.Guarded)
include hs

theorem guarded_admitReceipt {receipt : NativeExitReceipt} {scope : Scope}
    {attempt : WriteAttempt} (halone : s.ReceiptAlone scope attempt) :
    (s.admitReceipt i receipt scope attempt).Guarded := by
  unfold ReceiptAlone at halone
  unfold admitReceipt
  cases houtcome : admitSqliteWrite s.host (s.host.assertSqlIdle (some scope)) attempt with
  | thrown => exact guarded_goto hs (.inl rfl)
  | rolledBack =>
    rw [houtcome] at halone
    dsimp only at halone ⊢
    rw [@clearPending_eq (s.goto i .ended) halone]
    exact guarded_goto hs (.inl rfl)
  | waiting =>
    rw [houtcome] at halone
    dsimp only at halone ⊢
    rw [@clearPending_eq (s.goto i (.toolAdmitting receipt scope)) halone]
    exact guarded_goto hs (.inl rfl)
  | committed =>
    rw [houtcome] at halone
    dsimp only at halone ⊢
    have hunheld := unheld_of_no_latch hs halone.1 halone.2
    have hleft := guarded_goto (i := i) hs (.inl (Eq.refl (Activity.hold .ended)))
    exact Unheld.guarded (hunheld.goto rfl) (hleft.toNumbered.acceptReceipt receipt)

theorem guarded_admitCommand {reason : String} {attempt : WriteAttempt}
    (halone : s.CommandAlone attempt) : (s.admitCommand i reason attempt).Guarded := by
  unfold CommandAlone at halone
  unfold admitCommand
  cases houtcome : admitSqliteWrite s.host (s.host.assertSqlIdle none) attempt with
  | thrown => exact guarded_goto hs (.inl rfl)
  | rolledBack =>
    rw [houtcome] at halone
    dsimp only at halone ⊢
    rw [@clearCommand_eq (s.goto i .ended) halone]
    exact guarded_goto hs (.inl rfl)
  | waiting =>
    rw [houtcome] at halone
    dsimp only at halone ⊢
    rw [@clearCommand_eq (s.goto i (.commandAdmitting reason)) halone]
    exact guarded_goto hs (.inl rfl)
  | committed =>
    rw [houtcome] at halone
    dsimp only at halone ⊢
    have hunheld := unheld_of_no_latch hs halone.1 halone.2
    exact @guarded_hold { s with commandPending := true, accepted := s.accepted + 1 } i
      (.commandAdmitted s.accepted reason) (.command s.accepted) hunheld
      (hs.toNumbered.accept halone.1) rfl ⟨rfl, halone.1⟩ (Nat.lt_succ_self s.accepted)
      (fun hmem => Nat.lt_irrefl _ (hs.shutdowns _ hmem))

theorem guarded_refuseCommand (hi : (s.activities i).hold.isSome) :
    (s.refuseCommand i).Guarded := by
  unfold refuseCommand
  split_ifs
  · have hleft := guarded_goto (i := i) hs (.inl (Eq.refl (Activity.hold .ended)))
    exact Unheld.guarded (unheld_goto hs hi rfl)
      ⟨hleft.shutdowns, hleft.pending, hleft.fresh, hleft.once⟩
  · exact guarded_goto hs (.inl rfl)

theorem guarded_scheduleExit {e : ScheduledExit} (hunheld : s.Unheld)
    (hinput : match e.input with
      | none => s.commandPending = true
      | some input => ∃ receipt, s.pending = some receipt ∧ receipt.input = input)
    (hrequest : e.request < s.accepted) (hnew : e.request ∉ s.shutdowns) :
    (s.scheduleExit i e).Guarded :=
  @guarded_hold { s with scheduled := true } i (.finishing e .deferred) (.exit e) hunheld
    hs.toNumbered.schedule rfl ⟨rfl, hinput⟩ hrequest hnew

/-- The pending receipt, while nothing is scheduled, has not been finished and nothing holds the
latch. -/
theorem guarded_schedulePending {request : NativeExitReceipt} (hpending : s.pending = some request)
    (hscheduled : s.scheduled = false) :
    (s.scheduleExit i ⟨s.pendingRequest, some request.input, request.reason⟩).Guarded := by
  have hsome : s.pending.isSome := by
    rw [hpending]
    rfl
  exact guarded_scheduleExit hs (unheld_of_unscheduled hs hpending hscheduled)
    ⟨request, hpending, rfl⟩ (hs.pending hsome) (hs.fresh hscheduled hsome)

theorem guarded_onOperationSettled {operationId : String} {receipt : Option NativeExitReceipt} :
    (s.onOperationSettled i operationId receipt).Guarded := by
  unfold onOperationSettled
  cases hpending : s.pending with
  | none => exact hs
  | some request =>
    dsimp only
    split_ifs with hother howner
    · exact hs
    · exact hs
    · have hscheduled : s.scheduled = false := by
        simpa using fun h => hother (.inr h)
      cases s.host.operations.find? (fun row => row.operationId = operationId) with
      | none => exact hs
      | some row =>
        dsimp only
        split_ifs with hphase hreceipt
        · exact hs
        · have hunheld : s.Unheld := unheld_of_unscheduled hs hpending hscheduled
          exact Unheld.guarded hunheld hs.toNumbered.clearPending
        · exact guarded_schedulePending hs hpending hscheduled

theorem guarded_onMessagePublished {input : AcceptedInput} {rowId : ℕ}
    {receipt : Option NativeExitReceipt} :
    (s.onMessagePublished i input rowId receipt).Guarded := by
  unfold onMessagePublished
  cases hpending : s.pending with
  | none => exact hs
  | some request =>
    dsimp only
    split_ifs with hother howner hreceipt htransaction hrow
    · exact hs
    · exact hs
    · exact hs
    · exact hs
    · exact hs
    · refine guarded_schedulePending hs hpending ?_
      simpa using fun h => hother (.inl h)

theorem guarded_commandInspected {request : ℕ} {reason : String}
    {answer : Except String NativeProcessSnapshot}
    (hi : s.activities i = .commandInspecting request reason) :
    (s.commandInspected i request reason answer).Guarded := by
  have hhold : (s.activities i).hold = some (.command request) := by
    rw [hi]
    rfl
  have hrefuse := guarded_refuseCommand hs (i := i) (by rw [hhold]; rfl)
  unfold commandInspected
  cases s.host.inspected answer true with
  | error message => exact hrefuse
  | ok snapshot =>
    cases s.host.assertSqlIdle none with
    | error message => exact hrefuse
    | ok _ =>
      obtain ⟨⟨hcommand, -⟩, hrequest, hnew⟩ := hs.holds i _ hhold
      have hunheld : (s.goto i .ended).Unheld := unheld_goto hs (by rw [hhold]; rfl) rfl
      have hleft := guarded_goto (i := i) hs (.inl (Eq.refl (Activity.hold .ended)))
      rw [← scheduleExit_goto]
      exact guarded_scheduleExit hleft hunheld hcommand hrequest hnew

theorem guarded_refuseExit {closing : Bool} (hi : (s.activities i).hold.isSome) :
    (s.refuseExit i closing).Guarded := by
  have hleft := guarded_goto (i := i) hs (.inl (Eq.refl (Activity.hold .ended)))
  unfold refuseExit
  split_ifs
  · exact Unheld.guarded (unheld_goto hs hi rfl) hleft.toNumbered.clearAll
  · exact hleft

theorem guarded_nativeClosed {e : ScheduledExit} {phase : ExitPhase} {resolved : Bool}
    (hi : s.activities i = .finishing e phase) : (s.nativeClosed i e resolved).Guarded := by
  have hhold : (s.activities i).hold = some (.exit e) := by
    rw [hi]
    rfl
  have hsome : (s.activities i).hold.isSome := by
    rw [hhold]
    rfl
  have hrefuse : (s.refuseExit i true).Guarded := guarded_refuseExit hs hsome
  unfold nativeClosed
  split_ifs
  · exact hrefuse
  · cases s.host.assertSqlIdle none with
    | error message => exact hrefuse
    | ok _ =>
      obtain ⟨⟨hscheduled, -⟩, hrequest, hnew⟩ := hs.holds i _ hhold
      have hleft := guarded_goto (i := i) hs (.inl (Eq.refl (Activity.hold .ended)))
      exact Unheld.guarded (unheld_goto hs hsome rfl)
        (hleft.toNumbered.shutdown hscheduled hrequest hnew)

theorem guarded_roundVerified {request : NativeExitReceipt}
    {result : Except String (Option NativeExitReceipt)}
    (halone : ∀ receipt, result = .ok receipt → receipt.map (·.nonce) ≠ some request.nonce →
      s.pending = none ∨ ∀ j, (s.activities j).exit = none) :
    (s.roundVerified i request result).Guarded := by
  have hleft := guarded_goto (i := i) hs (.inl (Eq.refl (Activity.hold .ended)))
  unfold roundVerified
  cases hresult : result with
  | error message => exact hleft
  | ok receipt =>
    dsimp only
    split_ifs with howner hnonce
    · exact hleft
    · exact hleft
    · rcases halone receipt hresult hnonce with hnone | hexit
      · rw [@clearPending_eq (s.goto i .ended) hnone]
        exact hleft
      · refine guarded_clearPending hleft fun j => ?_
        rw [activities_goto]
        split_ifs
        · rfl
        · exact hexit j

end Steps

theorem guarded_initial (host : Host) : (initial host).Guarded := by
  refine Unheld.guarded (fun _ => rfl) ⟨?_, ?_, ?_, List.nodup_nil⟩
  · intro n hn
    cases hn
  · intro h
    cases h
  · intro _ _ h
    cases h

theorem guarded_step (hs : s.Guarded) {event : Event} (halone : s.Undisturbed event) :
    (s.step event).Guarded := by
  cases event with
  | hostChanged host => exact ⟨⟨hs.shutdowns, hs.pending, hs.fresh, hs.once⟩, hs.holds, hs.single⟩
  | exitProcess i reason resumeMessage aborted =>
    unfold step
    dsimp only
    split
    · unfold exitProcess
      split_ifs
      · exact hs
      · exact hs
      · exact hs
      · exact guarded_goto hs (.inl rfl)
    · exact hs
  | exitProcessInspected i answer aborted nonce attempt =>
    unfold step
    dsimp only
    split
    · next reason hi =>
      unfold exitProcessInspected
      cases hscope : s.host.exitScope reason answer aborted with
      | error message => exact guarded_goto hs (.inl rfl)
      | ok scope => exact guarded_admitReceipt hs (halone reason scope hi hscope)
    · exact hs
  | exitProcessRetried i attempt =>
    unfold step
    dsimp only
    split
    · next receipt scope hi => exact guarded_admitReceipt hs (halone receipt scope hi)
    · exact hs
  | requestCommandExit i reason attempt =>
    unfold step
    dsimp only
    split
    · unfold requestCommandExit
      cases hadmission : s.assertAdmission none with
      | error message => exact hs
      | ok _ =>
        dsimp only
        split_ifs
        · exact hs
        · exact guarded_admitCommand hs (commandAlone_of_admission hadmission)
    · exact hs
  | commandRetried i attempt =>
    unfold step
    dsimp only
    split
    · next reason hi => exact guarded_admitCommand hs (halone reason hi)
    · exact hs
  | commandContinued i =>
    unfold step
    dsimp only
    split
    · next request reason hi =>
      unfold commandContinued
      split_ifs
      · exact guarded_goto hs (.inr (by rw [hi]; rfl))
      · exact guarded_refuseCommand hs (by rw [hi]; rfl)
    · exact hs
  | commandInspected i answer =>
    unfold step
    dsimp only
    split
    · next request reason hi => exact guarded_commandInspected hs hi
    · exact hs
  | afterTools i assistant =>
    unfold step
    dsimp only
    split
    · unfold afterTools
      split
      · exact hs
      · split_ifs
        · exact hs
        · exact guarded_goto hs (.inl rfl)
    · exact hs
  | roundVerified i result =>
    unfold step
    dsimp only
    split
    · next request hi =>
      exact guarded_roundVerified hs (fun receipt => halone request receipt hi)
    · exact hs
  | onOperationSettled i operationId receipt =>
    unfold step
    dsimp only
    split
    · exact guarded_onOperationSettled hs
    · exact hs
  | onMessagePublished i input rowId receipt =>
    unfold step
    dsimp only
    split
    · exact guarded_onMessagePublished hs
    · exact hs
  | finishStarted i =>
    unfold step
    dsimp only
    split
    · next e hi =>
      unfold finishStarted
      split_ifs
      · exact guarded_goto hs (.inr (by rw [hi]; rfl))
      · exact guarded_refuseExit hs (by rw [hi]; rfl)
    · exact hs
  | finishInspected i answer =>
    unfold step
    dsimp only
    split
    · next e hi =>
      unfold finishInspected
      cases s.host.quiescent answer with
      | error message => exact guarded_refuseExit hs (by rw [hi]; rfl)
      | ok _ => exact guarded_goto hs (.inr (by rw [hi]; rfl))
    · exact hs
  | nativeClosed i resolved =>
    unfold step
    dsimp only
    split
    · next e hi => exact guarded_nativeClosed hs hi
    · exact hs

theorem Guarded.latched (hs : s.Guarded) : s.Latched := by
  refine ⟨?_, ?_, hs.once⟩
  · intro i j e f he hf
    refine hs.single i j ?_ ?_
    · rw [Activity.hold_of_exit he]
      rfl
    · rw [Activity.hold_of_exit hf]
      rfl
  · intro i e he input hother hadmitted
    obtain ⟨⟨-, hinput⟩, -⟩ := hs.holds i _ (Activity.hold_of_exit he)
    unfold assertAdmission at hadmitted
    obtain ⟨-, -, hadmitted⟩ := Relational.bind_eq_ok.mp hadmitted
    unfold Host.refuseIf at hadmitted
    split_ifs at hadmitted with hsealed
    rw [Bool.not_eq_true, Bool.or_eq_false_iff] at hsealed
    cases hown : e.input with
    | none =>
      rw [hown] at hinput
      rw [show s.commandPending = true from hinput] at hsealed
      cases hsealed.1
    | some own =>
      rw [hown] at hinput hother
      obtain ⟨receipt, hreceipt, hsame⟩ := hinput
      rw [hreceipt] at hsealed
      have hmatch : input = some receipt.input := by simpa using hsealed.2
      rw [hsame] at hmatch
      rcases hother with hnone | hne
      · rw [hnone] at hmatch
        cases hmatch
      · exact hne hmatch

section Shutdowns

theorem shutdowns_admitReceipt {receipt : NativeExitReceipt} {scope : Scope}
    {attempt : WriteAttempt} :
    (s.admitReceipt i receipt scope attempt).shutdowns = s.shutdowns := by
  unfold admitReceipt
  split <;> rfl

theorem shutdowns_admitCommand {reason : String} {attempt : WriteAttempt} :
    (s.admitCommand i reason attempt).shutdowns = s.shutdowns := by
  unfold admitCommand
  split <;> rfl

theorem shutdowns_refuseCommand : (s.refuseCommand i).shutdowns = s.shutdowns := by
  unfold refuseCommand
  split_ifs <;> rfl

theorem shutdowns_refuseExit {closing : Bool} :
    (s.refuseExit i closing).shutdowns = s.shutdowns := by
  unfold refuseExit
  split_ifs <;> rfl

theorem shutdowns_onOperationSettled {operationId : String}
    {receipt : Option NativeExitReceipt} :
    (s.onOperationSettled i operationId receipt).shutdowns = s.shutdowns := by
  unfold onOperationSettled
  cases s.pending with
  | none => rfl
  | some request =>
    dsimp only
    split_ifs
    · rfl
    · rfl
    · cases s.host.operations.find? (fun row => row.operationId = operationId) with
      | none => rfl
      | some row =>
        dsimp only
        split_ifs <;> rfl

theorem shutdowns_onMessagePublished {input : AcceptedInput} {rowId : ℕ}
    {receipt : Option NativeExitReceipt} :
    (s.onMessagePublished i input rowId receipt).shutdowns = s.shutdowns := by
  unfold onMessagePublished
  cases s.pending with
  | none => rfl
  | some request =>
    dsimp only
    split_ifs <;> rfl

theorem shutdown_after_cleanup (s : Controls) (event : Event) : s.ShutdownAfterCleanup event := by
  cases event with
  | hostChanged host => exact .inl rfl
  | exitProcess i reason resumeMessage aborted =>
    left
    unfold step exitProcess
    dsimp only
    split
    · split_ifs <;> rfl
    · rfl
  | exitProcessInspected i answer aborted nonce attempt =>
    left
    unfold step exitProcessInspected
    dsimp only
    split
    · split
      · rfl
      · exact shutdowns_admitReceipt
    · rfl
  | exitProcessRetried i attempt =>
    left
    unfold step
    dsimp only
    split
    · exact shutdowns_admitReceipt
    · rfl
  | requestCommandExit i reason attempt =>
    left
    unfold step requestCommandExit
    dsimp only
    split
    · split
      · rfl
      · split_ifs
        · rfl
        · exact shutdowns_admitCommand
    · rfl
  | commandRetried i attempt =>
    left
    unfold step
    dsimp only
    split
    · exact shutdowns_admitCommand
    · rfl
  | commandContinued i =>
    left
    unfold step commandContinued
    dsimp only
    split
    · split_ifs
      · rfl
      · exact shutdowns_refuseCommand
    · rfl
  | commandInspected i answer =>
    left
    unfold step commandInspected
    dsimp only
    split
    · split
      · exact shutdowns_refuseCommand
      · split
        · exact shutdowns_refuseCommand
        · rfl
    · rfl
  | afterTools i assistant =>
    left
    unfold step afterTools
    dsimp only
    split
    · split
      · rfl
      · split_ifs <;> rfl
    · rfl
  | roundVerified i result =>
    left
    unfold step roundVerified
    dsimp only
    split
    · split
      · rfl
      · split_ifs <;> rfl
    · rfl
  | onOperationSettled i operationId receipt =>
    left
    unfold step
    dsimp only
    split
    · exact shutdowns_onOperationSettled
    · rfl
  | onMessagePublished i input rowId receipt =>
    left
    unfold step
    dsimp only
    split
    · exact shutdowns_onMessagePublished
    · rfl
  | finishStarted i =>
    left
    unfold step finishStarted
    dsimp only
    split
    · split_ifs
      · rfl
      · exact shutdowns_refuseExit
    · rfl
  | finishInspected i answer =>
    left
    unfold step finishInspected
    dsimp only
    split
    · split
      · exact shutdowns_refuseExit
      · rfl
    · rfl
  | nativeClosed i resolved =>
    cases hi : s.activities i with
    | finishing e phase =>
      cases phase with
      | cleanup =>
        have hstep : s.step (.nativeClosed i resolved) = s.nativeClosed i e resolved := by
          unfold step
          dsimp only
          rw [hi]
        unfold ShutdownAfterCleanup
        rw [hstep]
        unfold nativeClosed
        split_ifs with hresolved
        · exact .inl shutdowns_refuseExit
        · cases hidle : s.host.assertSqlIdle none with
          | error message => exact .inl shutdowns_refuseExit
          | ok _ =>
            have htrue : resolved = true := by simpa using hresolved
            rw [htrue]
            exact .inr ⟨i, e, rfl, hi, rfl, rfl⟩
      | _ =>
        left
        unfold step
        dsimp only
        rw [hi]
    | _ =>
      left
      unfold step
      dsimp only
      rw [hi]

end Shutdowns

/-- In a run in which no request rolls back, replaces or joins another one's latch and no late
verdict drops the receipt of an exit under way, there is one exit at a time, it seals the
admission, and it shuts down once at most, after the cleanup and in an idle host. -/
theorem exit_latch (host : Host) (events : List Event)
    (halone : Relational.Along step Undisturbed (initial host) events) :
    (Relational.run step (initial host) events).Latched ∧
      Relational.Along step ShutdownAfterCleanup (initial host) events := by
  constructor
  · refine (Relational.run_invariant ?_ (guarded_initial host) halone).latched
    intro s event hs h
    exact guarded_step hs h
  · refine Relational.along_of_invariant ?_ ?_ (guarded_initial host) halone
    · intro s event hs h
      exact guarded_step hs h
    · intro s event _ _
      exact shutdown_after_cleanup s event

section Commands

def idleHost : Host where
  ownerFault := none
  idleFault := fun _ => none
  sourceFault := fun _ _ => none
  inTransaction := false
  tasks := []
  submissions := []
  operations := []
  sources := []
  occurrences := []
  queuedInputs := []
  queuedFollowups := []
  messages := []

def quiet : Except String NativeProcessSnapshot := .ok ⟨false, [], [], none⟩

/-- One command that waits for the writer, accepted with its first retry. -/
def retriedCommand : List Event :=
  [.requestCommandExit 0 "update" (.contended true), .commandRetried 0 (.entered false true),
    .commandContinued 0, .commandInspected 0 quiet, .finishStarted 0, .finishInspected 0 quiet,
    .nativeClosed 0 true]

theorem exit_latch_retriedCommand :
    (Relational.run step (initial idleHost) retriedCommand).Latched ∧
      Relational.Along step ShutdownAfterCleanup (initial idleHost) retriedCommand :=
  exit_latch idleHost retriedCommand
    ⟨trivial, fun _ _ => ⟨rfl, rfl⟩, trivial, trivial, trivial, trivial, trivial, trivial⟩

/-- A second command is accepted and scheduled while the first still waits for the writer. The
next failed attempt of the first resets the flag. -/
def overlappingCommands : List Event :=
  [.requestCommandExit 0 "update" (.contended true),
    .requestCommandExit 1 "restart" (.entered false true), .commandContinued 1,
    .commandInspected 1 quiet, .commandRetried 0 (.contended true)]

theorem retry_unseals_exit :
    ¬ ∀ host events, (Relational.run step (initial host) events).Latched ∧
      Relational.Along step ShutdownAfterCleanup (initial host) events := by
  intro h
  have hadmits := (h idleHost overlappingCommands).1.admits 1 ⟨0, none, "restart"⟩
    (by decide +kernel) none (.inl rfl)
  exact hadmits (by decide +kernel)

end Commands

end Controls
end ProcessExit
end Piclaw
