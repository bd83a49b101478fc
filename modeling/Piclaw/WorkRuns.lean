import Piclaw.WorkMoves

/-!
# Runs of the work ledger

What the work store promises of every run, from the moves that its calls make. A chat numbers its
sources without gaps, owns its one open operation, gives every source that is held to that operation
and has consumed the longest closed prefix while it is idle. A cancellation wins: it stays with its
operation, and only a cancelled operation is settled as cancelled. A terminal operation is final.

One call breaks both: the cancellation of an operation that has been settled, when its decision is
replayed, still adopts the pending source that asked for it.
-/

namespace Piclaw
open Relational
variable {δ Ω : Type} {P : Platform δ} {H : SettlementHost δ Ω} {l l' : Ledger δ}

section Promises

/-- An operation of the chat that is not terminal. -/
def OpenIn (l : Ledger δ) (c o : Text) : Prop :=
  ∃ row, l.operations.find? o = some row ∧ row.chatJid = c ∧ row.phase ≠ .terminal

/-- What every chat satisfies. -/
structure LedgerHolds (l : Ledger δ) : Prop where
  numbered : ∀ c n, (l.sources.find? (c, n)).isSome ↔ 1 ≤ n ∧ n < (chatOf l.chats c).nextSourceSeq
  active : ∀ c o, (chatOf l.chats c).activeOperationId = some o ↔ OpenIn l c o
  held : ∀ c n row, l.sources.find? (c, n) = some row → row.state = .claimed ∨ row.state = .queued →
    ∃ o, (chatOf l.chats c).activeOperationId = some o ∧
      ∀ o', ⟨c, o', n⟩ ∈ l.operationSources.rows ↔ o' = o
  consumed : ∀ c n row, l.sources.find? (c, n) = some row →
    n ≤ (chatOf l.chats c).consumedThroughSourceSeq → row.state = .consumed ∨ row.state = .disposed
  longest : ∀ c, (chatOf l.chats c).activeOperationId = none →
    IsGreatest (closedPrefixes fun n => sourceClosed l c n = some true)
      (chatOf l.chats c).consumedThroughSourceSeq

theorem openIn_iff {c o : Text} : OpenIn l c o ↔ targetOpen c (l.operations.find? o) := by
  unfold OpenIn targetOpen
  constructor
  · rintro ⟨row, hrow, hchat, hopen⟩
    rw [hrow]
    simp [hchat, hopen]
  · intro h
    obtain ⟨row, hrow, hrest⟩ := (Option.any_eq_true _ _).mp h
    simp only [Bool.and_eq_true, decide_eq_true_eq] at hrest
    exact ⟨row, hrow, hrest.1, hrest.2⟩

theorem heldAt_of_state {c : Text} {n : ℕ} {row : SourceRow δ}
    (hrow : l.sources.find? (c, n) = some row) (h : row.state = .claimed ∨ row.state = .queued) :
    heldAt l.sources c n = true := by
  rw [heldAt, stateOf_of_find? hrow, Option.any_some]
  rcases h with h | h
  · rw [h]
    rfl
  · rw [h]
    rfl

theorem Ledger.Sound.holds (hs : l.Sound) : LedgerHolds l where
  numbered := hs.numbered
  active c o := (hs.owned c o).trans openIn_iff.symm
  held c n row hrow hstate := by
    have hheld := heldAt_of_state hrow hstate
    obtain ⟨o, hmember⟩ := hs.held c n hheld
    have hopen := (hs.members _ hmember).2.2.2 hheld
    refine ⟨o, (hs.owned c o).mpr hopen, fun o' => ⟨fun h => member_unique h hmember, ?_⟩⟩
    rintro rfl
    exact hmember
  consumed c n row hrow hle := by
    have hseq : 1 ≤ n := ((hs.numbered c n).mp (by rw [hrow]; rfl)).1
    have hclosed : sourceClosed l c n = some true := (hs.frontier c).1 n hseq hle
    unfold sourceClosed at hclosed
    rw [hrow, Option.map_some, Option.some_inj] at hclosed
    cases hstate : row.state with
    | consumed => exact .inl rfl
    | disposed => exact .inr rfl
    | _ =>
      rw [hstate] at hclosed
      cases hclosed
  longest c hidle :=
    isGreatest_closedPrefixes_iff.mpr ⟨(hs.frontier c).1, (hs.frontier c).2 hidle⟩

/-- A cancellation stays with its operation. -/
theorem LedgerMove.cancelled {late : Prop} (h : LedgerMove late l l') {o : Text}
    {row : OperationRow} {c : CancellationColumns} (hrow : l.operations.find? o = some row)
    (hcancelled : row.cancellation = some c) :
    ∃ row', l'.operations.find? o = some row' ∧ row'.cancellation = some c := by
  cases h with
  | claim hidle hchat hsource hpending hop hmember =>
    rename_i chats sources operations operationSources chat src o'
    have hne : o' ≠ o := by
      rintro rfl
      have hfree : l.operations.find? o' = none := (Table.insert?_fresh hop).1
      rw [hrow] at hfree
      cases hfree
    refine ⟨row, ?_, hcancelled⟩
    rw [find?_insertOperation hop, if_neg hne]
    exact hrow
  | operate hrewrites hopen hmove =>
    rcases hrewrites.lost hrow with ⟨-, rfl, hafter⟩ | ⟨-, hafter⟩
    · refine ⟨_, hafter, ?_⟩
      cases hmove with
      | bump => exact hcancelled
      | cancel c' hnone =>
        rw [hnone] at hcancelled
        cases hcancelled
      | bind harness hnone => exact hcancelled
      | finish hfinish => exact hcancelled
    · exact ⟨row, hafter, hcancelled⟩
  | release hop hopen hdisposition hclosed hfrontier hactive hchat =>
    rcases hop.lost hrow with ⟨-, rfl, hafter⟩ | ⟨-, hafter⟩
    · exact ⟨_, hafter, hcancelled⟩
    · exact ⟨row, hafter, hcancelled⟩
  | _ => exact ⟨row, hrow, hcancelled⟩

theorem LedgerMoves.cancelled {late : Prop} (h : LedgerMoves late l l') {o : Text}
    {row : OperationRow} {c : CancellationColumns} (hrow : l.operations.find? o = some row)
    (hcancelled : row.cancellation = some c) :
    ∃ row', l'.operations.find? o = some row' ∧ row'.cancellation = some c := by
  induction h with
  | refl => exact ⟨row, hrow, hcancelled⟩
  | tail _ hmove ih =>
    obtain ⟨row', hrow', hcancelled'⟩ := ih
    exact hmove.cancelled hrow' hcancelled'

end Promises

section Runs
variable [DecidableEq δ]

/-- No call of the run adopts a source late. -/
abbrev PromptRun (H : SettlementHost δ Ω) (s : SettlementState δ Ω) (calls : List (WorkCall P)) :
    Prop :=
  Along (workStep P H) (fun s call => ¬ CallAdoptsLate s call) s calls

theorem run_moves {s : SettlementState δ Ω} {calls : List (WorkCall P)}
    (h : PromptRun H s calls) :
    LedgerMoves False s.toLedger (run (workStep P H) s calls).toLedger := by
  induction calls generalizing s with
  | nil => exact .refl
  | cons call calls ih => exact (workStep_moves s call h.1).trans (ih h.2)

theorem run_sound {host : Ω} {calls : List (WorkCall P)}
    (h : PromptRun H (SettlementState.initial host) calls) :
    (run (workStep P H) (SettlementState.initial host) calls).toLedger.Sound :=
  (run_moves h).sound Ledger.empty_sound

section Samples

def sampleCause : Text := ⟨"cause", by decide⟩
def sampleCancelKey : Text := ⟨"cancel:cancellation-1", by decide⟩

theorem sampleSecond_valid : 1 ≤ 2 ∧ 2 ≤ maxSafeInteger := by decide

def sampleSecond : PositiveInteger := ⟨2, sampleSecond_valid⟩

/-- The cancellation source of the first operation, as the host accepts it. -/
def sampleCancelSource (requestHash : OpenDigest) : AcceptSourceRequest OpenDigest :=
  { sampleAccept sampleCancellation .cancellation (some sampleOwner) requestHash with
    parentSourceSeq := some sampleFirstAttempt }

def sampleCancelAccept : SealedAccept openPlatform :=
  ⟨sampleCancelSource (hashCanonicalRequest openPlatform (sampleCancelSource (.text "")).json), rfl⟩

/-- The cancellation that the host derives from that source. -/
def sampleCancel (requestHash : OpenDigest) : AcceptCancellationRequest OpenDigest where
  effect := ⟨sampleCancelKey, requestHash, sampleOwner, some ⟨2, sampleSecond.2.2⟩,
    sampleProvenance, .privateClass⟩
  expectedVersion := sampleFirstAttempt
  sourceId := sampleCancellation
  sourceSeq := sampleSecond
  cause := sampleCause
  requestedAt := sampleOpening

/-- The first operation is settled as cancelled with its only member. -/
def sampleCancelledCommit : WorkCall openPlatform :=
  .settle ⟨false, none, fun _ => true, fun _ => true, false⟩ (some
    { effect := ⟨sampleSkipKey, .text "commit", sampleOwner, none, sampleProvenance, .privateClass⟩
      expectedChatJid := sampleChat
      expectedVersion := sampleSecond
      expectedHarness := none
      disposition := .cancelled
      errorCode := none
      terminalAuthorityRef := none
      timeline := .none sampleChat
      sourceDispositions := [⟨sampleFirstAttempt, .consumed, sampleProvenance⟩]
      outboxIntents := []
      committedAt := sampleOpening })

/-- A client cancels the operation under the key that the host uses, and it is settled. -/
def cancelledAndSettled : List (WorkCall openPlatform) :=
  [sampleAcceptance sampleMessage .message none, sampleTaken sampleOwner zeroFrontier,
    .mutate .faultFree (some ⟨.acceptSource sampleCancelAccept.1, sampleCancelAccept.2⟩),
    .mutate .faultFree (some ⟨.acceptCancellation (sampleCancel
      (hashCanonicalRequest openPlatform (sampleCancel (.text "")).json)), rfl⟩),
    sampleCancelledCommit]

/-- Only then does the host accept the cancellation source and cancel. -/
def lateCancellation : WorkCall openPlatform :=
  .host .faultFree (some (.acceptAndCancelSource sampleCancelAccept (some sampleFirstAttempt)
    (some sampleCause)))

end Samples

/-- In every run without a late adoption every chat keeps its promises. -/
theorem ledger_holds (H : SettlementHost δ Ω) (host : Ω) (calls : List (WorkCall P))
    (h : PromptRun H (SettlementState.initial host) calls) :
    LedgerHolds (run (workStep P H) (SettlementState.initial host) calls).toLedger :=
  (run_sound h).holds

theorem cancelledAndSettled_prompt :
    PromptRun silentHost (SettlementState.initial ()) cancelledAndSettled :=
  ⟨id, id, id, id, id, trivial⟩

theorem ledger_holds_sample :
    LedgerHolds (run (workStep openPlatform silentHost) (SettlementState.initial ())
      cancelledAndSettled).toLedger :=
  ledger_holds silentHost () cancelledAndSettled cancelledAndSettled_prompt

/-- The cancelled source is held by an operation that is terminal, in a chat without one. -/
theorem late_source_held :
    ¬ LedgerHolds (run (workStep openPlatform silentHost) (SettlementState.initial ())
      (cancelledAndSettled ++ [lateCancellation])).toLedger := by
  intro h
  have hidle : (chatOf (run (workStep openPlatform silentHost) (SettlementState.initial ())
      (cancelledAndSettled ++ [lateCancellation])).chats sampleChat).activeOperationId = none := by
    decide +kernel
  have hclaimed : ((run (workStep openPlatform silentHost) (SettlementState.initial ())
      (cancelledAndSettled ++ [lateCancellation])).sources.find? (sampleChat, 2)).any
        (fun row => decide (row.state = .claimed)) = true := by decide +kernel
  obtain ⟨row, hrow, hstate⟩ := (Option.any_eq_true _ _).mp hclaimed
  obtain ⟨o, hactive, -⟩ := h.held sampleChat 2 row hrow (.inl (of_decide_eq_true hstate))
  rw [hidle] at hactive
  cases hactive

/-- In every run without a late adoption a cancellation wins and a terminal operation is final. -/
theorem cancellation_wins (H : SettlementHost δ Ω) (host : Ω) (calls later : List (WorkCall P))
    (h : PromptRun H (SettlementState.initial host) (calls ++ later)) :
    let s := run (workStep P H) (SettlementState.initial host) calls
    let t := run (workStep P H) s later
    (∀ o row, s.operations.find? o = some row → row.Agrees) ∧
      (∀ o row c, s.operations.find? o = some row → row.cancellation = some c →
        ∃ row', t.operations.find? o = some row' ∧ row'.cancellation = some c ∧ row'.Agrees) ∧
      (∀ r ∈ s.commits.rows, ∀ r' ∈ s.commits.rows, r.operationId = r'.operationId → r = r') ∧
      ∀ o row, s.operations.find? o = some row → row.phase = .terminal →
        Unchanged o s.toLedger t.toLedger := by
  intro s t
  obtain ⟨hcalls, hlater⟩ := along_append.mp h
  have hs : s.toLedger.Sound := run_sound hcalls
  have hmoves : LedgerMoves False s.toLedger t.toLedger := run_moves hlater
  refine ⟨hs.phases, ?_, ?_, ?_⟩
  · intro o row c hrow hcancelled
    obtain ⟨row', hrow', hcancelled'⟩ := hmoves.cancelled hrow hcancelled
    exact ⟨row', hrow', hcancelled', (hmoves.sound hs).phases o row' hrow'⟩
  · intro r hr r' hr' hsame
    exact Table.eq_of_unique hr hr' (u := r.operationId) rfl (by rw [hsame]; rfl)
  · intro o row hrow hterminal
    exact hmoves.final hs hrow hterminal

theorem cancellation_wins_sample :
    let s := run (workStep openPlatform silentHost) (SettlementState.initial ()) cancelledAndSettled
    ∀ o row, s.operations.find? o = some row → row.Agrees :=
  (cancellation_wins silentHost () cancelledAndSettled [] (by
    rw [List.append_nil]
    exact cancelledAndSettled_prompt)).1

/-- The terminal operation gets a second member. -/
theorem late_member_added :
    let s := run (workStep openPlatform silentHost) (SettlementState.initial ()) cancelledAndSettled
    (s.operations.find? sampleOwner).any (fun row => decide (row.phase = .terminal)) = true ∧
      ¬ Unchanged sampleOwner s.toLedger
        (workStep openPlatform silentHost s lateCancellation).toLedger := by
  intro s
  refine ⟨by decide +kernel, fun h => ?_⟩
  have hmembers : memberRows (workStep openPlatform silentHost s lateCancellation).toLedger
      sampleOwner ≠ memberRows s.toLedger sampleOwner := by decide +kernel
  exact hmembers h.members

end Runs

end Piclaw
