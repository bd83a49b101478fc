import Piclaw.WorkSteps

/-!
# Refused mutations of the work store

A mutation is admitted by `admitSqliteWrite`, which waits for the writer lock, enters the callback
of the transaction at most once and commits what the callback returns. A rejection is returned, so
the statements before it are committed with it. Several rejections follow an insertion or an update
of the same call; each of them asks whether an update addressed by a key has changed its one row,
and the guards that the call has read before leave no other outcome. What is left are the
rejections that follow the opening of the chat.
-/

namespace Piclaw
open Relational
variable {δ : Type} {P : Platform δ} {s s' : WorkTables δ}

section Admission
variable {σ ε α : Type}

/-- The checks around the callback of an admission. -/
inductive SqliteCheck where
  | signal
  | binding
  | file
  | nesting
  | timeoutPolicy
  | authorise
  | synchronous
  deriving DecidableEq

inductive AdmissionFault (ε : Type) where
  | check (failed : SqliteCheck)
  | contention
  | statement
  | callback (fault : ε)
  deriving DecidableEq

/-- How the statement that begins or commits a transaction ends. -/
inductive StatementOutcome where
  | done
  | contended
  | failed
  deriving DecidableEq

/-- What one attempt meets: the checks before the transaction, inside it before the callback and
after the callback, and the ends of its `BEGIN IMMEDIATE` and of its `COMMIT`. -/
structure AdmissionAttempt where
  before : SqliteCheck → Bool
  begins : StatementOutcome
  entered : SqliteCheck → Bool
  left : SqliteCheck → Bool
  commits : StatementOutcome

def AdmissionAttempt.clear : AdmissionAttempt where
  before _ := true
  begins := .done
  entered _ := true
  left _ := true
  commits := .done

/-- The first check that fails. -/
def failedCheck (holds : SqliteCheck → Bool) (checks : List SqliteCheck) : Option SqliteCheck :=
  checks.find? fun c => !holds c

/-- The transaction of one attempt. Whatever is thrown rolls it back. -/
def sqliteTransaction (operation : σ → Except ε (α × σ)) (attempt : AdmissionAttempt) (s : σ) :
    Except (AdmissionFault ε) α × σ :=
  match failedCheck attempt.entered [.file, .authorise, .signal] with
  | some failed => (.error (.check failed), s)
  | none =>
    match operation s with
    | .error fault => (.error (.callback fault), s)
    | .ok (value, s') =>
      match failedCheck attempt.left [.synchronous, .authorise, .file, .signal] with
      | some failed => (.error (.check failed), s)
      | none =>
        match attempt.commits with
        | .done => (.ok value, s')
        | .contended => (.error .contention, s)
        | .failed => (.error .statement, s)

/-- The attempts that the deadline leaves time for, the first one always. Only contention of a
transaction that has not entered its callback is followed by another attempt; an abort of the wait
is what the signal of that attempt shows. -/
def admitSqliteWrite (operation : σ → Except ε (α × σ)) (attempt : AdmissionAttempt)
    (later : List AdmissionAttempt) (s : σ) : Except (AdmissionFault ε) α × σ :=
  match failedCheck attempt.before [.signal, .binding, .file, .nesting, .timeoutPolicy] with
  | some failed => (.error (.check failed), s)
  | none =>
    match attempt.begins, later with
    | .failed, _ => (.error .statement, s)
    | .contended, [] => (.error .contention, s)
    | .contended, next :: later => admitSqliteWrite operation next later s
    | .done, _ => sqliteTransaction operation attempt s

theorem sqliteTransaction_spec {operation : σ → Except ε (α × σ)} {attempt : AdmissionAttempt}
    {answer : Except (AdmissionFault ε) α} {s s' : σ}
    (h : sqliteTransaction operation attempt s = (answer, s')) :
    (∃ fault, answer = .error fault ∧ s' = s) ∨
      ∃ value, answer = .ok value ∧ operation s = .ok (value, s') := by
  unfold sqliteTransaction at h
  split at h
  · cases h
    exact .inl ⟨_, rfl, rfl⟩
  · split at h
    · cases h
      exact .inl ⟨_, rfl, rfl⟩
    · rename_i value t hvalue
      split at h
      · cases h
        exact .inl ⟨_, rfl, rfl⟩
      · cases hcommits : attempt.commits with
        | done =>
          rw [hcommits] at h
          cases h
          exact .inr ⟨_, rfl, hvalue⟩
        | _ =>
          rw [hcommits] at h
          cases h
          exact .inl ⟨_, rfl, rfl⟩

/-- An admission throws and leaves the state alone, or it commits one run of the callback. -/
theorem admitSqliteWrite_spec {operation : σ → Except ε (α × σ)} {attempt : AdmissionAttempt}
    {later : List AdmissionAttempt} {answer : Except (AdmissionFault ε) α} {s s' : σ}
    (h : admitSqliteWrite operation attempt later s = (answer, s')) :
    (∃ fault, answer = .error fault ∧ s' = s) ∨
      ∃ value, answer = .ok value ∧ operation s = .ok (value, s') := by
  induction later generalizing attempt with
  | nil =>
    unfold admitSqliteWrite at h
    split at h
    · cases h
      exact .inl ⟨_, rfl, rfl⟩
    · cases hbegins : attempt.begins with
      | done =>
        rw [hbegins] at h
        exact sqliteTransaction_spec h
      | _ =>
        rw [hbegins] at h
        cases h
        exact .inl ⟨_, rfl, rfl⟩
  | cons next later ih =>
    unfold admitSqliteWrite at h
    split at h
    · cases h
      exact .inl ⟨_, rfl, rfl⟩
    · cases hbegins : attempt.begins with
      | done =>
        rw [hbegins] at h
        exact sqliteTransaction_spec h
      | contended =>
        rw [hbegins] at h
        exact ih h
      | failed =>
        rw [hbegins] at h
        cases h
        exact .inl ⟨_, rfl, rfl⟩

end Admission

section Refused

/-- The chat that a mutation opens when it is not there yet. -/
def requestedChat : WorkMutation δ → Option Text
  | .acceptSource request => some request.chatJid
  | .claimNext request => some request.chatJid
  | _ => none

/-- The tables are as they were, but for the row of a chat that has accepted nothing. -/
inductive KeptOrOpened (chatJid : Option Text) (s : WorkTables δ) : WorkTables δ → Prop where
  | kept : KeptOrOpened chatJid s s
  | opened {c : Text} {chats : Table chatSchema} (hchat : chatJid = some c)
      (hinsert : s.chats.insert? ⟨c, 1, 0, none⟩ = some chats) :
    KeptOrOpened chatJid s { s with chats := chats }

theorem ensureChat_keptOrOpened {chatJid : Text} (h : ensureChat s chatJid = .ok s') :
    KeptOrOpened (some chatJid) s s' := by
  unfold ensureChat at h
  split_ifs at h with hsome
  · cases h
    exact .kept
  · obtain ⟨chats, hchats, h⟩ := require_bind_eq_ok.mp h
    cases h
    exact .opened rfl hchats

theorem OperationStep.unchanged {error : ServiceWorkError}
    (h : OperationStep s (.error error) s') : s' = s := by
  cases h
  rfl

theorem QueuedInputStep.unchanged {error : ServiceWorkError}
    (h : QueuedInputStep s (.error error) s') : s' = s := by
  cases h
  rfl

variable [DecidableEq δ] {error : ServiceWorkError}

theorem applyWork_refused {runtime : WorkAdapterRuntime} {m : WorkMutation δ}
    (h : applyWork P runtime m s = .ok (.error error, s')) :
    KeptOrOpened (requestedChat m) s s' := by
  cases m with
  | acceptSource request =>
    obtain ⟨u, hensure, hstep⟩ := applyAcceptSource_step h
    cases hstep
    exact ensureChat_keptOrOpened hensure
  | claimNext request =>
    obtain ⟨u, hensure, hstep⟩ := applyClaimNext_step h
    cases hstep
    exact ensureChat_keptOrOpened hensure
  | appendIntent request => exact (applyAppendIntent_step h).unchanged ▸ .kept
  | acceptCancellation request => exact (applyCancellation_step h).unchanged ▸ .kept
  | bindHarness request => exact (applyHarnessBinding_step h).unchanged ▸ .kept
  | finishHarness request => exact (applyHarnessFinish_step h).unchanged ▸ .kept
  | recordQueuedInput request => exact (applyQueuedInput_step h).unchanged ▸ .kept

theorem applyMutation_refused {runtime : WorkAdapterRuntime} {m : WorkMutation δ}
    (h : applyMutationWithinTransaction P runtime m s = .ok (.error error, s')) :
    KeptOrOpened (requestedChat m) s s' := by
  unfold applyMutationWithinTransaction at h
  split at h
  · cases h
    exact .kept
  · obtain ⟨_, -, h⟩ := bind_eq_ok.mp h
    obtain ⟨⟨outcome, u⟩, happly, h⟩ := bind_eq_ok.mp h
    cases outcome with
    | error refusal =>
      cases h
      exact applyWork_refused happly
    | ok answer =>
      obtain ⟨value, duplicate⟩ := answer
      dsimp only at h
      split_ifs at h with hfault
      obtain ⟨v, -, h⟩ := bind_eq_ok.mp h
      obtain ⟨_, -, h⟩ := bind_eq_ok.mp h
      cases h

end Refused

section Calls
variable [DecidableEq δ]

/-- The error that a call answers when its admission has thrown. -/
def admissionError : AdmissionFault WorkFault → ServiceWorkError
  | .callback fault => mutationError fault
  | .contention => workStorageUnavailable
  | _ => serviceError .corruptState

/-- `mutateWork` with the attempts that its transaction is admitted by. -/
def mutateAdmitted (P : Platform δ) (runtime : WorkAdapterRuntime)
    (request : Option (SealedMutation P)) (attempt : AdmissionAttempt)
    (later : List AdmissionAttempt) (s : WorkTables δ) :
    Except ServiceWorkError WorkValue × WorkTables δ :=
  match request with
  | none => (.error (serviceError .invalidTransition), s)
  | some m =>
    if faultedBefore runtime m.1.method then (.error workStorageUnavailable, s)
    else
      match admitSqliteWrite (applyMutationWithinTransaction P runtime m.1) attempt later s with
      | (.error fault, s') => (.error (admissionError fault), s')
      | (.ok (.error error), s') => (.error error, s')
      | (.ok (.ok (value, _)), s') =>
        if runtime.lostAcknowledgement then (.error workLostAcknowledgement, s')
        else (.ok value, s')

/-- Without contention and with every check passed the call is the one of the store. -/
theorem mutateAdmitted_clear (runtime : WorkAdapterRuntime) (request : Option (SealedMutation P))
    (later : List AdmissionAttempt) :
    mutateAdmitted P runtime request .clear later s = mutateWork P runtime request s := by
  unfold mutateAdmitted mutateWork
  cases request with
  | none => rfl
  | some m =>
    have hadmission :
        admitSqliteWrite (applyMutationWithinTransaction P runtime m.1) .clear later s =
          match applyMutationWithinTransaction P runtime m.1 s with
          | .error fault => (.error (.callback fault), s)
          | .ok (outcome, s') => (.ok outcome, s') := by
      unfold admitSqliteWrite
      change sqliteTransaction _ _ _ = _
      unfold sqliteTransaction
      cases applyMutationWithinTransaction P runtime m.1 s with
      | error fault => rfl
      | ok answered => rfl
    dsimp only
    rw [hadmission]
    by_cases hfaulted : faultedBefore runtime m.1.method
    · rw [if_pos hfaulted, if_pos hfaulted]
    · rw [if_neg hfaulted, if_neg hfaulted]
      cases applyMutationWithinTransaction P runtime m.1 s with
      | error fault => rfl
      | ok answered =>
        obtain ⟨outcome, t⟩ := answered
        cases outcome with
        | error error => rfl
        | ok answer => rfl

theorem admitted_refused {runtime : WorkAdapterRuntime} {m : WorkMutation δ}
    {attempt : AdmissionAttempt} {later : List AdmissionAttempt} {error : ServiceWorkError}
    (h : admitSqliteWrite (applyMutationWithinTransaction P runtime m) attempt later s =
      (.ok (.error error), s')) : KeptOrOpened (requestedChat m) s s' := by
  rcases admitSqliteWrite_spec h with ⟨fault, hfault, -⟩ | ⟨value, hvalue, hmutation⟩
  · cases hfault
  · cases hvalue
    exact applyMutation_refused hmutation

/-- A mutation whose transaction commits a rejection has at most opened the chat that it asks for;
so has every call that answers an error, except the lost acknowledgement of an applied mutation. -/
theorem refused_mutations_keep_tables (runtime : WorkAdapterRuntime) (m : SealedMutation P)
    (attempt : AdmissionAttempt) (later : List AdmissionAttempt) (s s' : WorkTables δ)
    (error : ServiceWorkError) :
    (admitSqliteWrite (applyMutationWithinTransaction P runtime m.1) attempt later s =
      (.ok (.error error), s') → KeptOrOpened (requestedChat m.1) s s') ∧
    (mutateAdmitted P runtime (some m) attempt later s = (.error error, s') →
      error ≠ workLostAcknowledgement → KeptOrOpened (requestedChat m.1) s s') := by
  refine ⟨admitted_refused, fun h hacknowledged => ?_⟩
  unfold mutateAdmitted at h
  dsimp only at h
  by_cases hfaulted : faultedBefore runtime m.1.method
  · rw [if_pos hfaulted] at h
    cases h
    exact .kept
  rw [if_neg hfaulted] at h
  cases hadmission : admitSqliteWrite (applyMutationWithinTransaction P runtime m.1) attempt later
      s with
  | mk answer t =>
    rw [hadmission] at h
    cases answer with
    | error fault =>
      rcases admitSqliteWrite_spec hadmission with ⟨-, -, rfl⟩ | ⟨value, hvalue, -⟩
      · cases h
        exact .kept
      · cases hvalue
    | ok outcome =>
      cases outcome with
      | error refusal =>
        cases h
        exact admitted_refused hadmission
      | ok answer =>
        dsimp only at h
        split_ifs at h with hlost
        · cases h
          exact absurd rfl hacknowledged
        · cases h

/-- A claim at a frontier that its chat has not reached opens the chat and is refused. -/
def sampleEarlyClaim : SealedMutation openPlatform :=
  ⟨.claimNext (sampleNext sampleOwner firstFrontier (hashCanonicalRequest openPlatform
    (sampleNext sampleOwner firstFrontier (.text "")).json)), rfl⟩

theorem refused_mutations_keep_tables_sample :
    let answered := admitSqliteWrite
      (applyMutationWithinTransaction openPlatform .faultFree sampleEarlyClaim.1) .clear []
      (WorkTables.empty OpenDigest)
    answered.1 = .ok (.error (frontierMismatch 0)) ∧
      answered.2.chats.rows = [⟨sampleChat, 1, 0, none⟩] ∧
      KeptOrOpened (some sampleChat) (WorkTables.empty OpenDigest) answered.2 := by
  intro answered
  have hanswer : answered.1 = .ok (.error (frontierMismatch 0)) := by rfl
  exact ⟨hanswer, by rfl, (refused_mutations_keep_tables .faultFree sampleEarlyClaim .clear []
    (WorkTables.empty OpenDigest) answered.2 (frontierMismatch 0)).1 (Prod.ext hanswer rfl)⟩

end Calls

end Piclaw
