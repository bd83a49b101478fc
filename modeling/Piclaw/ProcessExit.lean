import Piclaw.BranchHandles
import Piclaw.ScheduledSchema
import Piclaw.Transactions
import Piclaw.WorkSchema

/-!
# The native exit latch

`createHostProcessControls`: the tool `exit_process`, the direct `requestCommandExit` and the
deferred handler that finishes an exit. A call that waits for the runtime, for the database writer
or for the native cleanup is an activity; the host may change whenever no call runs.
-/

namespace Piclaw
namespace ProcessExit

structure AcceptedInput where
  incarnation : String
  conversationId : ℕ
  chatJid : String
  branchId : String
  operationId : String
  sourceSeq : ℕ
  sourceId : String
  payloadRef : String
  requestId : String
  requestHash : String
  deriving DecidableEq

def isNativeMessageInput (input : AcceptedInput) : Bool :=
  input.operationId =
    "native-message:" ++ toString input.conversationId ++ ":" ++ toString input.sourceSeq

structure NativeExitReceipt where
  nonce : String
  reason : String
  taskId : ℕ
  assistantId : ℕ
  input : AcceptedInput
  deriving DecidableEq

def nativeExitNotice (reason : String) : String :=
  "Restart requested — " ++ reason ++ "\nGraceful shutdown requires committed completion and a " ++
    "final idle/cleanup check. No work will be replayed."

structure Scope where
  input : AcceptedInput
  submissionIds : List ℕ
  taskId : ℕ
  generationId : ℕ
  assistantId : ℕ
  singleton : Bool
  deriving DecidableEq

/-- What `inspectProcessControl` answers: the scheduling state, the tasks and the submissions that
are not settled, and the scope of the call it was asked about. -/
structure NativeProcessSnapshot where
  closing : Bool
  tasks : List ℕ
  submissions : List ℕ
  scope : Option Scope
  deriving DecidableEq

structure TaskRow where
  id : ℕ
  terminal : Bool
  abortRequested : Bool
  deriving DecidableEq

structure SubmissionRow where
  id : ℕ
  unsettled : Bool
  deriving DecidableEq

structure OperationRow where
  operationId : String
  phase : PiclawOperationPhase
  terminalDisposition : Option PiclawDisposition
  deriving DecidableEq

structure SourceRow where
  chatJid : String
  sourceSeq : ℕ
  state : AcceptedSourceState
  deriving DecidableEq

/-- What `JSON.parse` makes of `queued_followups_json`. -/
inductive FollowupsJson
  | unreadable
  | notArray
  | array (length : ℕ)
  deriving DecidableEq

structure MessageRow where
  rowId : ℕ
  chatJid : String
  content : String
  isBotMessage : Bool
  isTerminalAgentReply : Bool
  deriving DecidableEq

/-- What the controls read of the process around them. `ownerFault`, `idleFault` and `sourceFault`
are what `assertOwner`, `assertHostIdle` and `assertCapturedSourceCurrent` throw, if they throw. -/
structure Host where
  ownerFault : Option String
  idleFault : Option AcceptedInput → Option String
  sourceFault : AcceptedInput → ℕ → Option String
  inTransaction : Bool
  tasks : List TaskRow
  submissions : List SubmissionRow
  operations : List OperationRow
  sources : List SourceRow
  occurrences : List Scheduled.RunState
  queuedInputs : List QueuedInputState
  queuedFollowups : List (Option FollowupsJson)
  messages : List MessageRow

namespace Host
variable (h : Host)

def owner : Bool := h.ownerFault.isNone

def throwFault : Option String → Except String Unit
  | some message => .error message
  | none => .ok ()

def refuseIf (c : Bool) (message : String) : Except String Unit :=
  if c then .error message else .ok ()

def assertOwner : Except String Unit := throwFault h.ownerFault

def assertHostIdle (input : Option AcceptedInput) : Except String Unit :=
  throwFault (h.idleFault input)

def assertSingleton (scope : Scope) (tasks : List TaskRow) (submissions : List SubmissionRow)
    (operations : List OperationRow) (sources : List SourceRow) : Except String Unit := do
  refuseIf (!scope.singleton || scope.submissionIds.length != 1 || tasks.length != 2 ||
      submissions.length != 1 ||
      (if isNativeMessageInput scope.input then operations.length != 0 || decide (1 < sources.length)
        else operations.length != 1 || sources.length != 1))
    "A singleton root tool round with one accepted input is required"
  throwFault (scope.submissionIds.head?.bind (h.sourceFault scope.input))

def assertSqlIdle (scope : Option Scope) : Except String Unit := do
  h.assertOwner
  h.assertHostIdle (scope.map (·.input))
  let allowedTasks := match scope with
    | some scope => [scope.taskId, scope.generationId]
    | none => []
  let tasks := h.tasks.filter (fun task => !task.terminal)
  refuseIf (tasks.any fun task => !allowedTasks.contains task.id || task.abortRequested)
    "Other or uncertain native tasks are active"
  let submissions := h.submissions.filter (·.unsettled)
  refuseIf (submissions.any fun row => match scope with
      | some scope => !scope.submissionIds.contains row.id
      | none => true)
    "Other native input is queued or placed"
  let operations := h.operations.filter (fun row => row.phase != .terminal)
  refuseIf (operations.any fun row => some row.operationId != scope.map (·.input.operationId))
    "Other host operations are active"
  let sources := h.sources.filter (fun row => !row.state.closed)
  refuseIf (sources.any fun row => some row.chatJid != scope.map (·.input.chatJid) ||
      some row.sourceSeq != scope.map (·.input.sourceSeq))
    "Other accepted host input is pending"
  refuseIf (h.occurrences.any fun state => state == .claimed || state == .sourceBound)
    "Scheduled execution is active or uncertain"
  refuseIf (h.queuedInputs.any fun state => state != .consumed && state != .disposed)
    "Host queued input is pending"
  refuseIf (h.queuedFollowups.any fun value => match value with
      | none => false
      | some (.array length) => length != 0
      | some _ => true)
    "Deferred host input is pending or unreadable"
  match scope with
  | none => .ok ()
  | some scope => h.assertSingleton scope tasks submissions operations sources
  h.assertOwner

/-- `inspect` after its await. -/
def inspected (answer : Except String NativeProcessSnapshot) (requireIdle : Bool) :
    Except String NativeProcessSnapshot := do
  let snapshot ← answer
  h.assertOwner
  let allowed := match snapshot.scope with
    | some scope => [scope.taskId, scope.generationId]
    | none => []
  refuseIf (requireIdle && (snapshot.closing ||
      snapshot.tasks.any (fun id => !allowed.contains id) ||
      snapshot.submissions.any fun id => match snapshot.scope with
        | some scope => !scope.submissionIds.contains id
        | none => true))
    "Other native work is active"
  return snapshot

/-- The checks of `exit_process` between its inspection and its admission. -/
def exitScope (reason : String) (answer : Except String NativeProcessSnapshot) (aborted : Bool) :
    Except String Scope := do
  let snapshot ← h.inspected answer true
  refuseIf aborted "Aborted"
  let scope ← Relational.require "Exact root model control required" snapshot.scope
  refuseIf (decide (trim reason = "" ∨ 512 < utf16Length (trim reason)))
    "A bounded non-empty exit reason is required; no shutdown scheduled."
  return scope

/-- The checks of the final handler between its inspection and the cleanup. -/
def quiescent (answer : Except String NativeProcessSnapshot) : Except String Unit := do
  let snapshot ← h.inspected answer true
  refuseIf (!snapshot.tasks.isEmpty || !snapshot.submissions.isEmpty)
    "Native work is not quiescent"
  h.assertSqlIdle none

end Host

/-- One attempt of `admitSqliteWrite` to open its transaction: given up before it was tried, or
lost to another writer, or entered. -/
inductive WriteAttempt
  | stopped
  | contended (waits : Bool)
  | entered (aborted commits : Bool)
  deriving DecidableEq

inductive WriteOutcome
  | thrown
  | rolledBack
  | waiting
  | committed
  deriving DecidableEq

def admitSqliteWrite (h : Host) (operation : Except String Unit) : WriteAttempt → WriteOutcome
  | .stopped => .thrown
  | .contended waits =>
    if !h.owner then .thrown
    else if waits then .waiting
    else .rolledBack
  | .entered aborted commits =>
    if !h.owner then .thrown
    else match operation with
      | .error _ => .rolledBack
      | .ok () => if aborted || !commits then .rolledBack else .committed

/-- A scheduled exit: the accepted request it belongs to and, for `exit_process`, its input. -/
structure ScheduledExit where
  request : ℕ
  input : Option AcceptedInput
  reason : String
  deriving DecidableEq

inductive ExitPhase
  | deferred
  | inspection
  | cleanup
  deriving DecidableEq

/-- A call of the controls between two of its awaits. -/
inductive Activity
  | ended
  | toolInspecting (reason : String)
  | toolAdmitting (receipt : NativeExitReceipt) (scope : Scope)
  | commandAdmitting (reason : String)
  | commandAdmitted (request : ℕ) (reason : String)
  | commandInspecting (request : ℕ) (reason : String)
  | verifying (request : NativeExitReceipt)
  | finishing (exit : ScheduledExit) (phase : ExitPhase)
  deriving DecidableEq

/-- `pending`, `commandPending` and `scheduled` are the variables of the source. The accepted
requests are numbered; `pendingRequest` is the number of the one that set `pending`. -/
structure Controls where
  pending : Option NativeExitReceipt
  commandPending : Bool
  scheduled : Bool
  host : Host
  activities : ℕ → Activity
  pendingRequest : ℕ
  accepted : ℕ
  shutdowns : List ℕ

inductive Event
  | hostChanged (host : Host)
  | exitProcess (i : ℕ) (reason : String) (resumeMessage aborted : Bool)
  | exitProcessInspected (i : ℕ) (answer : Except String NativeProcessSnapshot) (aborted : Bool)
      (nonce : String) (attempt : WriteAttempt)
  | exitProcessRetried (i : ℕ) (attempt : WriteAttempt)
  | requestCommandExit (i : ℕ) (reason : String) (attempt : WriteAttempt)
  | commandRetried (i : ℕ) (attempt : WriteAttempt)
  | commandContinued (i : ℕ)
  | commandInspected (i : ℕ) (answer : Except String NativeProcessSnapshot)
  | afterTools (i : ℕ) (assistant : ℕ)
  | roundVerified (i : ℕ) (result : Except String (Option NativeExitReceipt))
  | onOperationSettled (i : ℕ) (operationId : String) (receipt : Option NativeExitReceipt)
  | onMessagePublished (i : ℕ) (input : AcceptedInput) (rowId : ℕ)
      (receipt : Option NativeExitReceipt)
  | finishStarted (i : ℕ)
  | finishInspected (i : ℕ) (answer : Except String NativeProcessSnapshot)
  | nativeClosed (i : ℕ) (resolved : Bool)

namespace Controls
variable (s : Controls)

def initial (host : Host) : Controls := ⟨none, false, false, host, fun _ => .ended, 0, 0, []⟩

def goto (i : ℕ) (a : Activity) : Controls :=
  { s with activities := Function.update s.activities i a }

def assertAdmission (input : Option AcceptedInput) : Except String Unit := do
  s.host.assertOwner
  Host.refuseIf (s.commandPending || match s.pending with
      | none => false
      | some receipt => input != some receipt.input)
    ("Native shutdown admission is sealed; no new work accepted. Use the existing " ++
      "abort/reconciliation control if completion is uncertain.")

section Tool

def exitProcess (i : ℕ) (reason : String) (resumeMessage aborted : Bool) : Controls :=
  if resumeMessage then s
  else if s.pending.isSome || s.commandPending then s
  else if !s.host.owner || aborted then s
  else s.goto i (.toolInspecting reason)

/-- One attempt to accept `receipt`. Rolling back resets `pending`. -/
def admitReceipt (i : ℕ) (receipt : NativeExitReceipt) (scope : Scope) (attempt : WriteAttempt) :
    Controls :=
  match admitSqliteWrite s.host (s.host.assertSqlIdle (some scope)) attempt with
  | .thrown => s.goto i .ended
  | .rolledBack => { s.goto i .ended with pending := none }
  | .waiting => { s.goto i (.toolAdmitting receipt scope) with pending := none }
  | .committed =>
    { s.goto i .ended with
      pending := some receipt
      pendingRequest := s.accepted
      accepted := s.accepted + 1 }

def exitProcessInspected (i : ℕ) (reason : String) (answer : Except String NativeProcessSnapshot)
    (aborted : Bool) (nonce : String) (attempt : WriteAttempt) : Controls :=
  match s.host.exitScope reason answer aborted with
  | .error _ => s.goto i .ended
  | .ok scope =>
    s.admitReceipt i
      { nonce
        reason := trim reason
        taskId := scope.taskId
        assistantId := scope.assistantId
        input := scope.input } scope attempt

def afterTools (i : ℕ) (assistant : ℕ) : Controls :=
  match s.pending with
  | none => s
  | some request => if request.assistantId ≠ assistant then s else s.goto i (.verifying request)

def roundVerified (i : ℕ) (request : NativeExitReceipt)
    (result : Except String (Option NativeExitReceipt)) : Controls :=
  match result with
  | .error _ => s.goto i .ended
  | .ok result =>
    if !s.host.owner then s.goto i .ended
    else if result.map (·.nonce) = some request.nonce then s.goto i .ended
    else { s.goto i .ended with pending := none }

end Tool

section Scheduling

/-- The exit of the accepted request `request`. -/
def scheduleExit (i : ℕ) (exit : ScheduledExit) : Controls :=
  { s.goto i (.finishing exit .deferred) with scheduled := true }

def onOperationSettled (i : ℕ) (operationId : String) (receipt : Option NativeExitReceipt) :
    Controls :=
  match s.pending with
  | none => s
  | some request =>
    if request.input.operationId ≠ operationId ∨ s.scheduled then s
    else if !s.host.owner then s
    else match s.host.operations.find? (fun row => row.operationId = operationId) with
      | none => s
      | some row =>
        if row.phase ≠ .terminal then s
        else if receipt.map (·.nonce) ≠ some request.nonce ∨
            row.terminalDisposition ≠ some .completed then
          { s with pending := none }
        else s.scheduleExit i ⟨s.pendingRequest, some request.input, request.reason⟩

def onMessagePublished (i : ℕ) (input : AcceptedInput) (rowId : ℕ)
    (receipt : Option NativeExitReceipt) : Controls :=
  match s.pending with
  | none => s
  | some request =>
    if s.scheduled ∨ !isNativeMessageInput input ∨ request.input ≠ input then s
    else if !s.host.owner then s
    else if receipt ≠ some request then s
    else if s.host.inTransaction then s
    else
      let row := s.host.messages.find? (fun row => row.rowId = rowId ∧ row.chatJid = input.chatJid ∧
        row.isBotMessage ∧ row.isTerminalAgentReply)
      if row.map (·.content) ≠ some (nativeExitNotice request.reason) then s
      else s.scheduleExit i ⟨s.pendingRequest, some request.input, request.reason⟩

end Scheduling

section Command

/-- One attempt to accept the command. Rolling back resets `commandPending`. -/
def admitCommand (i : ℕ) (reason : String) (attempt : WriteAttempt) : Controls :=
  match admitSqliteWrite s.host (s.host.assertSqlIdle none) attempt with
  | .thrown => s.goto i .ended
  | .rolledBack => { s.goto i .ended with commandPending := false }
  | .waiting => { s.goto i (.commandAdmitting reason) with commandPending := false }
  | .committed =>
    { s.goto i (.commandAdmitted s.accepted reason) with
      commandPending := true
      accepted := s.accepted + 1 }

def requestCommandExit (i : ℕ) (reason : String) (attempt : WriteAttempt) : Controls :=
  match s.assertAdmission none with
  | .error _ => s
  | .ok () =>
    if trim reason = "" ∨ 512 < utf16Length reason then s else s.admitCommand i reason attempt

def refuseCommand (i : ℕ) : Controls :=
  if s.host.owner then { s.goto i .ended with commandPending := false } else s.goto i .ended

/-- The continuation after the commit, up to the await in `inspect`. -/
def commandContinued (i request : ℕ) (reason : String) : Controls :=
  if s.host.owner then s.goto i (.commandInspecting request reason) else s.refuseCommand i

def commandInspected (i request : ℕ) (reason : String)
    (answer : Except String NativeProcessSnapshot) : Controls :=
  match s.host.inspected answer true with
  | .error _ => s.refuseCommand i
  | .ok _ =>
    match s.host.assertSqlIdle none with
    | .error _ => s.refuseCommand i
    | .ok () => s.scheduleExit i ⟨request, none, trim reason⟩

end Command

section Finish

/-- The handler's refusal. Once the cleanup has begun it leaves the latch as it is. -/
def refuseExit (i : ℕ) (closing : Bool) : Controls :=
  if !closing && s.host.owner then
    { s.goto i .ended with
      pending := none
      commandPending := false
      scheduled := false }
  else s.goto i .ended

def finishStarted (i : ℕ) (exit : ScheduledExit) : Controls :=
  if s.host.owner then s.goto i (.finishing exit .inspection) else s.refuseExit i false

def finishInspected (i : ℕ) (exit : ScheduledExit) (answer : Except String NativeProcessSnapshot) :
    Controls :=
  match s.host.quiescent answer with
  | .error _ => s.refuseExit i false
  | .ok () => s.goto i (.finishing exit .cleanup)

def nativeClosed (i : ℕ) (exit : ScheduledExit) (resolved : Bool) : Controls :=
  if !resolved then s.refuseExit i true
  else match s.host.assertSqlIdle none with
    | .error _ => s.refuseExit i true
    | .ok () => { s.goto i .ended with shutdowns := s.shutdowns ++ [exit.request] }

end Finish

/-- A call starts in a slot that no other call uses; a continuation runs in its own. -/
def step (s : Controls) : Event → Controls
  | .hostChanged host => { s with host }
  | .exitProcess i reason resumeMessage aborted =>
    match s.activities i with
    | .ended => s.exitProcess i reason resumeMessage aborted
    | _ => s
  | .exitProcessInspected i answer aborted nonce attempt =>
    match s.activities i with
    | .toolInspecting reason => s.exitProcessInspected i reason answer aborted nonce attempt
    | _ => s
  | .exitProcessRetried i attempt =>
    match s.activities i with
    | .toolAdmitting receipt scope => s.admitReceipt i receipt scope attempt
    | _ => s
  | .requestCommandExit i reason attempt =>
    match s.activities i with
    | .ended => s.requestCommandExit i reason attempt
    | _ => s
  | .commandRetried i attempt =>
    match s.activities i with
    | .commandAdmitting reason => s.admitCommand i reason attempt
    | _ => s
  | .commandContinued i =>
    match s.activities i with
    | .commandAdmitted request reason => s.commandContinued i request reason
    | _ => s
  | .commandInspected i answer =>
    match s.activities i with
    | .commandInspecting request reason => s.commandInspected i request reason answer
    | _ => s
  | .afterTools i assistant =>
    match s.activities i with
    | .ended => s.afterTools i assistant
    | _ => s
  | .roundVerified i result =>
    match s.activities i with
    | .verifying request => s.roundVerified i request result
    | _ => s
  | .onOperationSettled i operationId receipt =>
    match s.activities i with
    | .ended => s.onOperationSettled i operationId receipt
    | _ => s
  | .onMessagePublished i input rowId receipt =>
    match s.activities i with
    | .ended => s.onMessagePublished i input rowId receipt
    | _ => s
  | .finishStarted i =>
    match s.activities i with
    | .finishing exit .deferred => s.finishStarted i exit
    | _ => s
  | .finishInspected i answer =>
    match s.activities i with
    | .finishing exit .inspection => s.finishInspected i exit answer
    | _ => s
  | .nativeClosed i resolved =>
    match s.activities i with
    | .finishing exit .cleanup => s.nativeClosed i exit resolved
    | _ => s

end Controls
end ProcessExit
end Piclaw
