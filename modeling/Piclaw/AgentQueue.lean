import Mathlib.Data.List.AList
import Piclaw.WorkInvariant

/-!
# The agent queue

The lane-aware execution queue of the agent runs. A lane runs one item at a time and keeps the
others in order of arrival; a failed item waits for a retry timer and then re-enters its lane.

Lane objects have an identity, because the callbacks of a task hold on to the object they were
started with while the map of lanes may have moved on. Everything that runs in a turn of its own is
a `QueueTurn`: a call from outside (also from inside a task or an idle listener), the start of a
delayed task, its end, the resolution of its promise, a timer.

`history` records what the queue did, latest first. No turn reads it.
-/

namespace Piclaw

def defaultMaxRetries : ℕ := 3

def shouldRetry (retries maxRetries : ℕ) (shuttingDown : Bool) : Bool :=
  !shuttingDown && decide (retries < maxRetries)

def defaultLaneKey : String := "__default__"

/-- An item; `number` is its place in the order of acceptance. -/
structure QueueItem where
  number : ℕ
  id : Option String
  laneKey : String
  retries : ℕ
  deriving DecidableEq

/-- The identifier by which an item is deduplicated: the empty one counts as none. -/
def QueueItem.key (item : QueueItem) : Option String := item.id.filter fun s => decide (s ≠ "")

structure LaneState where
  running : Bool
  pending : List QueueItem
  current : Option QueueItem
  runningPromise : Option ℕ
  deriving DecidableEq

def LaneState.fresh : LaneState := ⟨false, [], none, none⟩

def LaneState.idle (lane : LaneState) : Bool :=
  !lane.running && lane.current.isNone && lane.pending.isEmpty && lane.runningPromise.isNone

inductive TaskStage where
  | starting
  | executing
  | settled
  deriving DecidableEq

/-- A started item: the promise of its run, the lane object it was started in and how far it is. -/
structure QueueTask where
  promise : ℕ
  lane : ℕ
  item : QueueItem
  stage : TaskStage
  deriving DecidableEq

structure RetryTimer where
  timer : ℕ
  item : QueueItem
  armed : Bool
  deriving DecidableEq

inductive JoinState where
  | waiting
  | resolved
  | rejected
  deriving DecidableEq

structure QueueMigration where
  settled : Bool
  failed : Bool
  released : Bool
  joined : JoinState
  deriving DecidableEq

/-- The promise that `shutdown` returns: the one of the migration, or a join of its own. -/
inductive ShutdownPromise where
  | migration
  | joining (runs : List ℕ) (retainedRetries : Bool)
  | resolved
  | incomplete
  | timedOut
  deriving DecidableEq

structure QueueMetrics where
  enqueued : ℕ
  deduplicated : ℕ
  started : ℕ
  succeeded : ℕ
  failed : ℕ
  retriesScheduled : ℕ
  deriving DecidableEq

inductive QueueEvent where
  | accepted (item : QueueItem)
  | started (item : QueueItem)
  | succeeded (item : QueueItem)
  | failed (item : QueueItem)
  | gaveUp (item : QueueItem)
  | sealed
  | drained
  deriving DecidableEq

structure AgentQueue where
  lanes : AList fun _ : String => ℕ
  objects : ℕ → LaneState
  allocated : ℕ
  retryingIds : List String
  retryTimers : List RetryTimer
  timers : ℕ
  shuttingDown : Bool
  shutdownPromise : Option ShutdownPromise
  migration : Option QueueMigration
  metrics : QueueMetrics
  tasks : List QueueTask
  history : List QueueEvent

namespace AgentQueue

def empty : AgentQueue where
  lanes := ∅
  objects _ := .fresh
  allocated := 0
  retryingIds := []
  retryTimers := []
  timers := 0
  shuttingDown := false
  shutdownPromise := none
  migration := none
  metrics := ⟨0, 0, 0, 0, 0, 0⟩
  tasks := []
  history := []

def record (event : QueueEvent) (q : AgentQueue) : AgentQueue :=
  { q with history := event :: q.history }

def setLane (i : ℕ) (lane : LaneState) (q : AgentQueue) : AgentQueue :=
  { q with objects := Function.update q.objects i lane }

def laneOf (q : AgentQueue) (laneKey : String) : Option ℕ := q.lanes.lookup laneKey

/-- The lane object of a key, made when the map has none. -/
def getLane (laneKey : String) (q : AgentQueue) : AgentQueue × ℕ :=
  match q.laneOf laneKey with
  | some i => (q, i)
  | none =>
    ({ q with
        lanes := q.lanes.insert laneKey q.allocated
        objects := Function.update q.objects q.allocated .fresh
        allocated := q.allocated + 1 },
      q.allocated)

def removeLaneIfIdle (laneKey : String) (q : AgentQueue) : AgentQueue :=
  match q.laneOf laneKey with
  | none => q
  | some i =>
    if (q.objects i).idle then { q with lanes := q.lanes.erase laneKey }
    else q

def mapped (q : AgentQueue) : List LaneState := q.lanes.entries.map fun e => q.objects e.2

def hasQueuedId (id : String) (q : AgentQueue) : Bool :=
  q.retryingIds.contains id ||
    q.mapped.any fun lane =>
      (lane.current.any fun item => decide (item.id = some id)) ||
        lane.pending.any fun item => decide (item.id = some id)

def forgetRetrying (item : QueueItem) (q : AgentQueue) : AgentQueue :=
  { q with retryingIds := q.retryingIds.filter fun s => decide (item.key ≠ some s) }

/-- Starts an item in a lane object; its function is called in a later turn. -/
def runItem (i : ℕ) (item : QueueItem) (q : AgentQueue) : AgentQueue :=
  let q := q.forgetRetrying item
  let run := q.metrics.started
  let lane := q.objects i
  { q with
    objects := Function.update q.objects i
      { lane with running := true, current := some item, runningPromise := some run }
    metrics := { q.metrics with started := run + 1 }
    tasks := q.tasks ++ [⟨run, i, item, .starting⟩]
    history := .started item :: q.history }

def pushPending (i : ℕ) (item : QueueItem) (q : AgentQueue) : AgentQueue :=
  let lane := q.objects i
  q.setLane i { lane with pending := lane.pending ++ [item] }

/-- Runs an item in a lane that is free and lets it wait in one that is running. -/
def admitItem (i : ℕ) (item : QueueItem) (q : AgentQueue) : AgentQueue :=
  if (q.objects i).running then q.pushPending i item else q.runItem i item

def acceptItem (i : ℕ) (item : QueueItem) (q : AgentQueue) : AgentQueue :=
  admitItem i item
    { q with
      metrics := { q.metrics with enqueued := q.metrics.enqueued + 1 }
      history := .accepted item :: q.history }

def resolveLaneKey (laneKey : Option String) : String :=
  match laneKey.filter fun s => decide (s ≠ "") with
  | some s => s
  | none => defaultLaneKey

/-- `enqueue`; `admits` is the answer of the process admission. -/
def enqueue (admits : Bool) (id laneKey : Option String) (q : AgentQueue) : AgentQueue :=
  if admits = false ∨ q.migration.isSome ∨ q.shuttingDown then q
  else if (id.filter fun s => decide (s ≠ "")).any fun s => q.hasQueuedId s then
    { q with metrics := { q.metrics with deduplicated := q.metrics.deduplicated + 1 } }
  else
    let key := resolveLaneKey laneKey
    acceptItem (q.getLane key).2 ⟨q.metrics.enqueued, id, key, 0⟩ (q.getLane key).1

def isDrained (q : AgentQueue) : Bool :=
  q.retryingIds.isEmpty && q.retryTimers.isEmpty && q.mapped.all fun lane => lane.idle

def checkMigrationDrain (q : AgentQueue) : AgentQueue :=
  match q.migration with
  | none => q
  | some m =>
    if m.settled ∨ q.isDrained = false then q
    else if m.failed then
      { q with migration := some { m with settled := true, joined := .rejected } }
    else
      { q with
        migration := some { m with settled := true, joined := .resolved }
        history := .drained :: q.history }

def sealAndDrain (q : AgentQueue) : AgentQueue :=
  match q.migration with
  | some _ => q
  | none =>
    if q.shuttingDown then
      { q with migration := some ⟨true, true, false, .rejected⟩, history := .sealed :: q.history }
    else
      checkMigrationDrain
        { q with
          migration := some ⟨false, false, false, .waiting⟩, history := .sealed :: q.history }

def release (q : AgentQueue) : AgentQueue :=
  { q with migration := q.migration.map fun m => { m with released := true } }

def assertMigrationDrained (q : AgentQueue) : Bool :=
  q.migration.any fun m => !m.released && m.settled && !m.failed && q.isDrained

def setStage (run : ℕ) (stage : TaskStage) (q : AgentQueue) : AgentQueue :=
  { q with tasks := q.tasks.map fun t => if t.promise = run then { t with stage := stage } else t }

def scheduleRetry (item : QueueItem) (q : AgentQueue) : AgentQueue :=
  if shouldRetry item.retries defaultMaxRetries q.shuttingDown = false then q.record (.gaveUp item)
  else
    let item := { item with retries := item.retries + 1 }
    { q with
      metrics := { q.metrics with retriesScheduled := q.metrics.retriesScheduled + 1 }
      retryingIds := item.key.toList ++ q.retryingIds
      retryTimers := q.retryTimers ++ [⟨q.timers, item, true⟩]
      timers := q.timers + 1 }

def noteSuccess (item : QueueItem) (q : AgentQueue) : AgentQueue :=
  { q with
    metrics := { q.metrics with succeeded := q.metrics.succeeded + 1 }
    history := .succeeded item :: q.history }

def noteFailure (item : QueueItem) (q : AgentQueue) : AgentQueue :=
  { q with
    metrics := { q.metrics with failed := q.metrics.failed + 1 }
    migration := q.migration.map fun m => { m with failed := true }
    history := .failed item :: q.history }

/-- The `finally` block of `executeItem`. The idle listeners come last in it, so what they call is a
turn of its own. -/
def leaveLane (i : ℕ) (item : QueueItem) (q : AgentQueue) : AgentQueue :=
  let lane := q.objects i
  let q := q.setLane i { lane with running := false, current := none, runningPromise := none }
  match lane.pending, q.shuttingDown with
  | next :: rest, false =>
    runItem i next (q.setLane i ⟨false, rest, none, none⟩)
  | _, _ => q.removeLaneIfIdle item.laneKey

def findTask (run : ℕ) (stage : TaskStage) (q : AgentQueue) : Option QueueTask :=
  q.tasks.find? fun t => decide (t.promise = run) && decide (t.stage = stage)

/-- The function of a task starts to run. -/
def startTask (run : ℕ) (q : AgentQueue) : AgentQueue :=
  match q.findTask run .starting with
  | none => q
  | some _ => q.setStage run .executing

/-- The function of a task has returned or thrown, and `executeItem` runs to its end. -/
def executeItem (run : ℕ) (success : Bool) (q : AgentQueue) : AgentQueue :=
  match q.findTask run .executing with
  | none => q
  | some task =>
    let q := q.setStage run .settled
    let q := if success then q.noteSuccess task.item
      else (q.noteFailure task.item).scheduleRetry task.item
    q.leaveLane task.lane task.item

/-- The promise of a run resolves. -/
def resolveRun (run : ℕ) (q : AgentQueue) : AgentQueue :=
  match q.findTask run .settled with
  | none => q
  | some _ =>
    checkMigrationDrain { q with tasks := q.tasks.filter fun t => decide (t.promise ≠ run) }

def fireRetry (timer : ℕ) (q : AgentQueue) : AgentQueue :=
  match q.retryTimers.find? fun t => decide (t.timer = timer) && t.armed with
  | none => q
  | some t =>
    let q := forgetRetrying t.item
      { q with retryTimers := q.retryTimers.filter fun t => decide (t.timer ≠ timer) }
    if q.shuttingDown then q
    else (q.getLane t.item.laneKey).1.admitItem (q.getLane t.item.laneKey).2 t.item

/-- How a join of its own ends once the running tasks have been joined. -/
def joinOutcome (retainedRetries : Bool) (q : AgentQueue) : ShutdownPromise :=
  if retainedRetries ∨ q.mapped.any (fun lane => !lane.pending.isEmpty) then .incomplete
  else .resolved

def joinShutdown (q : AgentQueue) : AgentQueue :=
  let runs := q.mapped.filterMap fun lane => lane.runningPromise
  let retained := !q.retryTimers.isEmpty
  let promise := if runs = [] then q.joinOutcome retained else .joining runs retained
  { q with
    shuttingDown := true
    retryTimers := q.retryTimers.map fun t => { t with armed := false }
    shutdownPromise := some promise }

def shutdown (q : AgentQueue) : AgentQueue :=
  match q.shutdownPromise, q.migration with
  | some _, _ => q
  | none, some _ => { q with shutdownPromise := some .migration }
  | none, none => q.joinShutdown

/-- The joined tasks have all resolved. -/
def shutdownJoined (q : AgentQueue) : AgentQueue :=
  match q.shutdownPromise with
  | some (.joining runs retained) =>
    if runs.any fun run => q.tasks.any fun t => decide (t.promise = run) then q
    else { q with shutdownPromise := some (q.joinOutcome retained) }
  | _ => q

def shutdownTimeout (q : AgentQueue) : AgentQueue :=
  match q.shutdownPromise with
  | some (.joining _ _) => { q with shutdownPromise := some .timedOut }
  | _ => q

end AgentQueue

inductive QueueTurn where
  | enqueue (admits : Bool) (id laneKey : Option String)
  | startTask (run : ℕ)
  | finishTask (run : ℕ) (success : Bool)
  | resolveRun (run : ℕ)
  | fireRetry (timer : ℕ)
  | sealAndDrain
  | release
  | shutdown
  | shutdownJoined
  | shutdownTimeout
  deriving DecidableEq

/-- One turn of the event loop. A turn that is not due changes nothing. -/
def queueStep (q : AgentQueue) : QueueTurn → AgentQueue
  | .enqueue admits id laneKey => q.enqueue admits id laneKey
  | .startTask run => q.startTask run
  | .finishTask run success => q.executeItem run success
  | .resolveRun run => q.resolveRun run
  | .fireRetry timer => q.fireRetry timer
  | .sealAndDrain => q.sealAndDrain
  | .release => q.release
  | .shutdown => q.shutdown
  | .shutdownJoined => q.shutdownJoined
  | .shutdownTimeout => q.shutdownTimeout

end Piclaw
