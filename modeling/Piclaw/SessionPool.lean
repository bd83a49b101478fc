import Piclaw.BranchHandles
import Piclaw.OrderedMap
import Piclaw.Transactions

/-!
# The pool of session runtimes

`AgentSessionManager`: calls of `getOrCreate`, `recreate` and `shutdown` between their awaits, the
pool that they share, evictions, and disposals that end at any time. A runtime is known by the
order of its creation.
-/

namespace Piclaw

/-- A call between two awaits. `entering`: admitted, but its task has not begun. `returning`: the
admitted part has returned `runtime`, but the call has not. -/
inductive SessionCall
  | idle
  | entering (chat : String) (epoch : ℕ)
  | awaitingDisposal (chat : String) (epoch : ℕ) (runtime : ℕ)
  | joining (chat : String) (epoch : ℕ) (task : ℕ)
  | realizing (chat : String) (epoch : ℕ) (runtime : ℕ)
  | preparing (chat : String) (epoch : ℕ)
  | creating (chat : String) (epoch : ℕ)
  | discarding (chat : String) (runtime : ℕ)
  | seeding (chat : String) (epoch : ℕ) (runtime : ℕ)
  | binding (chat : String) (epoch : ℕ) (runtime : ℕ)
  | cleaningExisting (runtime : ℕ)
  | returning (chat : String) (epoch : ℕ) (runtime : ℕ)
  | resolved (chat : String) (runtime : ℕ)
  | rejected
  | recreating (chat : String) (epoch : ℕ)
  | draining
  | shuttingDown (chats : List String)
  | done
  deriving DecidableEq

/-- `outcomes` has the chat and the result of each creation that has ended; `disposed` the runtimes
of which a disposal has been started, `settled` those of which one has ended. -/
structure SessionPool where
  pool : OrderedMap String ℕ
  createInFlight : OrderedMap String ℕ
  idleMainDisposalsInFlight : OrderedMap String ℕ
  runtimeDisposeInFlight : List ℕ
  failedMcpDisposals : List ℕ
  evictionProtections : List (ℕ × String)
  mcpAdmissionEpoch : ℕ
  mcpAdmissionsBlocked : Bool
  isShuttingDown : Bool
  calls : ℕ → SessionCall
  outcomes : ℕ → Option (String × Option ℕ)
  created : List String
  disposed : List ℕ
  settled : List ℕ

/-- `ok`: the part of the call that ended, and the checks outside the manager, did not throw.
`victims`: the cached chats that an eviction chooses among the unprotected ones. -/
inductive SessionEvent
  | getOrCreate (i : ℕ) (chat : String)
  | entered (i : ℕ) (ok : Bool)
  | disposalAwaited (i : ℕ) (ok : Bool)
  | joined (i : ℕ) (ok : Bool)
  | realized (i : ℕ) (ok : Bool)
  | prepared (i : ℕ) (ok : Bool)
  | sessionCreated (i : ℕ) (ok : Bool) (victims : List String)
  | seeded (i : ℕ) (ok : Bool)
  | bound (i : ℕ) (ok : Bool)
  | cleaned (i : ℕ)
  | returned (i : ℕ) (ok : Bool)
  | recreate (i : ℕ) (chat : String)
  | recreateEntered (i : ℕ)
  | evictIdle (victims : List String)
  | acquireEvictionProtection (i : ℕ) (chat : String)
  | releaseEvictionProtection (i : ℕ)
  | fenceMcpAndSnapshot
  | shutdown (i : ℕ)
  | shutdownAdmitted (i : ℕ)
  | shutdownNext (i : ℕ)
  | disposalEnded (runtime : ℕ) (ok : Bool)

namespace SessionPool
def initial : SessionPool :=
  ⟨.empty, .empty, .empty, [], [], [], 0, false, false, fun _ => .idle, fun _ => none, [], [], []⟩

variable (s : SessionPool)

def goto (i : ℕ) (call : SessionCall) : SessionPool :=
  { s with calls := Function.update s.calls i call }

def admitted (epoch : ℕ) : Bool := !s.mcpAdmissionsBlocked && epoch == s.mcpAdmissionEpoch

def blockMcpAdmissions : SessionPool :=
  { s with
    mcpAdmissionEpoch := if s.mcpAdmissionsBlocked then s.mcpAdmissionEpoch
      else s.mcpAdmissionEpoch + 1
    mcpAdmissionsBlocked := true }

section Disposing

def disposeRuntimeOnce (runtime : ℕ) : SessionPool :=
  if s.runtimeDisposeInFlight.contains runtime then s
  else
    { s with
      runtimeDisposeInFlight := runtime :: s.runtimeDisposeInFlight
      disposed := runtime :: s.disposed }

def startIdleDispose (chat : String) (runtime : ℕ) : SessionPool :=
  if (s.idleMainDisposalsInFlight.get chat).isSome then s
  else
    let removed := if s.pool.get chat = some runtime then s.pool.delete chat else s.pool
    let disposing := { s with pool := removed }.disposeRuntimeOnce runtime
    { disposing with
      idleMainDisposalsInFlight := s.idleMainDisposalsInFlight.set chat runtime }

def disposeEntry (chat : String) : SessionPool :=
  match s.pool.get chat with
  | none => s
  | some runtime => s.startIdleDispose chat runtime

def disposeMainRuntimeAfterError (chat : String) (runtime : ℕ) : SessionPool :=
  if s.pool.get chat = some runtime then s.startIdleDispose chat runtime
  else s.disposeRuntimeOnce runtime

def isProtected (chat : String) : Bool := s.evictionProtections.any (fun held => held.2 = chat)

/-- What `evictIdle` and the pool limit do with one of the chats that they choose. -/
def evict (chat : String) : SessionPool :=
  if s.isProtected chat then s else s.disposeEntry chat

def evictIdle (victims : List String) : SessionPool :=
  if s.mcpAdmissionsBlocked then s else victims.foldl evict s

def enforceMainSessionPoolLimit (chat : String) (victims : List String) : SessionPool :=
  (victims.filter (· ≠ chat)).foldl evict s

def disposalEnded (runtime : ℕ) (ok : Bool) : SessionPool :=
  if !s.runtimeDisposeInFlight.contains runtime then s
  else
    let ended :=
      { s with
        runtimeDisposeInFlight := s.runtimeDisposeInFlight.filter (· ≠ runtime)
        idleMainDisposalsInFlight :=
          s.idleMainDisposalsInFlight.filterEntries
            (fun _ disposing => decide (disposing ≠ runtime))
        settled := runtime :: s.settled }
    if ok then
      { ended with failedMcpDisposals := s.failedMcpDisposals.filter (· ≠ runtime) }
    else { ended with failedMcpDisposals := runtime :: s.failedMcpDisposals }.blockMcpAdmissions

end Disposing

section Creating

/-- The protection is held under the trimmed id, where the pool has the id as it is. -/
def acquire (i : ℕ) (chat : String) : SessionPool :=
  if trim chat = "" then s
  else { s with evictionProtections := (i, trim chat) :: s.evictionProtections }

def release (i : ℕ) : SessionPool :=
  { s with evictionProtections := s.evictionProtections.filter (fun held => held.1 ≠ i) }

def getOrCreate (i : ℕ) (chat : String) : SessionPool :=
  if s.mcpAdmissionsBlocked then s.goto i .rejected
  else s.goto i (.entering chat s.mcpAdmissionEpoch)

/-- `getOrCreateAdmitted` from the point where no disposal of the chat is awaited. -/
def admittedCall (i : ℕ) (chat : String) (epoch : ℕ) : SessionPool :=
  match s.createInFlight.get chat with
  | some task => s.goto i (.joining chat epoch task)
  | none =>
    match s.pool.get chat with
    | some runtime => (s.acquire i chat).goto i (.realizing chat epoch runtime)
    | none =>
      { (s.acquire i chat).goto i (.preparing chat epoch) with
        createInFlight := s.createInFlight.set chat i }

def entered (i : ℕ) (chat : String) (epoch : ℕ) (ok : Bool) : SessionPool :=
  if !ok || !s.admitted epoch || s.isShuttingDown then s.goto i .rejected
  else match s.idleMainDisposalsInFlight.get chat with
    | some runtime => s.goto i (.awaitingDisposal chat epoch runtime)
    | none => s.admittedCall i chat epoch

def disposalAwaited (i : ℕ) (chat : String) (epoch runtime : ℕ) (ok : Bool) : SessionPool :=
  if !s.settled.contains runtime then s
  else if !ok || !s.admitted epoch then s.goto i .rejected
  else s.admittedCall i chat epoch

def joined (i : ℕ) (chat : String) (epoch task : ℕ) (ok : Bool) : SessionPool :=
  match s.outcomes task with
  | none => s
  | some (_, none) => s.goto i .rejected
  | some (_, some runtime) =>
    if !ok || !s.admitted epoch then s.goto i .rejected
    else s.goto i (.returning chat epoch runtime)

def realized (i : ℕ) (chat : String) (epoch runtime : ℕ) (ok : Bool) : SessionPool :=
  if ok && s.admitted epoch then (s.release i).goto i (.returning chat epoch runtime)
  else (s.disposeMainRuntimeAfterError chat runtime).goto i (.cleaningExisting runtime)

/-- The end of a creation, with its runtime or with an error. -/
def creationEnded (i : ℕ) (chat : String) (runtime : Option ℕ) (next : SessionCall) :
    SessionPool :=
  { (s.release i).goto i next with
    createInFlight := s.createInFlight.delete chat
    outcomes := Function.update s.outcomes i (some (chat, runtime)) }

def prepared (i : ℕ) (chat : String) (epoch : ℕ) (ok : Bool) : SessionPool :=
  if ok && s.admitted epoch then s.goto i (.creating chat epoch)
  else s.creationEnded i chat none .rejected

/-- The new runtime enters the pool before its seed is realized and before it is bound. -/
def sessionCreated (i : ℕ) (chat : String) (epoch : ℕ) (ok : Bool) (victims : List String) :
    SessionPool :=
  if !ok then s.creationEnded i chat none .rejected
  else
    let made := { s with created := s.created ++ [chat] }
    if s.isShuttingDown || !s.admitted epoch then
      (made.disposeRuntimeOnce s.created.length).goto i (.discarding chat s.created.length)
    else
      ({ made with pool := s.pool.set chat s.created.length }.enforceMainSessionPoolLimit chat
        victims).goto i (.seeding chat epoch s.created.length)

def seeded (i : ℕ) (chat : String) (epoch runtime : ℕ) (ok : Bool) : SessionPool :=
  if ok && s.admitted epoch then s.goto i (.binding chat epoch runtime)
  else (s.disposeMainRuntimeAfterError chat runtime).goto i (.discarding chat runtime)

def bound (i : ℕ) (chat : String) (epoch runtime : ℕ) (ok : Bool) : SessionPool :=
  if ok && s.admitted epoch then
    s.creationEnded i chat (some runtime) (.returning chat epoch runtime)
  else (s.disposeMainRuntimeAfterError chat runtime).goto i (.discarding chat runtime)

/-- The disposal that a failed call waits for has ended, or there is none to wait for. -/
def ended (runtime : ℕ) : Bool :=
  s.settled.contains runtime || !s.runtimeDisposeInFlight.contains runtime

def cleaned (i : ℕ) : SessionPool :=
  match s.calls i with
  | .discarding chat runtime =>
    if s.ended runtime then s.creationEnded i chat none .rejected else s
  | .cleaningExisting runtime => if s.ended runtime then (s.release i).goto i .rejected else s
  | _ => s

def returned (i : ℕ) (chat : String) (epoch runtime : ℕ) (ok : Bool) : SessionPool :=
  if ok && s.admitted epoch then s.goto i (.resolved chat runtime) else s.goto i .rejected

end Creating

section Controls

def recreate (i : ℕ) (chat : String) : SessionPool :=
  if s.mcpAdmissionsBlocked then s.goto i .rejected
  else s.goto i (.recreating chat s.mcpAdmissionEpoch)

def recreateEntered (i : ℕ) (chat : String) (epoch : ℕ) : SessionPool :=
  if s.admitted epoch then (s.disposeEntry chat).goto i .done else s.goto i .rejected

def shutdown (i : ℕ) : SessionPool :=
  if s.isShuttingDown then s
  else { s.blockMcpAdmissions with isShuttingDown := true }.goto i .draining

def shutdownAdmitted (i : ℕ) : SessionPool :=
  { s with evictionProtections := [] }.goto i (.shuttingDown (s.pool.entries.map Prod.fst))

/-- The loop of the shutdown, up to the next disposal, and the pool cleared behind it. -/
def shutdownNext (i : ℕ) : List String → SessionPool
  | [] => { s with pool := .empty }.goto i .done
  | chat :: chats => (s.disposeEntry chat).goto i (.shuttingDown chats)

end Controls

def step (s : SessionPool) : SessionEvent → SessionPool
  | .getOrCreate i chat =>
    match s.calls i with
    | .idle => s.getOrCreate i chat
    | _ => s
  | .entered i ok =>
    match s.calls i with
    | .entering chat epoch => s.entered i chat epoch ok
    | _ => s
  | .disposalAwaited i ok =>
    match s.calls i with
    | .awaitingDisposal chat epoch runtime => s.disposalAwaited i chat epoch runtime ok
    | _ => s
  | .joined i ok =>
    match s.calls i with
    | .joining chat epoch task => s.joined i chat epoch task ok
    | _ => s
  | .realized i ok =>
    match s.calls i with
    | .realizing chat epoch runtime => s.realized i chat epoch runtime ok
    | _ => s
  | .prepared i ok =>
    match s.calls i with
    | .preparing chat epoch => s.prepared i chat epoch ok
    | _ => s
  | .sessionCreated i ok victims =>
    match s.calls i with
    | .creating chat epoch => s.sessionCreated i chat epoch ok victims
    | _ => s
  | .seeded i ok =>
    match s.calls i with
    | .seeding chat epoch runtime => s.seeded i chat epoch runtime ok
    | _ => s
  | .bound i ok =>
    match s.calls i with
    | .binding chat epoch runtime => s.bound i chat epoch runtime ok
    | _ => s
  | .cleaned i => s.cleaned i
  | .returned i ok =>
    match s.calls i with
    | .returning chat epoch runtime => s.returned i chat epoch runtime ok
    | _ => s
  | .recreate i chat =>
    match s.calls i with
    | .idle => s.recreate i chat
    | _ => s
  | .recreateEntered i =>
    match s.calls i with
    | .recreating chat epoch => s.recreateEntered i chat epoch
    | _ => s
  | .evictIdle victims => s.evictIdle victims
  | .acquireEvictionProtection i chat =>
    match s.calls i with
    | .idle => (s.acquire i chat).goto i .done
    | _ => s
  | .releaseEvictionProtection i =>
    match s.calls i with
    | .done => s.release i
    | _ => s
  | .fenceMcpAndSnapshot => s.blockMcpAdmissions
  | .shutdown i =>
    match s.calls i with
    | .idle => s.shutdown i
    | _ => s
  | .shutdownAdmitted i =>
    match s.calls i with
    | .draining => s.shutdownAdmitted i
    | _ => s
  | .shutdownNext i =>
    match s.calls i with
    | .shuttingDown chats => s.shutdownNext i chats
    | _ => s
  | .disposalEnded runtime ok => s.disposalEnded runtime ok

end SessionPool
end Piclaw
