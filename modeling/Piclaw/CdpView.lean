import Piclaw.BranchHandles

/-!
# The CDP viewer

Connections of viewers that watch and control tabs of browsers. Three maps say who controls a
source, which tools run on it and who views a tab. Messages of a viewer run one after another;
each stops at its awaits, where sockets, tools and other connections go on.
-/

namespace Piclaw

structure CdpBrowserSource where
  id : String
  port : ℕ
  clearsViewport : Bool
  deriving DecidableEq

inductive ViewerInput
  | mouse (pressed released : Bool) (button : String) (valid : Bool)
  | touch (ended : Bool) (valid : Bool)
  | text (valid : Bool)
  | key (down : Bool) (code : String) (valid : Bool)
  | other
  deriving DecidableEq

inductive ViewerResize
  | off
  | size (width height : ℕ)
  | other
  deriving DecidableEq

/-- `attach none` names a source or a target that is no string. -/
inductive ViewerMessage
  | list
  | attach (tab : Option (String × String))
  | control (enabled : Bool)
  | input (value : ViewerInput)
  | releaseInput
  | resize (value : ViewerResize)
  | detach
  | unknown
  deriving DecidableEq

inductive RawMessage
  | tooLarge
  | invalid
  | ack (frame stream : ℕ)
  | queued (message : ViewerMessage)
  deriving DecidableEq

inductive ReadyState
  | connecting
  | opened
  | closing
  | closed
  deriving DecidableEq

/-- What follows a `detach`: the rest of the handler, the end of `close`, or the rest of `attach`. -/
inductive AfterDetach
  | goOn
  | settle
  | openTab (source target : String) (token : Option ℕ)
  deriving DecidableEq

/-- What a handler does from one await to the next. `token` names a registration of the source. -/
inductive ViewStep
  | list
  | findSource (source target : String)
  | findTarget (source target : String) (token : Option ℕ)
  | openTab (source target : String) (token : Option ℕ)
  | startScreencast (generation : ℕ)
  | setControl (enabled : Bool)
  | input (value : ViewerInput)
  | resize (value : ViewerResize)
  | releaseInput
  | clearHeld
  | restoreViewport (caught : Bool)
  | viewportRestored
  | command (caught : Bool)
  | detach (next : AfterDetach)
  | endDetach (next : AfterDetach)
  deriving DecidableEq

/-- The command that a handler awaits, and whether it catches its rejection. -/
structure AwaitedCommand where
  id : ℕ
  caught : Bool
  deriving DecidableEq

structure ViewTask where
  todo : List ViewStep
  awaiting : Option AwaitedCommand
  onError : List ViewStep
  deriving DecidableEq

/-- `unacked` is the frame that the viewer has to acknowledge, with the number under which it came;
`received` counts frames. `sentOpen` and `acks` are histories: the frames sent and not acknowledged
by the viewer, each with its stream, and the frames acknowledged upstream. -/
structure CdpViewConnection where
  sourceId : String
  targetId : String
  upstream : Option ReadyState
  generation : ℕ
  nextId : ℕ
  pending : List ℕ
  unacked : Option (ℕ × ℕ)
  control : Bool
  heldKeys : List String
  heldButtons : List String
  touching : Bool
  resized : Bool
  disposed : Bool
  cleaning : Bool
  settled : Bool
  queue : List ViewerMessage
  task : Option ViewTask
  received : ℕ
  sentOpen : List (ℕ × ℕ)
  acks : List ℕ

def CdpViewConnection.fresh : CdpViewConnection where
  sourceId := ""
  targetId := ""
  upstream := none
  generation := 0
  nextId := 0
  pending := []
  unacked := none
  control := false
  heldKeys := []
  heldButtons := []
  touching := false
  resized := false
  disposed := false
  cleaning := false
  settled := false
  queue := []
  task := none
  received := 0
  sentOpen := []
  acks := []

namespace CdpViewConnection

def tabKey (sourceId targetId : String) : String :=
  sourceId ++ "/" ++ targetId

def key (conn : CdpViewConnection) : String :=
  tabKey conn.sourceId conn.targetId

/-- `command`: what is sent has an id that is awaited. -/
def command (conn : CdpViewConnection) : CdpViewConnection :=
  { conn with nextId := conn.nextId + 1, pending := conn.pending ++ [conn.nextId + 1] }

end CdpViewConnection

/-- `toolCalls` has 0 for a source that is not in the map. `handles` are the tool calls that are
not released. -/
structure CdpViews where
  sources : List (CdpBrowserSource × ℕ)
  nextToken : ℕ
  controllers : String → Option ℕ
  toolCalls : String → ℕ
  handles : List (ℕ × String)
  nextHandle : ℕ
  tabViewers : String → Option ℕ
  conns : ℕ → CdpViewConnection

namespace CdpViews
open CdpViewConnection

def initial : CdpViews where
  sources := []
  nextToken := 0
  controllers _ := none
  toolCalls _ := 0
  handles := []
  nextHandle := 0
  tabViewers _ := none
  conns _ := fresh

section Operations
variable (s : CdpViews) (c : ℕ)

def setConn (conn : CdpViewConnection) : CdpViews :=
  { s with conns := Function.update s.conns c conn }

def findSource (sourceId : String) : Option ℕ :=
  (s.sources.find? fun entry => decide (entry.1.id = sourceId)).map Prod.snd

/-- `/^[a-z][a-z0-9-]{0,63}$/`, not `cdp`, and a port of users. -/
def validSource (source : CdpBrowserSource) : Bool :=
  source.id.toList.head?.any (fun ch => decide ('a' ≤ ch ∧ ch ≤ 'z')) &&
    source.id.toList.all (fun ch => decide ('a' ≤ ch ∧ ch ≤ 'z') ||
      decide ('0' ≤ ch ∧ ch ≤ '9') || decide (ch = '-')) &&
    decide (source.id.length ≤ 64) && decide (source.id ≠ "cdp") &&
    decide (1024 ≤ source.port) && decide (source.port ≤ 65535)

def registerCdpViewSource (source : CdpBrowserSource) : CdpViews :=
  if !validSource source || (s.findSource source.id).isSome then s
  else { s with sources := s.sources ++ [(source, s.nextToken)], nextToken := s.nextToken + 1 }

def closed (conn : CdpViewConnection) : CdpViewConnection :=
  { conn with disposed := true }

def close : CdpViews :=
  s.setConn c (closed (s.conns c))

/-- The registration of the token is taken back; its connections are closed. -/
def unregister (sourceId : String) (token : ℕ) : CdpViews :=
  if s.findSource sourceId ≠ some token then s
  else { s with
    sources := s.sources.filter fun entry => decide (entry.1.id ≠ sourceId)
    conns := fun c => if (s.conns c).sourceId = sourceId then closed (s.conns c) else s.conns c }

/-- Refused while a viewer controls the source. -/
def beginCdpViewTool (sourceId : String) : CdpViews :=
  if (s.controllers sourceId).isSome then s
  else { s with
    toolCalls := Function.update s.toolCalls sourceId (s.toolCalls sourceId + 1)
    handles := s.handles ++ [(s.nextHandle, sourceId)]
    nextHandle := s.nextHandle + 1 }

/-- Releasing again changes nothing. -/
def releaseTool (handle : ℕ × String) : CdpViews :=
  if handle ∈ s.handles then
    { s with
      toolCalls := Function.update s.toolCalls handle.2 (s.toolCalls handle.2 - 1)
      handles := s.handles.erase handle }
  else s

/-- The part of `release` in the maps. -/
def dropHolds : CdpViews :=
  { s with
    tabViewers := fun key =>
      if key = (s.conns c).key ∧ s.tabViewers key = some c then none else s.tabViewers key
    controllers := fun sourceId =>
      if sourceId = (s.conns c).sourceId ∧ s.controllers sourceId = some c then none
      else s.controllers sourceId }

def released (conn : CdpViewConnection) : CdpViewConnection :=
  { conn with control := false, unacked := none, pending := [] }

def release : CdpViews :=
  (s.dropHolds c).setConn c (released (s.conns c))

/-- A command without which the handler goes on or, uncaught, fails where the socket is not open. -/
def sendAwaited (caught : Bool) : CdpViews × Option (List ViewStep × Option AwaitedCommand) :=
  let conn := s.conns c
  if conn.upstream = some .opened then
    (s.setConn c conn.command, some ([], some ⟨conn.nextId + 1, caught⟩))
  else (s, if caught then some ([], none) else none)

/-- `setControl`; `none` is a throw. -/
def setControl (enabled : Bool) : CdpViews × Option (List ViewStep × Option AwaitedCommand) :=
  let conn := s.conns c
  if conn.upstream ≠ some .opened then (s, none)
  else if enabled then
    if s.toolCalls conn.sourceId ≠ 0 then (s, none)
    else if (s.controllers conn.sourceId).any fun owner => decide (owner ≠ c) then (s, none)
    else ({ s.setConn c { conn with control := true } with
      controllers := Function.update s.controllers conn.sourceId (some c) }, some ([], none))
  else
    ({ s.setConn c { conn with control := false } with
      controllers := fun sourceId =>
        if sourceId = conn.sourceId ∧ s.controllers sourceId = some c then none
        else s.controllers sourceId }, some ([], none))

def buttonName (button : String) : String :=
  if button ∈ ["left", "middle", "right", "none"] then button else "none"

/-- What an input holds down from now on; `none` is an input that is not valid. -/
def heldAfter (conn : CdpViewConnection) : ViewerInput → Option CdpViewConnection
  | .mouse pressed isReleased button valid =>
    if !valid then none
    else if pressed then some { conn with
      heldButtons := conn.heldButtons.erase (buttonName button) ++ [buttonName button] }
    else if isReleased then some { conn with
      heldButtons := conn.heldButtons.erase (buttonName button) }
    else some conn
  | .touch ended valid => if !valid then none else some { conn with touching := !ended }
  | .text valid => if !valid then none else some conn
  | .key down code valid =>
    if !valid then none
    else if down then some { conn with heldKeys := conn.heldKeys.erase code ++ [code] }
    else some { conn with heldKeys := conn.heldKeys.erase code }
  | .other => none

def input (value : ViewerInput) : CdpViews × Option (List ViewStep × Option AwaitedCommand) :=
  if !(s.conns c).control then (s, none)
  else match heldAfter (s.conns c) value with
    | none => (s, none)
    | some conn => (s.setConn c conn).sendAwaited c false

def resize (value : ViewerResize) : CdpViews × Option (List ViewStep × Option AwaitedCommand) :=
  let conn := s.conns c
  if !conn.control then (s, none)
  else match value with
    | .off => (s, some ([.restoreViewport false], none))
    | .other => (s, none)
    | .size width height =>
      if width < 200 ∨ 4096 < width ∨ height < 200 ∨ 4096 < height then (s, none)
      else if conn.sourceId = "stealth" ∧ !(s.sources.any fun entry =>
          decide (entry.1.id = "stealth") && entry.1.clearsViewport) then (s, none)
      else (s.setConn c { conn with resized := true }).sendAwaited c false

/-- The tab is another viewer's. -/
def takenByOther (key : String) : Bool :=
  (s.tabViewers key).any fun viewer => decide (viewer ≠ c)

/-- `attach` after its `detach`: the tab is taken and a socket of a new generation opened. -/
def openTab (source target : String) (token : Option ℕ) :
    CdpViews × Option (List ViewStep × Option AwaitedCommand) :=
  let conn := s.conns c
  if s.takenByOther c (tabKey source target) then (s, none)
  else if conn.disposed ∨ (source ≠ "cdp" ∧ s.findSource source ≠ token) then (s, some ([], none))
  else ({ s.setConn c { conn with
      sourceId := source
      targetId := target
      generation := conn.generation + 1
      upstream := some .connecting } with
    tabViewers := Function.update s.tabViewers (tabKey source target) (some c) },
    some ([.startScreencast (conn.generation + 1)], none))

/-- The socket is gone with its generation, and what the connection held. -/
def endDetach (next : AfterDetach) : CdpViews :=
  let conn := s.conns c
  (s.dropHolds c).setConn c { released conn with
    generation := conn.generation + 1
    upstream := none
    resized := false
    settled := conn.settled || decide (next = .settle) }

/-- One part of a handler; `ok` is the result of the await before it. It gives the parts that come
before the rest and the command it awaits, or `none` where it throws. -/
def runStep (ok : Bool) : ViewStep → CdpViews × Option (List ViewStep × Option AwaitedCommand)
  | .list => (s, some ([], none))
  | .findSource source target =>
    if source = "cdp" then
      (s, if ok then some ([.findTarget source target none], none) else none)
    else (s, (s.findSource source).map fun token =>
      ([.findTarget source target (some token)], none))
  | .findTarget source target token =>
    if !ok || s.takenByOther c (tabKey source target) then (s, none)
    else (s, some ([.detach (.openTab source target token)], none))
  | .openTab source target token => s.openTab c source target token
  | .startScreencast generation =>
    let conn := s.conns c
    if !ok then
      (if generation = conn.generation ∧ conn.upstream = some .connecting then
        s.setConn c { conn with upstream := some .closing } else s, none)
    else if conn.disposed ∨ generation ≠ conn.generation then
      (if generation = conn.generation ∧ conn.upstream = some .opened then
        s.setConn c { conn with upstream := some .closing } else s, some ([], none))
    else s.sendAwaited c false
  | .setControl enabled => s.setControl c enabled
  | .input value => s.input c value
  | .resize value => s.resize c value
  | .releaseInput =>
    let conn := s.conns c
    (s, some (conn.heldButtons.map (fun _ => .command true) ++
      conn.heldKeys.map (fun _ => .command true) ++
        (if conn.touching then [.command true] else []) ++ [.clearHeld], none))
  | .clearHeld =>
    (s.setConn c { s.conns c with heldButtons := [], heldKeys := [], touching := false },
      some ([], none))
  | .restoreViewport caught =>
    (s, some (if (s.conns c).resized then [.command caught, .viewportRestored] else [], none))
  | .viewportRestored =>
    (s.setConn c { s.conns c with resized := (s.conns c).resized && !ok }, some ([], none))
  | .command caught => s.sendAwaited c caught
  | .detach next =>
    (s, some (if (s.conns c).upstream = some .opened then
      [.releaseInput, .restoreViewport true, .command true, .endDetach next]
      else [.endDetach next], none))
  | .endDetach next =>
    (s.endDetach c next, some (match next with
      | .openTab source target token => [.openTab source target token]
      | _ => [], none))

def handlerSteps : ViewerMessage → List ViewStep
  | .list => [.list]
  | .attach (some (source, target)) => [.findSource source target]
  | .attach none => [.detach .goOn]
  | .control true => [.setControl true]
  | .control false => [.releaseInput, .restoreViewport false, .setControl false]
  | .input value => [.input value]
  | .releaseInput => [.releaseInput]
  | .resize value => [.resize value]
  | .detach => [.detach .goOn]
  | .unknown => []

/-- Whatever an attach throws, it detaches. -/
def handlerCatch : ViewerMessage → List ViewStep
  | .attach _ => [.detach .goOn]
  | _ => []

def taskOf (todo : List ViewStep) (awaiting : Option AwaitedCommand) (onError : List ViewStep) :
    Option ViewTask :=
  if todo = [] ∧ awaiting = none then none else some ⟨todo, awaiting, onError⟩

def withTask (task : Option ViewTask) : CdpViews :=
  s.setConn c { s.conns c with task := task }

/-- The handler of the connection goes on with the result of what it awaited. -/
def proceed (ok : Bool) : CdpViews :=
  match (s.conns c).task with
  | none => s
  | some task =>
    match task.awaiting with
    | some awaited =>
      if awaited.id ∈ (s.conns c).pending then s
      else if !ok && !awaited.caught then s.withTask c (taskOf task.onError none [])
      else match task.todo with
        | [] => s.withTask c none
        | step :: rest => resumed step rest task.onError
    | none =>
      match task.todo with
      | [] => s.withTask c none
      | step :: rest => resumed step rest task.onError
where
  resumed (step : ViewStep) (rest onError : List ViewStep) : CdpViews :=
    match s.runStep c ok step with
    | (s', none) => s'.withTask c (taskOf onError none [])
    | (s', some (more, awaiting)) => s'.withTask c (taskOf (more ++ rest) awaiting onError)

/-- The queue starts its next handler; a connection that is disposed of skips it. -/
def startNext : CdpViews :=
  let conn := s.conns c
  match conn.task, conn.queue with
  | none, message :: queue =>
    s.setConn c { conn with
      queue := queue
      task := if conn.disposed then none
        else taskOf (handlerSteps message) none (handlerCatch message) }
  | _, _ => s

/-- The cleanup of `close`, behind the queue. -/
def startCleanup : CdpViews :=
  let conn := s.conns c
  if conn.disposed ∧ !conn.cleaning ∧ conn.task = none ∧ conn.queue = [] then
    s.setConn c { conn with cleaning := true, task := some ⟨[.detach .settle], none, []⟩ }
  else s

/-- An acknowledgement upstream, which is sent where the socket is open. -/
def ackFrame (conn : CdpViewConnection) (number : ℕ) : CdpViewConnection :=
  if conn.upstream = some .opened then { conn.command with acks := conn.acks ++ [number] }
  else conn

def message : RawMessage → CdpViews
  | .tooLarge => s.close c
  | .invalid => s
  | .ack frame stream =>
    let conn := s.conns c
    match conn.unacked with
    | some (unacked, number) =>
      if frame = unacked ∧ stream = conn.generation then
        s.setConn c { ackFrame conn number with
          unacked := none
          sentOpen := conn.sentOpen.filter fun sent => decide (sent.2 ≠ number) }
      else s
    | none => s
  | .queued message =>
    let conn := s.conns c
    if 64 ≤ conn.queue.length + (if conn.task.isSome then 1 else 0) then s.close c
    else if conn.disposed then s
    else s.setConn c { conn with queue := conn.queue ++ [message] }

/-- A frame of the current socket: the viewer gets it unless he has one to acknowledge. -/
def frame (generation sessionId : ℕ) (oversized : Bool) : CdpViews :=
  let conn := s.conns c
  if generation ≠ conn.generation ∨ conn.upstream ≠ some .opened then s
  else if oversized then (s.setConn c { conn with received := conn.received + 1 }).close c
  else if conn.unacked.isSome then
    s.setConn c { ackFrame conn conn.received with received := conn.received + 1 }
  else s.setConn c { conn with
    received := conn.received + 1
    unacked := some (sessionId, conn.received)
    sentOpen := if conn.disposed then conn.sentOpen
      else conn.sentOpen ++ [(conn.generation, conn.received)] }

def settle (generation id : ℕ) : CdpViews :=
  let conn := s.conns c
  if generation ≠ conn.generation ∨ conn.upstream ≠ some .opened then s
  else s.setConn c { conn with pending := conn.pending.erase id }

/-- The ready state of the current socket changes without an event that the connection handles. -/
def socketState (generation : ℕ) (opens : Bool) : CdpViews :=
  let conn := s.conns c
  if generation ≠ conn.generation then s
  else if opens then
    if conn.upstream = some .connecting then s.setConn c { conn with upstream := some .opened }
    else s
  else if conn.upstream = some .connecting ∨ conn.upstream = some .opened then
    s.setConn c { conn with upstream := some .closing }
  else s

/-- `onclose` of the current socket. -/
def socketClosed (generation : ℕ) : CdpViews :=
  let conn := s.conns c
  if generation ≠ conn.generation ∨ conn.upstream = none then s
  else ((s.setConn c { conn with upstream := some .closed }).release c).close c

end Operations

inductive CdpViewEvent
  | registerSource (source : CdpBrowserSource)
  | unregister (sourceId : String) (token : ℕ)
  | beginTool (sourceId : String)
  | releaseTool (handle : ℕ × String)
  | message (c : ℕ) (raw : RawMessage)
  | startNext (c : ℕ)
  | proceed (c : ℕ) (ok : Bool)
  | reply (c generation id : ℕ)
  | requestTimeout (c id : ℕ)
  | frame (c generation sessionId : ℕ) (oversized : Bool)
  | frameTimeout (c : ℕ)
  | socketState (c generation : ℕ) (opens : Bool)
  | socketClosed (c generation : ℕ)
  | close (c : ℕ)
  | startCleanup (c : ℕ)

def step (s : CdpViews) : CdpViewEvent → CdpViews
  | .registerSource source => s.registerCdpViewSource source
  | .unregister sourceId token => s.unregister sourceId token
  | .beginTool sourceId => s.beginCdpViewTool sourceId
  | .releaseTool handle => s.releaseTool handle
  | .message c raw => s.message c raw
  | .startNext c => s.startNext c
  | .proceed c ok => s.proceed c ok
  | .reply c generation id => s.settle c generation id
  | .requestTimeout c id =>
    s.setConn c { s.conns c with pending := (s.conns c).pending.erase id }
  | .frame c generation sessionId oversized => s.frame c generation sessionId oversized
  | .frameTimeout c => if (s.conns c).unacked.isSome then s.close c else s
  | .socketState c generation opens => s.socketState c generation opens
  | .socketClosed c generation => s.socketClosed c generation
  | .close c => s.close c
  | .startCleanup c => s.startCleanup c

def run (s : CdpViews) (events : List CdpViewEvent) : CdpViews :=
  events.foldl step s

end CdpViews
end Piclaw
