import Piclaw.BranchHandles
import Piclaw.OrderedMap

/-!
# The remote-display bridge

`WebSocketTcpBridge`: records that join one browser client to one upstream socket, and handoff
tokens with which a record moves from one client to the next. Beside the maps of the bridge a
state holds what the sockets have carried so far.
-/

namespace Piclaw

inductive BrowserMessage
  | text (message : String)
  | bytes (message : List UInt8)
  deriving DecidableEq

namespace BrowserMessage

def byteLength : BrowserMessage → ℕ
  | .text message => message.utf8ByteSize
  | .bytes message => message.length

/-- Blank texts and control messages of the service stay in the bridge. -/
def forwarded (handled : Bool) : BrowserMessage → Bool
  | .text message => decide (trim message ≠ "") && !handled
  | .bytes _ => true

end BrowserMessage

/-- `handoffTimer` is the token of the running timer. -/
structure BridgeRecord where
  ws : Option ℕ
  handoffToken : Option String
  handoffTimer : Option String
  bytesIn : ℕ
  bytesOut : ℕ
  deriving DecidableEq

/-- `upstream`, `sent`, `inbox` and `written` are histories of each record: what its socket has
delivered, what was sent to which client, what its client has sent, and what was written to its
socket. `clients` are those it was given to. -/
structure DisplayBridge where
  created : ℕ
  record : ℕ → BridgeRecord
  records : List ℕ
  connections : OrderedMap ℕ ℕ
  handoffs : OrderedMap String ℕ
  clients : ℕ → List ℕ
  upstream : ℕ → List (List UInt8)
  sent : ℕ → List (ℕ × List UInt8)
  inbox : ℕ → List BrowserMessage
  written : ℕ → List BrowserMessage

namespace DisplayBridge

def initial : DisplayBridge where
  created := 0
  record _ := ⟨none, none, none, 0, 0⟩
  records := []
  connections := .empty
  handoffs := .empty
  clients _ := []
  upstream _ := []
  sent _ := []
  inbox _ := []
  written _ := []

section Operations
variable (b : DisplayBridge)

def setRecord (r : ℕ) (record : BridgeRecord) : DisplayBridge :=
  { b with record := Function.update b.record r record }

def clearHandoff (r : ℕ) : DisplayBridge :=
  { b.setRecord r { b.record r with handoffToken := none, handoffTimer := none } with
    handoffs := match (b.record r).handoffToken with
      | some token => b.handoffs.delete token
      | none => b.handoffs }

/-- `closeRecord`. -/
def closeRecord (r : ℕ) : DisplayBridge :=
  if r ∈ b.records then
    let left : DisplayBridge :=
      { b.setRecord r { b.record r with ws := none } with
        records := b.records.erase r
        connections := match (b.record r).ws with
          | some ws => b.connections.delete ws
          | none => b.connections }
    left.clearHandoff r
  else b

def closeClient (ws : ℕ) : DisplayBridge :=
  match b.connections.get ws with
  | none => b
  | some r =>
    let left : DisplayBridge :=
      { (if (b.record r).ws = some ws then b.setRecord r { b.record r with ws := none } else b) with
        connections := b.connections.delete ws }
    if (left.record r).handoffToken.isSome then left else left.closeRecord r

def bindClient (r ws : ℕ) : DisplayBridge :=
  let connections := match (b.record r).ws with
    | some previous => if previous = ws then b.connections else b.connections.delete previous
    | none => b.connections
  let bound : DisplayBridge :=
    { b.setRecord r { b.record r with ws := some ws } with
      connections := connections.set ws r
      clients := Function.update b.clients r (b.clients r ++ [ws]) }
  bound.clearHandoff r

def findHandoff (token : String) : Option ℕ :=
  if trim token = "" then none else b.handoffs.get (trim token)

/-- A token that nobody has prepared opens a new record. -/
def attachClient (ws : ℕ) (token : String) : DisplayBridge :=
  match b.findHandoff token with
  | some r => b.bindClient r ws
  | none =>
    { b.setRecord b.created ⟨some ws, none, none, 0, 0⟩ with
      created := b.created + 1
      records := b.records ++ [b.created]
      connections := b.connections.set ws b.created
      clients := Function.update b.clients b.created [ws] }

def prepareHandoff (r : ℕ) (token : String) : DisplayBridge :=
  if trim token = "" ∨ r ∉ b.records then b
  else
    let cleared := b.clearHandoff r
    { cleared.setRecord r { cleared.record r with
        handoffToken := some (trim token), handoffTimer := some (trim token) } with
      handoffs := cleared.handoffs.set (trim token) r }

/-- The callback of the running timer. -/
def handoffExpired (r : ℕ) : DisplayBridge :=
  match (b.record r).handoffTimer with
  | none => b
  | some token =>
    if (b.record r).handoffToken ≠ some token then
      b.setRecord r { b.record r with handoffTimer := none }
    else
      let cleared := b.clearHandoff r
      if (cleared.record r).ws = none then cleared.closeRecord r else cleared

/-- What the clients of the open records have sent, with the next message of one of them. -/
def received (ws : ℕ) (message : BrowserMessage) (r : ℕ) : List BrowserMessage :=
  if r ∈ b.records ∧ (b.record r).ws = some ws then b.inbox r ++ [message] else b.inbox r

def handleMessage (ws : ℕ) (message : BrowserMessage) (handled : Bool) : DisplayBridge :=
  let heard : DisplayBridge := { b with inbox := b.received ws message }
  match b.connections.get ws with
  | none => heard
  | some r =>
    if message.forwarded handled then
      { heard.setRecord r { b.record r with
          bytesOut := (b.record r).bytesOut + message.byteLength } with
        written := Function.update b.written r (b.written r ++ [message]) }
    else heard

/-- `sends` says that `send` does not throw. -/
def data (r : ℕ) (chunk : List UInt8) (sends : Bool) : DisplayBridge :=
  { b.setRecord r { b.record r with bytesIn := (b.record r).bytesIn + chunk.length } with
    upstream := Function.update b.upstream r (b.upstream r ++ [chunk])
    sent := match (b.record r).ws with
      | some ws =>
        if sends then Function.update b.sent r (b.sent r ++ [(ws, chunk)]) else b.sent
      | none => b.sent }

end Operations

inductive BridgeEvent
  | attachClient (ws : ℕ) (token : String)
  | prepareHandoff (r : ℕ) (token : String)
  | handoffExpired (r : ℕ)
  | handleMessage (ws : ℕ) (message : BrowserMessage) (handled : Bool)
  | detachClient (ws : ℕ)
  | data (r : ℕ) (chunk : List UInt8) (sends : Bool)
  | socketError (r : ℕ)
  | socketClose (r : ℕ)
  | shutdown

def step (b : DisplayBridge) : BridgeEvent → DisplayBridge
  | .attachClient ws token => b.attachClient ws token
  | .prepareHandoff r token => b.prepareHandoff r token
  | .handoffExpired r => b.handoffExpired r
  | .handleMessage ws message handled => b.handleMessage ws message handled
  | .detachClient ws => b.closeClient ws
  | .data r chunk sends => if r < b.created then b.data r chunk sends else b
  | .socketError r => b.closeRecord r
  | .socketClose r => b.closeRecord r
  | .shutdown => b.records.foldl closeRecord b

def run (b : DisplayBridge) (events : List BridgeEvent) : DisplayBridge := events.foldl step b

end DisplayBridge
end Piclaw
