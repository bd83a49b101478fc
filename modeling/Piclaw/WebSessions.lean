import Piclaw.Transactions
import Piclaw.Values

/-!
# Web sessions

Logins are rows of one table, stored under the hash of their token; rows from before hashing are
stored under the token itself. A lookup reads by the hash, falls back to the plain token and repairs
what it finds, one statement at a time, while other lookups and revocations run.
-/

namespace Piclaw.WebSessions
open Relational

section Model

/-- The digest, `Date.parse` where it is finite, and `toISOString`. -/
structure SessionPlatform where
  hashSessionToken : String → String
  parse : String → Option ℤ
  toISOString : ℤ → String

/-- A row of `web_sessions`; no statement reads `login`, the number of the login that made it. -/
structure StoredWebSession where
  token : String
  userId : String
  authMethod : Option String
  createdAt : String
  expiresAt : String
  sessionId : Option String
  login : ℕ
  deriving DecidableEq

structure WebSessionRecord where
  token : String
  sessionId : String
  userId : String
  authMethod : Option String
  createdAt : String
  expiresAt : String
  deriving DecidableEq

/-- What a login was given: the token, and what its row holds. -/
structure Login where
  token : String
  userId : String
  authMethod : Option String
  createdAt : String
  expiresAt : String
  deriving DecidableEq

/-- `getWebSession` without and with repair, and `admitWebSession` before its write. -/
inductive Mode where
  | reading
  | repairing
  | admitting
  deriving DecidableEq

/-- Where a lookup is: before a statement, or before a check of what it read. -/
inductive Place where
  | hashed
  | plain
  | legacy (row : StoredWebSession)
  | migrate (row : StoredWebSession)
  | migrated (row : StoredWebSession)
  | found (row : StoredWebSession)
  | assign (row : StoredWebSession)
  | identified (row : StoredWebSession) (sessionId : String) (changed : Bool)
  | confirm (row : StoredWebSession)
  | candidate
  | committed (observed : StoredWebSession)
  | done (result : Option WebSessionRecord)
  | failed
  deriving DecidableEq

/-- The table and the time at a read. -/
structure Reading where
  rows : List StoredWebSession
  clock : ℤ
  deriving DecidableEq

structure Lookup where
  token : String
  mode : Mode
  place : Place
  lastRead : Reading
  deriving DecidableEq

structure SessionState where
  rows : List StoredWebSession
  clock : ℤ
  logins : List Login
  lookups : ℕ → Option Lookup

inductive SessionEvent where
  | createWebSession (token userId : String) (ttlSeconds : ℤ) (authMethod : Option String)
      (sessionId : String)
  | start (i : ℕ) (token : String) (mode : Mode)
  | advance (i : ℕ) (sessionId : String)
  | revokeUserWebSession (userId sessionId : String)
  | revokeUserWebSessions (userId : String)
  | deleteExpiredWebSessions (nowIso : String)
  | deleteAllWebSessions
  | tick (milliseconds : ℕ)

def truthy (sessionId : Option String) : Bool := sessionId.any fun id => decide (id ≠ "")

def sameLogin (a b : StoredWebSession) : Bool :=
  decide (a.userId = b.userId) && decide (a.authMethod = b.authMethod) &&
    decide (a.createdAt = b.createdAt) && decide (a.expiresAt = b.expiresAt)

def sameRepairIdentity (before : StoredWebSession) (after : Option StoredWebSession) : Bool :=
  after.any fun after => sameLogin before after &&
    (before.sessionId.isNone || decide (before.sessionId = after.sessionId))

def select (rows : List StoredWebSession) (token : String) : Option StoredWebSession :=
  rows.find? fun row => decide (row.token = token)

/-- A UNIQUE or PRIMARY KEY conflict has no result. -/
def updateRow (p : StoredWebSession → Bool) (f : StoredWebSession → StoredWebSession)
    (taken : StoredWebSession → Bool) (rows : List StoredWebSession) :
    Option (List StoredWebSession × Bool) :=
  if rows.any p && rows.any (fun row => taken row && !p row) then none
  else some (rows.map fun row => if p row then f row else row, rows.any p)

def recordOf (token sessionId : String) (row : StoredWebSession) : WebSessionRecord :=
  ⟨token, sessionId, row.userId, row.authMethod, row.createdAt, row.expiresAt⟩

variable (P : SessionPlatform)

def unexpired (clock : ℤ) (expiresAt : String) : Bool :=
  (P.parse expiresAt).any fun e => decide (clock < e)

/-- `getWebSession` answers; an admission goes on to its candidate when that is null. -/
def Lookup.reply (lookup : Lookup) (result : Option WebSessionRecord) : Lookup :=
  { lookup with
    place := if result.isNone ∧ lookup.mode = .admitting then .candidate else .done result }

def candidateOf (rows : List StoredWebSession) (token : String) : Option StoredWebSession :=
  (select rows (P.hashSessionToken token)).or (select rows token)

/-- The next statement or check of a lookup. `sessionId` is the identifier it may make. -/
def advanceLookup (rows : List StoredWebSession) (clock : ℤ) (sessionId : String)
    (lookup : Lookup) : Lookup × List StoredWebSession :=
  let tokenHash := P.hashSessionToken lookup.token
  let read : Lookup := { lookup with lastRead := ⟨rows, clock⟩ }
  match lookup.place with
  | .hashed =>
    match select rows tokenHash with
    | some row => ({ read with place := .found row }, rows)
    | none => ({ read with place := .plain }, rows)
  | .plain =>
    match select rows lookup.token with
    | some row =>
      if lookup.mode = .repairing then ({ read with place := .legacy row }, rows)
      else (read.reply none, rows)
    | none => (read.reply none, rows)
  | .legacy row =>
    if unexpired P clock row.expiresAt then ({ lookup with place := .migrate row }, rows)
    else (lookup.reply none, rows)
  | .migrate row =>
    match updateRow (fun r => decide (r.token = lookup.token) && sameLogin row r &&
        decide (r.sessionId = row.sessionId)) (fun r => { r with token := tokenHash })
        (fun r => decide (r.token = tokenHash)) rows with
    | none => ({ lookup with place := .failed }, rows)
    | some (rows, _) => ({ lookup with place := .migrated row }, rows)
  | .migrated row =>
    match select rows tokenHash with
    | some repaired =>
      if sameRepairIdentity row (some repaired) then
        ({ read with place := .found repaired }, rows)
      else (read.reply none, rows)
    | none => (read.reply none, rows)
  | .found row =>
    if unexpired P clock row.expiresAt = false then (lookup.reply none, rows)
    else if truthy row.sessionId then
      (lookup.reply (some (recordOf lookup.token (row.sessionId.getD "") row)), rows)
    else if lookup.mode = .repairing then ({ lookup with place := .assign row }, rows)
    else (lookup.reply none, rows)
  | .assign row =>
    match updateRow (fun r => decide (r.token = tokenHash) && r.sessionId.isNone &&
        sameLogin row r) (fun r => { r with sessionId := some sessionId })
        (fun r => decide (r.sessionId = some sessionId)) rows with
    | none => ({ lookup with place := .failed }, rows)
    | some (rows, changed) => ({ lookup with place := .identified row sessionId changed }, rows)
  | .identified row sessionId changed =>
    match select rows tokenHash with
    | some repaired =>
      if sameRepairIdentity row (some repaired) && truthy repaired.sessionId &&
          (!changed || decide (repaired.sessionId = some sessionId)) then
        ({ read with place := .confirm repaired }, rows)
      else (read.reply none, rows)
    | none => (read.reply none, rows)
  | .confirm row =>
    if (P.parse row.expiresAt).any fun e => decide (e ≤ clock) then (lookup.reply none, rows)
    else (lookup.reply (some (recordOf lookup.token (row.sessionId.getD "") row)), rows)
  | .candidate =>
    match candidateOf P rows lookup.token with
    | some observed =>
      if unexpired P clock observed.expiresAt = false ∨
          (observed.token = tokenHash ∧ truthy observed.sessionId = true) then
        ({ read with place := .done none }, rows)
      else ({ read with place := .committed observed }, rows)
    | none => ({ read with place := .done none }, rows)
  | .committed observed =>
    if sameRepairIdentity observed (candidateOf P rows lookup.token) then
      ({ read with mode := .repairing, place := .hashed }, rows)
    else ({ read with place := .done none }, rows)
  | .done _ | .failed => (lookup, rows)

def step (s : SessionState) : SessionEvent → SessionState
  | .createWebSession token userId ttlSeconds authMethod sessionId =>
    let login : Login := ⟨token, userId, authMethod, P.toISOString s.clock,
      P.toISOString (s.clock + ttlSeconds * 1000)⟩
    let tokenHash := P.hashSessionToken token
    -- INSERT OR REPLACE removes the rows that conflict with the new one
    { s with
      rows := ⟨tokenHash, userId, authMethod, login.createdAt, login.expiresAt, some sessionId,
          s.logins.length⟩ ::
        s.rows.filter fun row => decide (row.token ≠ tokenHash) &&
          decide (row.sessionId ≠ some sessionId)
      logins := s.logins ++ [login] }
  | .start i token mode =>
    if (s.lookups i).isSome then s
    else
      { s with
        lookups := fun j =>
          if j = i then some ⟨token, mode, .hashed, ⟨s.rows, s.clock⟩⟩ else s.lookups j }
  | .advance i sessionId =>
    match s.lookups i with
    | none => s
    | some lookup =>
      let (next, rows) := advanceLookup P s.rows s.clock sessionId lookup
      { s with rows := rows, lookups := fun j => if j = i then some next else s.lookups j }
  | .revokeUserWebSession userId sessionId =>
    { s with
      rows := s.rows.filter fun row =>
        !(decide (row.userId = userId) && decide (row.sessionId = some sessionId)) }
  | .revokeUserWebSessions userId =>
    { s with rows := s.rows.filter fun row => !decide (row.userId = userId) }
  | .deleteExpiredWebSessions nowIso =>
    { s with rows := s.rows.filter fun row => !decide (row.expiresAt ≤ nowIso) }
  | .deleteAllWebSessions => { s with rows := [] }
  | .tick milliseconds => { s with clock := s.clock + milliseconds }

/-- The login of a row from before hashing: its token is the one stored. -/
def legacyLogin (row : StoredWebSession) : Login :=
  ⟨row.token, row.userId, row.authMethod, row.createdAt, row.expiresAt⟩

/-- A table of legacy rows, numbered in their order, and nothing looked up. -/
def SessionState.initial (rows : List StoredWebSession) (clock : ℤ) : SessionState :=
  ⟨rows.mapIdx fun n row => { row with login := n }, clock, rows.map legacyLogin, fun _ => none⟩

end Model

end Piclaw.WebSessions
