import Piclaw.BranchHandles
import Piclaw.Transactions

/-!
# The registry of chat branches

The branch table with its constraints, two UNIQUE columns and the partial unique index on the
handles of active branches, and the four operations that assign, keep or free a handle. All
branches are owned by the legacy namespace and no native routing is installed.
-/

namespace Piclaw
open Relational

structure ChatBranch (τ : Type) where
  branchId : String
  chatJid : String
  rootChatJid : String
  parentBranchId : Option String
  agentName : String
  createdAt : τ
  updatedAt : τ
  archivedAt : Option τ

inductive BranchError
  | refused (message : String)
  | constraint

variable {τ : Type}

namespace ChatBranch

abbrev Active (r : ChatBranch τ) : Prop := r.archivedAt.isNone

/-- What the constraints demand of every two rows. -/
def Apart (a b : ChatBranch τ) : Prop :=
  a.branchId ≠ b.branchId ∧ a.chatJid ≠ b.chatJid ∧
    ¬ (a.Active ∧ b.Active ∧ a.agentName = b.agentName)

instance : DecidableRel (Apart : ChatBranch τ → ChatBranch τ → Prop) := fun _ _ =>
  inferInstanceAs (Decidable (_ ∧ _ ∧ _))

theorem Apart.symm {a b : ChatBranch τ} (h : Apart a b) : Apart b a :=
  ⟨h.1.symm, h.2.1.symm, fun hboth => h.2.2 ⟨hboth.2.1, hboth.1, hboth.2.2.symm⟩⟩

end ChatBranch

structure BranchTable (τ : Type) where
  rows : List (ChatBranch τ)
  apart : rows.Pairwise ChatBranch.Apart

/-- `foreignKeys` is the connection's policy: only then a branch needs a row in `chats`. -/
structure BranchDb (τ : Type) where
  chats : List String
  foreignKeys : Bool
  branches : BranchTable τ

namespace BranchTable

def empty : BranchTable τ := ⟨[], .nil⟩

def commit? (rows : List (ChatBranch τ)) : Option (BranchTable τ) :=
  if h : rows.Pairwise ChatBranch.Apart then some ⟨rows, h⟩ else none

def changed (branchId : String) (f : ChatBranch τ → ChatBranch τ) (r : ChatBranch τ) :
    ChatBranch τ :=
  if r.branchId = branchId then f r else r

def update? (t : BranchTable τ) (branchId : String) (f : ChatBranch τ → ChatBranch τ) :
    Option (BranchTable τ) :=
  commit? (t.rows.map (changed branchId f))

def getChatBranchByChatJid (t : BranchTable τ) (chatJid : String) : Option (ChatBranch τ) :=
  t.rows.find? (fun r => decide (r.chatJid = chatJid))

def getChatBranchByAgentName (t : BranchTable τ) (agentName : String) : Option (ChatBranch τ) :=
  let normalized := normalizeBranchAgentName agentName
  if normalized = "" then none
  else t.rows.find? (fun r => decide (r.agentName = normalized) && decide r.Active)

end BranchTable

/-- `value || other` for texts that may be absent or empty. -/
def truthy (value : Option String) : Option String := value.filter (fun s => decide (s ≠ ""))

def deriveBaseAgentName (chatJid : String) : String :=
  let segments := (chatJid.toList.splitOnP (fun c => c = ':' || c = '/')).filter (fun l => l ≠ [])
  let fromTail := normalizeBranchAgentName ((segments.getLast?.map String.ofList).getD chatJid)
  if fromTail ≠ "" then fromTail else "agent"

/-- The handles that the query of `getUniqueAgentName` finds. -/
def usedHandles (t : BranchTable τ) (normalizedBase : String) (excludeBranchId : Option String) :
    List String :=
  (t.rows.filter (fun r => decide r.Active &&
      (decide (r.agentName = normalizedBase) ||
        (normalizedBase ++ "-").toList.isPrefixOf r.agentName.toList) &&
      (truthy excludeBranchId).all (fun id => decide (r.branchId ≠ id)))).map (·.agentName)

def getUniqueAgentName (t : BranchTable τ) (baseName : String) (excludeBranchId : Option String) :
    String :=
  let normalizedBase := (truthy (some (normalizeBranchAgentName baseName))).getD "agent"
  let used := usedHandles t normalizedBase excludeBranchId
  if normalizedBase ∉ used then normalizedBase
  else suffixed normalizedBase (freeSuffix used normalizedBase (used.length + 1) 2)

def requireUniqueAgentName (t : BranchTable τ) (agentName : String) (excludeBranchId : String) :
    Except BranchError String :=
  let normalized := normalizeBranchAgentName agentName
  if normalized = "" then
    .error (.refused "Agent handle must contain at least one letter or number.")
  else
    match t.getChatBranchByAgentName normalized with
    | none => .ok normalized
    | some existing =>
      if existing.branchId ≠ excludeBranchId then
        .error (.refused ("Agent handle is already in use: @" ++ normalized))
      else .ok normalized

namespace BranchDb

abbrev Answer (τ : Type) := Except BranchError (BranchDb τ × Option (ChatBranch τ))

def insert (db : BranchDb τ) (row : ChatBranch τ) : Answer τ :=
  if db.foreignKeys ∧ row.chatJid ∉ db.chats then .error .constraint
  else
    match BranchTable.commit? (row :: db.branches.rows) with
    | none => .error .constraint
    | some branches =>
      .ok ({ db with branches }, branches.getChatBranchByChatJid row.chatJid)

/-- Updates one branch and reads the chat's row back. -/
def update (db : BranchDb τ) (branchId chatJid : String) (f : ChatBranch τ → ChatBranch τ) :
    Answer τ :=
  match db.branches.update? branchId f with
  | none => .error .constraint
  | some branches => .ok ({ db with branches }, branches.getChatBranchByChatJid chatJid)

/-- `parentBranchId` distinguishes an absent field from `null`. -/
structure EnsureInput where
  chatJid : String
  rootChatJid : Option String
  parentBranchId : Option (Option String)
  agentName : Option String

/-- The root, parent and handle that an existing branch is registered with. -/
def EnsureInput.nextRoot (input : EnsureInput) (existing : ChatBranch τ) (chatJid : String) :
    String :=
  let root := ((truthy input.rootChatJid).orElse
    fun _ => truthy (some existing.rootChatJid)).getD chatJid
  (truthy (some (trim root))).getD chatJid

def EnsureInput.nextParent (input : EnsureInput) (existing : ChatBranch τ) : Option String :=
  match input.parentBranchId with
  | none => existing.parentBranchId
  | some parent => truthy parent

def EnsureInput.nextAgentName (input : EnsureInput) (t : BranchTable τ) (existing : ChatBranch τ) :
    String :=
  let requestedAgentName := match truthy input.agentName with
    | some agentName => normalizeBranchAgentName agentName
    | none => existing.agentName
  if requestedAgentName ≠ existing.agentName then
    getUniqueAgentName t requestedAgentName (some existing.branchId)
  else existing.agentName

def ensureChatBranch (db : BranchDb τ) (input : EnsureInput) (now : τ) (uuid : String) :
    Answer τ :=
  let chatJid := trim input.chatJid
  if chatJid = "" then .error (.refused "chat_jid is required")
  else
    match db.branches.getChatBranchByChatJid chatJid with
    | some existing =>
      let rootChatJid := input.nextRoot existing chatJid
      let parentBranchId := input.nextParent existing
      let nextAgentName := input.nextAgentName db.branches existing
      if rootChatJid ≠ existing.rootChatJid ∨ parentBranchId ≠ existing.parentBranchId ∨
          nextAgentName ≠ existing.agentName ∨ existing.archivedAt.isSome then
        db.update existing.branchId chatJid fun r =>
          { r with
            rootChatJid
            parentBranchId
            agentName := nextAgentName
            updatedAt := now
            archivedAt := none }
      else .ok (db, some existing)
    | none =>
      let rootChatJid := (truthy (some (trim ((truthy input.rootChatJid).getD chatJid)))).getD chatJid
      let agentName := getUniqueAgentName db.branches
        ((truthy input.agentName).getD (deriveBaseAgentName chatJid)) none
      let parentBranchId := (truthy (input.parentBranchId.bind id)).map trim
      db.insert
        { branchId := uuid
          chatJid
          rootChatJid
          parentBranchId
          agentName
          createdAt := now
          updatedAt := now
          archivedAt := none }

def renameChatBranchIdentity (db : BranchDb τ) (input : String) (agentName : Option (Option String))
    (now : τ) : Answer τ :=
  let chatJid := trim input
  if chatJid = "" then .error (.refused "chat_jid is required")
  else
    match db.branches.getChatBranchByChatJid chatJid with
    | none => .error (.refused ("Unknown chat branch: " ++ chatJid))
    | some existing =>
      match agentName with
      | none => .error (.refused "Nothing to rename.")
      | some name =>
        match requireUniqueAgentName db.branches ((truthy name).getD "") existing.branchId with
        | .error e => .error e
        | .ok nextAgentName =>
          if nextAgentName = existing.agentName then .ok (db, some existing)
          else
            db.update existing.branchId chatJid fun r =>
              { r with
                agentName := nextAgentName
                updatedAt := now }

def archiveChatBranch (db : BranchDb τ) (input : String) (now : τ) : Answer τ :=
  let chatJid := trim input
  if chatJid = "" then .error (.refused "chat_jid is required")
  else
    match db.branches.getChatBranchByChatJid chatJid with
    | none => .error (.refused ("Unknown chat branch: " ++ chatJid))
    | some existing =>
      let isRootChat := existing.chatJid = existing.rootChatJid
      if isRootChat ∧ existing.chatJid = "web:default" then
        .error (.refused "Cannot archive the default chat session.")
      else if isRootChat ∧ db.branches.rows.any (fun r =>
          decide (r.rootChatJid = existing.chatJid) && decide (r.chatJid ≠ existing.chatJid) &&
            decide r.Active) then
        .error (.refused
          "Cannot archive a root chat session while it still has active branch sessions.")
      else if existing.archivedAt.isSome then .ok (db, some existing)
      else
        db.update existing.branchId chatJid fun r =>
          { r with
            archivedAt := some now
            updatedAt := now }

def restoredAgentName (t : BranchTable τ) (agentName : Option (Option String))
    (existing : ChatBranch τ) : String :=
  let requestedAgent := match agentName with
    | none => existing.agentName
    | some name => normalizeBranchAgentName ((truthy name).getD "")
  getUniqueAgentName t ((truthy (some requestedAgent)).getD existing.agentName)
    (some existing.branchId)

def restoreChatBranchIdentity (db : BranchDb τ) (input : String)
    (agentName : Option (Option String)) (now : τ) : Answer τ :=
  let chatJid := trim input
  if chatJid = "" then .error (.refused "chat_jid is required")
  else
    match db.branches.getChatBranchByChatJid chatJid with
    | none => .error (.refused ("Unknown chat branch: " ++ chatJid))
    | some existing =>
      let nextAgentName := restoredAgentName db.branches agentName existing
      if existing.archivedAt.isNone ∧ nextAgentName = existing.agentName then
        .ok (db, some existing)
      else
        db.update existing.branchId chatJid fun r =>
          { r with
            agentName := nextAgentName
            archivedAt := none
            updatedAt := now }

end BranchDb

inductive BranchCall (τ : Type)
  | ensure (input : BranchDb.EnsureInput) (now : τ) (uuid : String)
  | rename (chatJid : String) (agentName : Option (Option String)) (now : τ)
  | archive (chatJid : String) (now : τ)
  | restore (chatJid : String) (agentName : Option (Option String)) (now : τ)

namespace BranchDb

def answer (db : BranchDb τ) : BranchCall τ → Answer τ
  | .ensure input now uuid => db.ensureChatBranch input now uuid
  | .rename chatJid agentName now => db.renameChatBranchIdentity chatJid agentName now
  | .archive chatJid now => db.archiveChatBranch chatJid now
  | .restore chatJid agentName now => db.restoreChatBranchIdentity chatJid agentName now

/-- A call that throws has written nothing: its only statement is its last. -/
def step (db : BranchDb τ) (call : BranchCall τ) : BranchDb τ :=
  match db.answer call with
  | .ok (next, _) => next
  | .error _ => db

end BranchDb
end Piclaw
