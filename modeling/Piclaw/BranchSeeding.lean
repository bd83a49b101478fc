import Piclaw.BranchHandles
import Piclaw.OrderedMap

/-!
# Replay of a stable branch into a new session

A deferred seed carries the entries of its parent's branch. The replay appends them one by one
and maps the ids of the source to those of the copies, which references are rewritten through.
-/

namespace Piclaw

/-- Contents that the replay passes on without looking at them have the type `γ`. -/
inductive SeedKind (γ : Type)
  | message (role : String) (message : γ)
  | thinkingLevelChange (thinkingLevel : String)
  | modelChange (provider modelId : String)
  | compaction (summary : String) (firstKeptEntryId : Option String) (tokensBefore : ℕ)
      (details : γ) (fromHook : Bool)
  | contextEdit (targetId : String) (replacement : γ)
  | usage (record : γ)
  | sessionInfo (name : String)
  | customMessage (customType : String) (content : γ) (display : Bool) (details : γ)
  | custom (customType : String) (data : γ)
  | customEntry (customType : String) (data : γ)
  | branchSummary (fromId summary : String) (details : γ)
  | label (targetId : String) (label : Option String)
  deriving DecidableEq

/-- A legacy custom entry may have no id: then it is empty. -/
structure SeedEntry (γ : Type) where
  id : String
  kind : SeedKind γ
  deriving DecidableEq

inductive SeedError
  | noContextEdits
  | unmappableTarget (targetId : String)
  deriving DecidableEq

variable {γ : Type}

def isAppendableAgentMessage (role : String) : Bool :=
  role = "user" || role = "assistant" || role = "system" || role = "tool" ||
    role = "bashExecution" || role = "custom"

def SeedKind.isContextEdit : SeedKind γ → Bool
  | .contextEdit _ _ => true
  | _ => false

/-- The entries whose ids the first pass collects as targets of edits. -/
def SeedKind.isEditTarget : SeedKind γ → Bool
  | .message role _ => isAppendableAgentMessage role
  | .customMessage _ _ _ _ => true
  | _ => false

/-- The first pass. It writes nothing. -/
def rejectUnmappableEdits : List String → List (SeedEntry γ) → Option SeedError
  | _, [] => none
  | appendableSourceIds, entry :: entries =>
    let collected := if entry.id ≠ "" ∧ entry.kind.isEditTarget then
      entry.id :: appendableSourceIds else appendableSourceIds
    match entry.kind with
    | .contextEdit targetId _ =>
      if targetId ∈ appendableSourceIds then rejectUnmappableEdits collected entries
      else some (.unmappableTarget targetId)
    | _ => rejectUnmappableEdits collected entries

abbrev SourceToNewId := OrderedMap String String

/-- `sourceToNewId.get(id) ?? sourceToNewId.get(first) ?? "rotated-context"`. -/
def mapFirstKept (sourceToNewId : SourceToNewId) (first : String) (id : String) : String :=
  ((sourceToNewId.get id).orElse fun _ => sourceToNewId.get first).getD "rotated-context"

/-- What one turn of the second pass appends, `none` for an entry it passes over. -/
def replayKind (sourceToNewId : SourceToNewId) (first : String) :
    SeedKind γ → Except SeedError (Option (SeedKind γ))
  | .message role message =>
    .ok (if isAppendableAgentMessage role then some (.message role message) else none)
  | .thinkingLevelChange thinkingLevel => .ok (some (.thinkingLevelChange thinkingLevel))
  | .modelChange provider modelId => .ok (some (.modelChange provider modelId))
  | .compaction summary firstKeptEntryId tokensBefore details fromHook =>
    .ok (some (.compaction summary (firstKeptEntryId.map (mapFirstKept sourceToNewId first))
      tokensBefore details fromHook))
  | .contextEdit targetId replacement =>
    match sourceToNewId.get targetId with
    | none => .error (.unmappableTarget targetId)
    | some newId => .ok (some (.contextEdit newId replacement))
  | .usage _ => .ok none
  | .sessionInfo name => .ok (if trim name ≠ "" then some (.sessionInfo (trim name)) else none)
  | .customMessage customType content display details =>
    .ok (some (.customMessage customType content display details))
  | .customEntry customType data => .ok (some (.custom customType data))
  | .custom _ _ => .ok none
  | .branchSummary _ _ _ => .ok none
  | .label _ _ => .ok none

/-- The copy so far, and the ids mapped so far. -/
structure Replay (γ : Type) where
  copy : List (SeedEntry γ)
  sourceToNewId : SourceToNewId

variable (fresh : ℕ → String)

/-- The `n`th append to the copy returns the id `fresh n`. -/
def Replay.append (r : Replay γ) (sourceId : String) (kind : SeedKind γ) : Replay γ :=
  let newId := fresh r.copy.length
  { copy := r.copy ++ [⟨newId, kind⟩]
    sourceToNewId :=
      if sourceId ≠ "" ∧ newId ≠ "" then r.sourceToNewId.set sourceId newId else r.sourceToNewId }

def replayEntries (first : String) :
    Replay γ → List (SeedEntry γ) → Replay γ × Option SeedError
  | r, [] => (r, none)
  | r, entry :: entries =>
    match replayKind r.sourceToNewId first entry.kind with
    | .error e => (r, some e)
    | .ok none => replayEntries first r entries
    | .ok (some kind) => replayEntries first (r.append fresh entry.id kind) entries

structure SeedFallback where
  sessionName : Option String
  model : Option (String × String)

def fallbackKinds (fallback : SeedFallback) : List (SeedKind γ) :=
  (((fallback.sessionName.map trim).filter (fun name => decide (name ≠ ""))).map
      SeedKind.sessionInfo).toList ++
    (fallback.model.map fun model => SeedKind.modelChange model.1 model.2).toList

/-- What is in the copy when the call returns or throws. `supportsEdits` says whether the session
manager has `appendContextEdit`. -/
def seedSessionManagerFromBranchEntries (supportsEdits : Bool) (fallback : SeedFallback)
    (branchEntries : List (SeedEntry γ)) : List (SeedEntry γ) × Option SeedError :=
  match branchEntries with
  | [] =>
    (((fallbackKinds fallback).zipIdx).map fun kind => ⟨fresh kind.2, kind.1⟩, none)
  | first :: _ =>
    if branchEntries.any (fun entry => entry.kind.isContextEdit) && !supportsEdits then
      ([], some .noContextEdits)
    else
      match rejectUnmappableEdits [] branchEntries with
      | some e => ([], some e)
      | none =>
        let replayed := replayEntries fresh first.id ⟨[], .empty⟩ branchEntries
        (replayed.1.copy, replayed.2)

end Piclaw
