import Piclaw.Utf16

/-!
# The retention of usage reports

`usage-report-retention.ts`: a plan lists, for one page of the table, the rows that may be deleted,
each with the hash and the length of its JSON text; applying the plan checks every row again before
it deletes the first. Rows are kept in the order of their ids, which `AUTOINCREMENT` makes positive.
The database's date function and its triggers, the hash and the check of a date are parameters.
-/

namespace Piclaw.UsageRetention

open CanonicalText Utf16

section Tables

/-- A value of a column. -/
inductive SqlValue
  | null
  | integer (n : ℤ)
  | real (x : FiniteNumber)
  | infinite
  | text (s : Units)
  | blob (bytes : List ℕ)
  deriving DecidableEq

structure UsageRow where
  id : ℕ
  positive : 0 < id
  columns : List (Units × SqlValue)
  deriving DecidableEq

/-- What a trigger does before a row is deleted. -/
inductive DeleteTrigger
  | proceed
  | ignore
  | abort
  deriving DecidableEq

structure BudgetUsageEvent where
  usageEventId : Units
  tokenUsageId : ℕ

structure BudgetReservation where
  id : Units
  usageEventId : Option Units

structure BudgetCapWindow where
  startsAt : Units
  endsAt : Units

structure Database where
  tokenUsage : List UsageRow
  ordered : tokenUsage.Pairwise fun a b => a.id < b.id
  budgetUsageEvents : List BudgetUsageEvent
  budgetRequestReservations : List BudgetReservation
  budgetCapWindows : List BudgetCapWindow
  trigger : UsageRow → DeleteTrigger
  inTransaction : Bool

def UsageRow.column (row : UsageRow) (name : String) : SqlValue :=
  ((row.columns.find? fun column => column.1 = units name).map Prod.snd).getD .null

/-- The text of a column; nothing where it is null or no text. -/
def UsageRow.textOf (row : UsageRow) (name : String) : Option Units :=
  match row.column name with
  | .text s => some s
  | _ => none

/-- Whether a column equals a text; not so where either is null. -/
def sameText (a b : Option Units) : Bool := a.isSome && a = b

end Tables

/-- What the code uses of the database, the hash and the dates. -/
structure Services where
  /-- `strftime('%Y-%m-%dT%H:%M:%fZ', run_at)`. -/
  strftime : Units → Option Units
  /-- The text is what `toISOString` makes of its date. -/
  isCutoff : Units → Bool
  sha256 : Units → Units
  /-- The number that an integer is read as; nothing where it is an unsafe `bigint`. -/
  readInteger : ℤ → Option FiniteNumber

variable (services : Services)

section Proofs

/-- `unlinkedUsageReportPredicate`. -/
def unlinkedUsageReport (database : Database) (row : UsageRow) : Bool :=
  !(database.budgetUsageEvents.any fun event =>
      event.tokenUsageId = row.id ||
        sameText (some event.usageEventId) (row.textOf "usage_event_id")) &&
    !(database.budgetRequestReservations.any fun reservation =>
      sameText (some reservation.id) (row.textOf "invocation_id") ||
        sameText reservation.usageEventId (row.textOf "usage_event_id"))

/-- The condition that plan and deletion share. -/
def eligible (database : Database) (before : Units) (row : UsageRow) : Bool :=
  match row.textOf "run_at" with
  | none => false
  | some runAt =>
    decide (runAt.length = 24) && decide (services.strftime runAt = some runAt) &&
      decide (runAt < before) && decide (row.column "usage_event_id" = .null) &&
      decide (row.column "invocation_id" = .null) && decide (row.column "work_id" = .null) &&
      unlinkedUsageReport database row &&
      !(database.budgetCapWindows.any fun window =>
        decide (window.startsAt ≤ runAt) && decide (runAt < window.endsAt))

/-- A value in the JSON text of a row. -/
def encodedValue : SqlValue → Option Units
  | .null => some (units "null")
  | .integer n => (services.readInteger n).map numberText
  | .real x => some (numberText x)
  | .infinite => some (units "null")
  | .text s => some (quote s)
  | .blob bytes =>
    some (enclosed 123 125 (bytes.mapIdx fun i byte => quote (natText i) ++ 58 :: natText byte))

/-- `JSON.stringify` of a row; nothing where it throws. -/
def encoded (row : UsageRow) : Option Units := do
  let values ← row.columns.mapM fun column =>
    (encodedValue services column.2).map fun value => quote column.1 ++ 58 :: value
  some (enclosed 123 125 ((quote (units "id") ++ 58 :: natText row.id) :: values))

structure RowProof where
  sha256 : Units
  serializedBytes : ℕ
  deriving DecidableEq

def proof (row : UsageRow) : Option RowProof :=
  (encoded services row).map fun value => ⟨services.sha256 value, byteLength value⟩

end Proofs

section Plans

def maxSafeInteger : ℕ := 2 ^ 53 - 1

structure PlannedRow where
  id : ℕ
  proof : RowProof
  deriving DecidableEq

structure UsageRetentionPlan where
  version : ℕ
  owner : Units
  before : Units
  after : ℕ
  through : ℕ
  examined : ℕ
  rows : List PlannedRow
  next : Option ℕ

/-- `SELECT * … WHERE id>? ORDER BY id LIMIT ?` up to the limit. -/
def pageOf (database : Database) (after limit : ℕ) : List UsageRow :=
  (database.tokenUsage.filter fun row => after < row.id).take limit

/-- Whether rows are left behind the page. -/
def hasMore (database : Database) (after limit : ℕ) : Bool :=
  limit < (database.tokenUsage.filter fun row => after < row.id).length

/-- The rows of a page that are planned; nothing where an id is unsafe or a row has no text. -/
def selectRows (database : Database) (before : Units) : List UsageRow → Option (List PlannedRow)
  | [] => some []
  | row :: page =>
    if maxSafeInteger < row.id then none
    else if eligible services database before row then do
      let rowProof ← proof services row
      let selected ← selectRows database before page
      some (⟨row.id, rowProof⟩ :: selected)
    else selectRows database before page

def throughOf (after : ℕ) (page : List UsageRow) : ℕ := (page.getLast?.map UsageRow.id).getD after

def planUsageReportRetention (database : Database) (before : Units) (after limit : ℕ) :
    Option UsageRetentionPlan :=
  if !services.isCutoff before then none
  else if maxSafeInteger < after ∨ limit = 0 ∨ 1000 < limit then none
  else do
    let page := pageOf database after limit
    let rows ← selectRows services database before page
    let through := throughOf after page
    some
      { version := 1
        owner := units "legacy-usage-reports"
        before, after, through
        examined := page.length
        rows
        next := if hasMore database after limit then some through else none }

end Plans

section Applying

def isHexUnit (u : ℕ) : Bool := (48 ≤ u && u ≤ 57) || (97 ≤ u && u ≤ 102)

/-- The rows of a plan, whose ids grow from `previous` to `through`. -/
def validRows (through previous : ℕ) : List PlannedRow → Bool
  | [] => true
  | row :: rows =>
    decide (0 < row.id) && decide (row.id ≤ maxSafeInteger) && decide (previous < row.id) &&
      decide (row.id ≤ through) && decide (row.proof.sha256.length = 64) &&
      row.proof.sha256.all isHexUnit && decide (0 < row.proof.serializedBytes) &&
      validRows through row.id rows

def validNext (examined through : ℕ) : Option ℕ → Bool
  | none => true
  | some next => decide (examined ≠ 0) && decide (next = through)

def validPlan (plan : UsageRetentionPlan) : Bool :=
  decide (plan.version = 1) && decide (plan.owner = units "legacy-usage-reports") &&
    decide (plan.after ≤ maxSafeInteger) && decide (plan.through ≤ maxSafeInteger) &&
    decide (plan.after ≤ plan.through) && decide (plan.examined ≤ 1000) &&
    (if plan.examined = 0 then decide (plan.through = plan.after)
      else decide (plan.after < plan.through)) &&
    decide (plan.rows.length ≤ plan.examined) && services.isCutoff plan.before &&
    validRows plan.through plan.after plan.rows && validNext plan.examined plan.through plan.next

structure RetentionResult where
  removed : List ℕ
  alreadyAbsent : List ℕ
  blocked : List ℕ
  serializedBytesRemoved : ℕ
  next : Option ℕ

def Database.row (database : Database) (id : ℕ) : Option UsageRow :=
  database.tokenUsage.find? fun row => row.id = id

/-- The rows of the plan that are there, and the ids of those that are not; nothing where a row has
changed or is not eligible any more. -/
def checkRows (database : Database) (before : Units) :
    List PlannedRow → Option (List PlannedRow × List ℕ)
  | [] => some ([], [])
  | expected :: rows =>
    match database.row expected.id with
    | none => (checkRows database before rows).map fun (present, absent) =>
        (present, expected.id :: absent)
    | some row =>
      if proof services row = some expected.proof ∧ eligible services database before row then
        (checkRows database before rows).map fun (present, absent) => (expected :: present, absent)
      else none

def Database.remove (database : Database) (id : ℕ) : Database :=
  { database with
    tokenUsage := database.tokenUsage.filter fun row => row.id ≠ id
    ordered := database.ordered.filter _ }

/-- The deletions, with what is removed and what a trigger has held back; the flag tells whether a
trigger has raised an error. -/
def deleteRows (database : Database) (before : Units) (removed blocked : List ℕ) (bytes : ℕ) :
    List PlannedRow → Database × List ℕ × List ℕ × ℕ × Bool
  | [] => (database, removed, blocked, bytes, true)
  | row :: rows =>
    match database.row row.id with
    | none => deleteRows database before removed (blocked ++ [row.id]) bytes rows
    | some found =>
      if eligible services database before found then
        match database.trigger found with
        | .proceed => deleteRows (database.remove row.id) before (removed ++ [row.id]) blocked
            (bytes + row.proof.serializedBytes) rows
        | .ignore => deleteRows database before removed (blocked ++ [row.id]) bytes rows
        | .abort => (database, removed, blocked, bytes, false)
      else deleteRows database before removed (blocked ++ [row.id]) bytes rows

/-- What applying a plan leaves: an error, or a result. -/
structure Applied where
  database : Database
  result : Option RetentionResult

/-- The error of a frame undoes it, unless it is part of a transaction of the caller. -/
def failed (database changed : Database) : Applied :=
  if database.inTransaction then ⟨changed, none⟩ else ⟨database, none⟩

/-- `first` and `last`: the two calls of `validate` do not throw. -/
def applyUsageReportRetention (database : Database) (plan : UsageRetentionPlan)
    (first last : Bool) : Applied :=
  if !validPlan services plan then ⟨database, none⟩
  else if !first then ⟨database, none⟩
  else
    match checkRows services database plan.before plan.rows with
    | none => ⟨database, none⟩
    | some (present, alreadyAbsent) =>
      let (changed, removed, blocked, bytes, completed) :=
        deleteRows services database plan.before [] [] 0 present
      if completed && last then
        ⟨changed, some
          { removed, alreadyAbsent, blocked
            serializedBytesRemoved := bytes
            next := if blocked = [] then plan.next else some plan.after }⟩
      else failed database changed

end Applying

end Piclaw.UsageRetention
