import Piclaw.BranchHandles

/-!
# The messages table

Rows of `messages`, `message_media` and `media` with the statements that write them, and the
full-text index that their triggers and the media code keep. An index entry is the multiset of
the tokens under a rowid: FTS5 adds the tokens of the values given to an insert and removes the
tokens of the values given to a `delete` command.
-/

namespace Piclaw
open TextRuns

abbrev Token := List Char

/-! Dates of the proleptic Gregorian calendar as `Date` reads and writes them, in milliseconds
from the start of 1970. -/

namespace IsoDate

def msPerDay : ℤ := 86400000

/-- Year, month and day of a day counted from the start of 1970. Years here start in March and
are counted in eras of 400. -/
def civil (days : ℤ) : ℤ × ℕ × ℕ :=
  let era := (days + 719468) / 146097
  let doe := (days + 719468) % 146097
  let yoe := (doe - doe / 1460 + doe / 36524 - doe / 146096) / 365
  let doy := (doe - (365 * yoe + yoe / 4 - yoe / 100)).toNat
  let mp := (5 * doy + 2) / 153
  let year := yoe + era * 400
  (if mp < 10 then year else year + 1, if mp < 10 then mp + 3 else mp - 9,
    doy - (153 * mp + 2) / 5 + 1)

def dayNumber (year : ℤ) (month day : ℕ) : ℤ :=
  let y := if month ≤ 2 then year - 1 else year
  let mp := if month ≤ 2 then month + 9 else month - 3
  let doy : ℤ := ((153 * mp + 2) / 5 + day : ℕ) - 1
  let yoe := y % 400
  y / 400 * 146097 + yoe * 365 + yoe / 4 - yoe / 100 + doy - 719468

def digits (width n : ℕ) : List Char := List.leftpad width '0' (Nat.toDigits 10 n)

def yearText (year : ℤ) : List Char :=
  if year < 0 then '-' :: digits 6 year.natAbs
  else if year ≤ 9999 then digits 4 year.natAbs
  else '+' :: digits 6 year.natAbs

/-- `new Date(ms).toISOString()`, which throws outside the range of dates. -/
def toISOString (ms : ℤ) : Option (List Char) :=
  if -8640000000000000 ≤ ms ∧ ms ≤ 8640000000000000 then
    let (year, month, day) := civil (ms / msPerDay)
    let rest := (ms % msPerDay).toNat
    some (yearText year ++ '-' :: digits 2 month ++ '-' :: digits 2 day ++
      'T' :: digits 2 (rest / 3600000) ++ ':' :: digits 2 (rest / 60000 % 60) ++
      ':' :: digits 2 (rest / 1000 % 60) ++ '.' :: digits 3 (rest % 1000) ++ ['Z'])
  else none

def number (text : List Char) : ℕ := text.foldl (fun n c => 10 * n + (c.toNat - '0'.toNat)) 0

/-- `Date.parse` on texts that `toISOString` writes. -/
def parse (text : List Char) : Option ℤ :=
  let (year, rest) : ℤ × List Char := match text with
    | '+' :: signed => (number (signed.take 6), signed.drop 6)
    | '-' :: signed => (-number (signed.take 6), signed.drop 6)
    | _ => (number (text.take 4), text.drop 4)
  let field (start width : ℕ) : ℕ := number ((rest.drop start).take width)
  let ms := dayNumber year (field 1 2) (field 4 2) * msPerDay + field 7 2 * 3600000 +
    field 10 2 * 60000 + field 13 2 * 1000 + field 16 3
  if toISOString ms = some text then some ms else none

end IsoDate

/-- The date functions on timestamps and the tokenizer of the index. `toISOString` is `none` for
a time that no date has. -/
structure MessagePlatform (τ : Type) where
  parse : τ → Option ℤ
  toISOString : ℤ → Option τ
  tokens : String → Multiset Token

def isoPlatform (tokens : String → Multiset Token) : MessagePlatform (List Char) where
  parse := IsoDate.parse
  toISOString := IsoDate.toISOString
  tokens := tokens

structure StoredMessage (τ : Type) where
  rowid : ℕ
  id : String
  chatJid : String
  content : String
  contentBlocks : Option String
  linkPreviews : Option String
  annotations : Option String
  threadId : Option ℕ
  timestamp : τ
  isBotMessage : Bool
  isTerminalAgentReply : Bool
  isSteeringMessage : Bool
  deriving DecidableEq

structure MessageInput (τ : Type) where
  id : String
  chatJid : String
  content : String
  contentBlocks : Option String
  linkPreviews : Option String
  threadId : Option ℕ
  timestamp : τ
  isBotMessage : Bool
  isTerminalAgentReply : Bool
  isSteeringMessage : Bool
  deriving DecidableEq

namespace MessageInput
variable {τ : Type}

/-- The columns that a message stored again writes. -/
def columns (message : MessageInput τ) (timestamp : τ) (row : StoredMessage τ) :
    StoredMessage τ :=
  { row with
    content := message.content
    contentBlocks := message.contentBlocks
    linkPreviews := message.linkPreviews
    threadId := message.threadId
    timestamp := timestamp
    isBotMessage := message.isBotMessage
    isTerminalAgentReply := message.isTerminalAgentReply
    isSteeringMessage := message.isSteeringMessage }

def row (message : MessageInput τ) (rowid : ℕ) (timestamp : τ) : StoredMessage τ where
  rowid := rowid
  id := message.id
  chatJid := message.chatJid
  content := message.content
  contentBlocks := message.contentBlocks
  linkPreviews := message.linkPreviews
  annotations := none
  threadId := message.threadId
  timestamp := timestamp
  isBotMessage := message.isBotMessage
  isTerminalAgentReply := message.isTerminalAgentReply
  isSteeringMessage := message.isSteeringMessage

end MessageInput

/-- `text` is the decoded, decompressed content. -/
structure Media where
  id : ℕ
  contentType : String
  text : String
  deriving DecidableEq

structure MessageDb (τ : Type) where
  messages : List (StoredMessage τ)
  messageMedia : List (ℕ × ℕ)
  media : List Media
  mediaSequence : ℕ
  index : ℕ → Multiset Token

namespace Media

def indexableTypes : List String :=
  ["image/svg+xml", "text/markdown", "text/plain", "text/html", "text/csv", "text/xml",
    "application/xml", "application/json"]

def isTextIndexable (contentType : String) : Bool :=
  indexableTypes.contains contentType || "text/".toList.isPrefixOf contentType.toList

/-- What stands behind the first occurrence of a lower-case text, in either case. -/
def afterText (needle : List Char) : List Char → Option (List Char)
  | [] => if needle = [] then some [] else none
  | c :: rest =>
    if needle.isPrefixOf ((c :: rest).map Char.toLower) then some ((c :: rest).drop needle.length)
    else afterText needle rest

/-- What stands behind the next `>`. -/
def afterClose (text : List Char) : Option (List Char) :=
  match text.dropWhile (· ≠ '>') with
  | _ :: rest => some rest
  | [] => none

/-- `/<style[^>]*>[\s\S]*?<\/style>/gi` is removed. -/
def removeStyles : ℕ → List Char → List Char
  | 0, text => text
  | _ + 1, [] => []
  | fuel + 1, c :: rest =>
    let block :=
      if "<style".toList.isPrefixOf ((c :: rest).map Char.toLower) then
        (afterClose ((c :: rest).drop 6)).bind (afterText "</style>".toList)
      else none
    match block with
    | some behind => removeStyles fuel behind
    | none => c :: removeStyles fuel rest

/-- `/<[^>]+>/g` becomes a blank. -/
def removeMarks : ℕ → List Char → List Char
  | 0, text => text
  | _ + 1, [] => []
  | fuel + 1, c :: rest =>
    match (if c = '<' ∧ rest.head? ≠ some '>' then afterClose rest else none) with
    | some behind => ' ' :: removeMarks fuel behind
    | none => c :: removeMarks fuel rest

def stripTags (text : String) : String :=
  let unstyled := removeStyles text.toList.length text.toList
  String.ofList (stripEnds isTrimmed (replaceRuns isTrimmed ' ' false
    (removeMarks unstyled.length unstyled)))

def contains (text part : String) : Bool := (afterText part.toList text.toList).isSome

/-- The text that `appendMediaTextToFts` takes from a media row. -/
def indexText (m : Media) : Option String :=
  if isTextIndexable m.contentType then
    let text :=
      if contains m.contentType "svg" || contains m.contentType "html" ||
          contains m.contentType "xml" then stripTags m.text
      else m.text
    if 0 < utf16Length text ∧ utf16Length text < 100000 then some text else none
  else none

end Media

namespace MessageDb
variable {τ : Type}

def initial : MessageDb τ where
  messages := []
  messageMedia := []
  media := []
  mediaSequence := 0
  index _ := 0

section Triggers
variable (platform : MessagePlatform τ) (db : MessageDb τ)

/-- An insert into `messages_fts`. -/
def addTokens (rowid : ℕ) (content : String) : MessageDb τ :=
  { db with index := Function.update db.index rowid (db.index rowid + platform.tokens content) }

/-- A `delete` command on `messages_fts`. -/
def removeTokens (rowid : ℕ) (content : String) : MessageDb τ :=
  { db with index := Function.update db.index rowid (db.index rowid - platform.tokens content) }

/-- `messages_ai`. -/
def insertRow (row : StoredMessage τ) : MessageDb τ :=
  ({ db with messages := db.messages ++ [row] } : MessageDb τ).addTokens platform row.rowid
    row.content

/-- `messages_ad`. -/
def deleteRow (row : StoredMessage τ) : MessageDb τ :=
  ({ db with messages := db.messages.filter fun old => decide (old.rowid ≠ row.rowid) } :
    MessageDb τ).removeTokens platform row.rowid row.content

/-- `messages_au`, for a change of one row that keeps its rowid. -/
def updateRow (row : StoredMessage τ) (change : StoredMessage τ → StoredMessage τ) :
    MessageDb τ :=
  (({ db with messages := db.messages.map fun old =>
      if old.rowid = row.rowid then { change old with rowid := old.rowid } else old } :
    MessageDb τ).removeTokens platform row.rowid row.content).addTokens platform row.rowid
      (change row).content

end Triggers

section Statements
variable (platform : MessagePlatform τ) (db : MessageDb τ)

def findRow (rowid : ℕ) : Option (StoredMessage τ) :=
  db.messages.find? fun row => decide (row.rowid = rowid)

def findMessage (id chatJid : String) : Option (StoredMessage τ) :=
  db.messages.find? fun row => decide (row.id = id) && decide (row.chatJid = chatJid)

def findInChat (chatJid : String) (rowid : ℕ) : Option (StoredMessage τ) :=
  db.messages.find? fun row => decide (row.chatJid = chatJid) && decide (row.rowid = rowid)

def nextRowid : ℕ := (db.messages.map StoredMessage.rowid).foldr max 0 + 1

/-- The first row of the chat by `timestamp DESC`. -/
def latestTimestamp [LinearOrder τ] (chatJid : String) : Option τ :=
  ((db.messages.filter fun row => decide (row.chatJid = chatJid)).map
    StoredMessage.timestamp).max?

/-- `none` where the bump throws. -/
def ensureMonotonicTimestamp [LinearOrder τ] (chatJid : String) (requested : τ) : Option τ :=
  match platform.parse requested with
  | none => some requested
  | some requestedMs =>
    match (db.latestTimestamp chatJid).bind platform.parse with
    | none => some requested
    | some lastMs =>
      if lastMs < requestedMs then some requested else platform.toISOString (lastMs + 1)

def persistMessage (message : MessageInput τ) (timestamp : τ) : MessageDb τ × ℕ :=
  match db.findMessage message.id message.chatJid with
  | some row => (db.updateRow platform row (message.columns timestamp), row.rowid)
  | none => (db.insertRow platform (message.row db.nextRowid timestamp), db.nextRowid)

/-- The database with the message, and its rowid. -/
def storeMessageInDatabase [LinearOrder τ] (message : MessageInput τ) : Option (MessageDb τ × ℕ) :=
  (db.ensureMonotonicTimestamp platform message.chatJid message.timestamp).map
    (db.persistMessage platform message)

def getMediaIdsForMessage (rowid : ℕ) : List ℕ :=
  (db.messageMedia.filter fun link => decide (link.1 = rowid)).map Prod.snd

def indexTexts (mediaIds : List ℕ) : List String :=
  (db.media.filter fun m => decide (m.id ∈ mediaIds)).filterMap Media.indexText

/-- `appendMediaTextToFts`: the entry of the row is written again, with the texts behind its
content. -/
def appendMediaTextToFts (rowid : ℕ) (mediaIds : List ℕ) : MessageDb τ :=
  if db.indexTexts mediaIds = [] then db
  else match db.findRow rowid with
    | none => db
    | some row =>
      (db.removeTokens platform rowid row.content).addTokens platform rowid
        (row.content ++ "\n\n" ++ "\n".intercalate (db.indexTexts mediaIds))

/-- `INSERT OR IGNORE` of every link, then the index. -/
def attachMediaToMessageInDatabase (rowid : ℕ) (mediaIds : List ℕ) (index : Bool) :
    MessageDb τ :=
  if mediaIds = [] then db
  else
    let linked : MessageDb τ := { db with
      messageMedia := mediaIds.foldl (fun links mediaId =>
        if (rowid, mediaId) ∈ links then links else links ++ [(rowid, mediaId)]) db.messageMedia }
    if index then linked.appendMediaTextToFts platform rowid mediaIds else linked

structure ReplaceOptions where
  contentBlocks : Option String
  linkPreviews : Option String
  mediaIds : Option (List ℕ)
  isTerminalAgentReply : Option Bool

/-- Whether the row existed, and the database. -/
def replaceMessageContentInDatabase (chatJid : String) (rowid : ℕ) (content : String)
    (options : ReplaceOptions) : Option (MessageDb τ) :=
  let mediaIds := options.mediaIds.getD (db.getMediaIdsForMessage rowid)
  match db.findInChat chatJid rowid with
  | none => none
  | some row =>
    let updated := db.updateRow platform row fun old => { old with
      content := content
      contentBlocks := options.contentBlocks
      linkPreviews := options.linkPreviews
      isTerminalAgentReply := options.isTerminalAgentReply.getD old.isTerminalAgentReply }
    let detached : MessageDb τ := { updated with
      messageMedia := updated.messageMedia.filter fun link => decide (link.1 ≠ rowid) }
    some (detached.attachMediaToMessageInDatabase platform rowid mediaIds true)

def deleteUnreferencedMedia (mediaIds : List ℕ) : MessageDb τ :=
  { db with media := db.media.filter fun m =>
      !(decide (m.id ∈ mediaIds) && decide (m.id ∉ db.messageMedia.map Prod.snd)) }

def deleteMessageByRowId (chatJid : String) (rowid : ℕ) : MessageDb τ :=
  let detached : MessageDb τ := { db with
    messageMedia := db.messageMedia.filter fun link => decide (link.1 ≠ rowid) }
  match detached.findInChat chatJid rowid with
  | none => detached
  | some row =>
    (detached.deleteRow platform row).deleteUnreferencedMedia (db.getMediaIdsForMessage rowid)

/-- The message and the replies that name it. -/
def threadRows (chatJid : String) (rowid : ℕ) : List (StoredMessage τ) :=
  db.messages.filter fun row =>
    decide (row.chatJid = chatJid) &&
      (decide (row.rowid = rowid) || decide (row.threadId = some rowid))

def deleteThreadByRowId (chatJid : String) (rowid : ℕ) : MessageDb τ :=
  let rows := db.threadRows chatJid rowid
  let ids := rows.map StoredMessage.rowid
  let detached : MessageDb τ := { db with
    messageMedia := db.messageMedia.filter fun link => decide (link.1 ∉ ids) }
  (rows.foldl (fun db row => db.deleteRow platform row) detached).deleteUnreferencedMedia
    ((db.messageMedia.filter fun link => decide (link.1 ∈ ids)).map Prod.snd)

def updateMessageAnnotationsInDatabase (chatJid : String) (rowid : ℕ)
    (annotations : Option String) : MessageDb τ :=
  match db.findInChat chatJid rowid with
  | none => db
  | some row => db.updateRow platform row fun old => { old with annotations := annotations }

/-- `AUTOINCREMENT` never gives an id twice. -/
def createMedia (contentType text : String) : MessageDb τ :=
  { db with
    media := db.media ++ [⟨db.mediaSequence + 1, contentType, text⟩]
    mediaSequence := db.mediaSequence + 1 }

end Statements

section Rows
variable (platform : MessagePlatform τ) (db : MessageDb τ)

@[simp] theorem messages_addTokens (rowid : ℕ) (content : String) :
    (db.addTokens platform rowid content).messages = db.messages := rfl

@[simp] theorem messages_removeTokens (rowid : ℕ) (content : String) :
    (db.removeTokens platform rowid content).messages = db.messages := rfl

@[simp] theorem messages_insertRow (row : StoredMessage τ) :
    (db.insertRow platform row).messages = db.messages ++ [row] := rfl

@[simp] theorem messages_deleteRow (row : StoredMessage τ) :
    (db.deleteRow platform row).messages =
      db.messages.filter fun old => decide (old.rowid ≠ row.rowid) := rfl

@[simp] theorem messages_updateRow (row : StoredMessage τ)
    (change : StoredMessage τ → StoredMessage τ) :
    (db.updateRow platform row change).messages = db.messages.map fun old =>
      if old.rowid = row.rowid then { change old with rowid := old.rowid } else old := rfl

end Rows

section Keys
variable {platform : MessagePlatform τ} {db : MessageDb τ}

/-- `rowid` and the primary key `(id, chat_jid)`. -/
structure Keyed (db : MessageDb τ) : Prop where
  rowids : (db.messages.map StoredMessage.rowid).Nodup
  pairs : (db.messages.map fun row => (row.id, row.chatJid)).Nodup

theorem Keyed.eq_of_rowid (hkeyed : Keyed db) {row row' : StoredMessage τ}
    (hrow : row ∈ db.messages) (hrow' : row' ∈ db.messages) (heq : row.rowid = row'.rowid) :
    row = row' :=
  List.inj_on_of_nodup_map hkeyed.rowids hrow hrow' heq

theorem Keyed.eq_of_pair (hkeyed : Keyed db) {row row' : StoredMessage τ}
    (hrow : row ∈ db.messages) (hrow' : row' ∈ db.messages) (hid : row.id = row'.id)
    (hchat : row.chatJid = row'.chatJid) : row = row' :=
  List.inj_on_of_nodup_map hkeyed.pairs hrow hrow' (Prod.ext hid hchat)

theorem Keyed.of_sublist {db' : MessageDb τ} (hkeyed : Keyed db)
    (hsub : db'.messages.Sublist db.messages) : Keyed db' :=
  ⟨hkeyed.rowids.sublist (hsub.map _), hkeyed.pairs.sublist (hsub.map _)⟩

theorem keyed_initial : Keyed (initial : MessageDb τ) := ⟨List.nodup_nil, List.nodup_nil⟩

theorem mem_of_findMessage {id chatJid : String} {row : StoredMessage τ}
    (hfind : db.findMessage id chatJid = some row) :
    row ∈ db.messages ∧ row.id = id ∧ row.chatJid = chatJid := by
  have hholds := List.find?_some hfind
  simp only [Bool.and_eq_true, decide_eq_true_eq] at hholds
  exact ⟨List.mem_of_find?_eq_some hfind, hholds⟩

theorem not_mem_of_findMessage {id chatJid : String} (hfind : db.findMessage id chatJid = none)
    {row : StoredMessage τ} (hrow : row ∈ db.messages) :
    ¬ (row.id = id ∧ row.chatJid = chatJid) := by
  have hnone := List.find?_eq_none.1 hfind row hrow
  simpa using hnone

theorem mem_of_findInChat {chatJid : String} {rowid : ℕ} {row : StoredMessage τ}
    (hfind : db.findInChat chatJid rowid = some row) :
    row ∈ db.messages ∧ row.chatJid = chatJid ∧ row.rowid = rowid := by
  have hholds := List.find?_some hfind
  simp only [Bool.and_eq_true, decide_eq_true_eq] at hholds
  exact ⟨List.mem_of_find?_eq_some hfind, hholds⟩

theorem lt_nextRowid {row : StoredMessage τ} (hrow : row ∈ db.messages) :
    row.rowid < db.nextRowid := by
  have hle : ∀ rowids : List ℕ, ∀ n ∈ rowids, n ≤ rowids.foldr max 0 := by
    intro rowids
    induction rowids with
    | nil => simp
    | cons m rest ih =>
      intro n hn
      rcases List.mem_cons.1 hn with rfl | hn
      · exact le_max_left _ _
      · exact (ih n hn).trans (le_max_right _ _)
  exact Nat.lt_succ_of_le (hle _ _ (List.mem_map_of_mem hrow))

theorem Keyed.insertRow (hkeyed : Keyed db) {row : StoredMessage τ}
    (hrowid : ∀ old ∈ db.messages, old.rowid ≠ row.rowid)
    (hpair : ∀ old ∈ db.messages, ¬ (old.id = row.id ∧ old.chatJid = row.chatJid)) :
    Keyed (db.insertRow platform row) := by
  constructor
  · rw [messages_insertRow, List.map_append, List.nodup_append]
    refine ⟨hkeyed.rowids, List.nodup_singleton _, ?_⟩
    intro rowid hmem other hother
    obtain ⟨old, hold, rfl⟩ := List.mem_map.1 hmem
    obtain rfl := List.mem_singleton.1 hother
    exact hrowid old hold
  · rw [messages_insertRow, List.map_append, List.nodup_append]
    refine ⟨hkeyed.pairs, List.nodup_singleton _, ?_⟩
    intro pair hmem other hother heq
    obtain ⟨old, hold, rfl⟩ := List.mem_map.1 hmem
    obtain rfl := List.mem_singleton.1 hother
    exact hpair old hold (Prod.ext_iff.1 heq)

theorem Keyed.updateRow (hkeyed : Keyed db) (row : StoredMessage τ)
    {change : StoredMessage τ → StoredMessage τ}
    (hid : ∀ old, (change old).id = old.id) (hchat : ∀ old, (change old).chatJid = old.chatJid) :
    Keyed (db.updateRow platform row change) := by
  have hsame (f : StoredMessage τ → StoredMessage τ) (hrowid : ∀ old, (f old).rowid = old.rowid)
      (hpair : ∀ old, ((f old).id, (f old).chatJid) = (old.id, old.chatJid)) :
      (db.messages.map f).map StoredMessage.rowid = db.messages.map StoredMessage.rowid ∧
        (db.messages.map f).map (fun row => (row.id, row.chatJid)) =
          db.messages.map fun row => (row.id, row.chatJid) := by
    simp only [List.map_map]
    exact ⟨List.map_congr_left fun old _ => hrowid old, List.map_congr_left fun old _ => hpair old⟩
  have hmaps := hsame
    (fun old => if old.rowid = row.rowid then { change old with rowid := old.rowid } else old)
    (fun old => by split_ifs <;> rfl) (fun old => by split_ifs <;> simp [hid, hchat])
  exact ⟨hmaps.1 ▸ hkeyed.rowids, hmaps.2 ▸ hkeyed.pairs⟩

/-- With one row under a rowid, an update changes just that row. -/
theorem mem_updateRow (hkeyed : Keyed db) {row : StoredMessage τ} (hrow : row ∈ db.messages)
    {change : StoredMessage τ → StoredMessage τ} {new : StoredMessage τ} :
    new ∈ (db.updateRow platform row change).messages ↔
      new = { change row with rowid := row.rowid } ∨ new ∈ db.messages ∧ new ≠ row := by
  rw [messages_updateRow, List.mem_map]
  constructor
  · rintro ⟨old, hold, rfl⟩
    split_ifs with heq
    · left
      rw [hkeyed.eq_of_rowid hold hrow heq]
    · right
      exact ⟨hold, fun h => heq (h ▸ rfl)⟩
  · rintro (rfl | ⟨hnew, hne⟩)
    · exact ⟨row, hrow, by rw [if_pos rfl]⟩
    · exact ⟨new, hnew, by rw [if_neg (fun heq => hne (hkeyed.eq_of_rowid hnew hrow heq))]⟩

/-- Whether a message is new or stored again, its pair has one row afterwards, which holds its
columns, and the other rows stay. -/
theorem persistMessage_rows (hkeyed : Keyed db) (message : MessageInput τ) (timestamp : τ) :
    Keyed (db.persistMessage platform message timestamp).1 ∧
      ∃ row : StoredMessage τ, row.id = message.id ∧ row.chatJid = message.chatJid ∧
        message.columns timestamp row = row ∧
        ∀ old, old ∈ (db.persistMessage platform message timestamp).1.messages ↔
          old = row ∨ old ∈ db.messages ∧
            ¬ (old.id = message.id ∧ old.chatJid = message.chatJid) := by
  rw [persistMessage]
  cases hfind : db.findMessage message.id message.chatJid with
  | none =>
    refine ⟨hkeyed.insertRow (fun old hold => (lt_nextRowid hold).ne)
      (fun old hold => not_mem_of_findMessage hfind hold),
      message.row db.nextRowid timestamp, rfl, rfl, rfl, fun old => ?_⟩
    simp only [messages_insertRow, List.mem_append, List.mem_singleton]
    constructor
    · rintro (hold | rfl)
      · exact Or.inr ⟨hold, not_mem_of_findMessage hfind hold⟩
      · exact Or.inl rfl
    · rintro (rfl | ⟨hold, -⟩)
      · exact Or.inr rfl
      · exact Or.inl hold
  | some row =>
    obtain ⟨hrow, hid, hchat⟩ := mem_of_findMessage hfind
    refine ⟨hkeyed.updateRow row (fun _ => rfl) (fun _ => rfl), message.columns timestamp row,
      hid, hchat, rfl, fun old => ?_⟩
    simp only [mem_updateRow hkeyed hrow]
    have hother (hold : old ∈ db.messages) :
        old ≠ row ↔ ¬ (old.id = message.id ∧ old.chatJid = message.chatJid) :=
      not_congr ⟨fun h => h ▸ ⟨hid, hchat⟩, fun h =>
        hkeyed.eq_of_pair hold hrow (h.1.trans hid.symm) (h.2.trans hchat.symm)⟩
    constructor
    · rintro (rfl | ⟨hold, hne⟩)
      · exact Or.inl rfl
      · exact Or.inr ⟨hold, (hother hold).1 hne⟩
    · rintro (rfl | ⟨hold, hne⟩)
      · exact Or.inl rfl
      · exact Or.inr ⟨hold, (hother hold).2 hne⟩

theorem deleteMessageByRowId_messages (chatJid : String) (rowid : ℕ) :
    (db.deleteMessageByRowId platform chatJid rowid).messages =
      match db.findInChat chatJid rowid with
      | none => db.messages
      | some _ => db.messages.filter fun old => decide (old.rowid ≠ rowid) := by
  have hfound (links : List (ℕ × ℕ)) :
      ({ db with messageMedia := links } : MessageDb τ).findInChat chatJid rowid =
        db.findInChat chatJid rowid := rfl
  rw [deleteMessageByRowId]
  simp only [hfound]
  cases hfind : db.findInChat chatJid rowid with
  | none => rfl
  | some row =>
    rw [← (mem_of_findInChat hfind).2.2]
    rfl

theorem deleteMessageByRowId_sublist (chatJid : String) (rowid : ℕ) :
    (db.deleteMessageByRowId platform chatJid rowid).messages.Sublist db.messages := by
  rw [deleteMessageByRowId_messages]
  split
  · exact List.Sublist.refl _
  · exact List.filter_sublist

def linksAfter (links : List (ℕ × ℕ)) (rowid : ℕ) (mediaIds : List ℕ) : List (ℕ × ℕ) :=
  mediaIds.foldl (fun links mediaId =>
    if (rowid, mediaId) ∈ links then links else links ++ [(rowid, mediaId)]) links

theorem mem_linksAfter {links : List (ℕ × ℕ)} {rowid : ℕ} {mediaIds : List ℕ} {link : ℕ × ℕ} :
    link ∈ linksAfter links rowid mediaIds ↔
      link ∈ links ∨ link.1 = rowid ∧ link.2 ∈ mediaIds := by
  rw [linksAfter]
  induction mediaIds generalizing links with
  | nil => simp
  | cons mediaId rest ih =>
    rw [List.foldl_cons, ih]
    have hpair : link = (rowid, mediaId) ↔ link.1 = rowid ∧ link.2 = mediaId := Prod.ext_iff
    split_ifs with hmem
    · constructor
      · rintro (hlink | ⟨hrowid, hrest⟩)
        · exact Or.inl hlink
        · exact Or.inr ⟨hrowid, List.mem_cons_of_mem _ hrest⟩
      · rintro (hlink | ⟨hrowid, hmedia⟩)
        · exact Or.inl hlink
        · rcases List.mem_cons.1 hmedia with heq | hrest
          · exact Or.inl (hpair.2 ⟨hrowid, heq⟩ ▸ hmem)
          · exact Or.inr ⟨hrowid, hrest⟩
    · rw [List.mem_append, List.mem_singleton, hpair, List.mem_cons]
      tauto

theorem appendMediaTextToFts_tables (rowid : ℕ) (mediaIds : List ℕ) :
    (db.appendMediaTextToFts platform rowid mediaIds).messages = db.messages ∧
      (db.appendMediaTextToFts platform rowid mediaIds).media = db.media ∧
      (db.appendMediaTextToFts platform rowid mediaIds).messageMedia = db.messageMedia ∧
      (db.appendMediaTextToFts platform rowid mediaIds).mediaSequence = db.mediaSequence := by
  rw [appendMediaTextToFts]
  split_ifs
  · exact ⟨rfl, rfl, rfl, rfl⟩
  · cases db.findRow rowid <;> exact ⟨rfl, rfl, rfl, rfl⟩

theorem attachMediaToMessage_tables (rowid : ℕ) (mediaIds : List ℕ) (index : Bool) :
    (db.attachMediaToMessageInDatabase platform rowid mediaIds index).messages = db.messages ∧
      (db.attachMediaToMessageInDatabase platform rowid mediaIds index).messageMedia =
        linksAfter db.messageMedia rowid mediaIds := by
  rw [attachMediaToMessageInDatabase]
  split_ifs with hempty hindex
  · rw [hempty]
    exact ⟨rfl, rfl⟩
  · exact ⟨appendMediaTextToFts_tables rowid mediaIds |>.1,
      appendMediaTextToFts_tables rowid mediaIds |>.2.2.1⟩
  · exact ⟨rfl, rfl⟩

end Keys

end MessageDb
end Piclaw
