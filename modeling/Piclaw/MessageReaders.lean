import Piclaw.Messages
import Mathlib.Data.List.Sort
import Mathlib.Data.Prod.Lex

/-!
# Readers of a chat

`getMessagesSince` and a reader that keeps, as its cursor, the greatest timestamp it has been
given. A message is an `(id, chat_jid)` pair. A run mixes stores, deletions and reads; beside the
database it remembers which messages of the chat were ever stored, in the order of first storage,
and which were returned.
-/

namespace Piclaw

/-- `LIKE`: `%` is any text, `_` any character, and ASCII letters match in either case. -/
def likePattern : List Char → List Char → Bool
  | [], text => text.isEmpty
  | '%' :: pattern, text => text.tails.any (likePattern pattern)
  | _ :: _, [] => false
  | p :: pattern, c :: text =>
    (decide (p = '_') || decide (p.toLower = c.toLower)) && likePattern pattern text

structure ChatReader where
  chatJid : String
  botPrefix : String

namespace ChatReader

/-- The `WHERE` clause of `getMessagesSince` but for the cursor. -/
def wants (reader : ChatReader) (chatJid content : String)
    (isBotMessage isSteeringMessage : Bool) : Bool :=
  decide (chatJid = reader.chatJid) && !isBotMessage &&
    !likePattern (reader.botPrefix.toList ++ [':', '%']) content.toList &&
    !likePattern ['/', '%'] (content.toList.dropWhile fun c => decide (c = ' ')) &&
    !isSteeringMessage

end ChatReader

section Reading
variable {τ : Type} [LinearOrder τ]

/-- `timestamp > cursor`. Without a cursor the empty text stands there, which comes before every
timestamp. -/
def isAfter : Option τ → τ → Bool
  | none, _ => true
  | some cursor, timestamp => decide (cursor < timestamp)

/-- `ORDER BY timestamp, rowid`. -/
def StoredMessage.Earlier (a b : StoredMessage τ) : Prop :=
  toLex (a.timestamp, a.rowid) ≤ toLex (b.timestamp, b.rowid)

instance : DecidableRel (StoredMessage.Earlier : StoredMessage τ → StoredMessage τ → Prop) :=
  fun a b => inferInstanceAs
    (Decidable (toLex (a.timestamp, a.rowid) ≤ toLex (b.timestamp, b.rowid)))

instance : Std.Total (StoredMessage.Earlier : StoredMessage τ → StoredMessage τ → Prop) :=
  ⟨fun _ _ => le_total _ _⟩

instance : IsTrans (StoredMessage τ) StoredMessage.Earlier := ⟨fun _ _ _ => le_trans⟩

namespace MessageDb

def getMessagesSince (db : MessageDb τ) (reader : ChatReader) (cursor : Option τ) :
    List (StoredMessage τ) :=
  (db.messages.filter fun row =>
    reader.wants row.chatJid row.content row.isBotMessage row.isSteeringMessage &&
      isAfter cursor row.timestamp).insertionSort StoredMessage.Earlier

end MessageDb

inductive ReaderEvent (τ : Type)
  | store (message : MessageInput τ)
  | delete (chatJid : String) (rowid : ℕ)
  | read

/-- `stored` and `returned` are histories. -/
structure ChatReading (τ : Type) where
  db : MessageDb τ
  cursor : Option τ
  stored : List String
  returned : List String

namespace ChatReading
variable (platform : MessagePlatform τ) (reader : ChatReader)

def initial : ChatReading τ where
  db := MessageDb.initial
  cursor := none
  stored := []
  returned := []

def wants (row : StoredMessage τ) : Bool :=
  reader.wants row.chatJid row.content row.isBotMessage row.isSteeringMessage

/-- A message of the chat is entered when it is stored first. -/
def storedAfter (s : ChatReading τ) (message : MessageInput τ) : List String :=
  if message.chatJid = reader.chatJid ∧ message.id ∉ s.stored then s.stored ++ [message.id]
  else s.stored

def step (s : ChatReading τ) : ReaderEvent τ → ChatReading τ
  | .store message =>
    match s.db.storeMessageInDatabase platform message with
    | none => s
    | some (db, _) => { s with db := db, stored := storedAfter reader s message }
  | .delete chatJid rowid => { s with db := s.db.deleteMessageByRowId platform chatJid rowid }
  | .read =>
    let rows := s.db.getMessagesSince reader s.cursor
    { s with
      cursor := (s.cursor.toList ++ rows.map StoredMessage.timestamp).max?
      returned := s.returned ++ rows.map StoredMessage.id }

def run (s : ChatReading τ) (events : List (ReaderEvent τ)) : ChatReading τ :=
  events.foldl (step platform reader) s

/-- The present messages that the reader wants and has not been given. -/
def unread (s : ChatReading τ) : List (StoredMessage τ) :=
  s.db.messages.filter fun row => wants reader row && decide (row.id ∉ s.returned)

section Condition
variable (s : ChatReading τ) (message : MessageInput τ)

/-- The requested time is later than the latest of the chat, or one of them is no time. -/
def isLater : Bool :=
  match platform.parse message.timestamp,
      (s.db.latestTimestamp message.chatJid).bind platform.parse with
  | some requestedMs, some lastMs => decide (lastMs < requestedMs)
  | _, _ => true

/-- The millisecond behind the latest timestamp of the chat. -/
def nextMillisecond : Option τ :=
  ((s.db.latestTimestamp message.chatJid).bind platform.parse).bind fun lastMs =>
    platform.toISOString (lastMs + 1)

/-- Behind the cursor and every unread message. -/
def Behind (timestamp : τ) : Prop :=
  isAfter s.cursor timestamp = true ∧ ∀ row ∈ unread reader s, row.timestamp < timestamp

instance (timestamp : τ) : Decidable (Behind reader s timestamp) :=
  inferInstanceAs (Decidable (isAfter s.cursor timestamp = true ∧ ∀ row ∈ unread reader s, _ < _))

/-- No other unread message was stored first after this one. -/
def NoneStoredAfter : Prop :=
  ∀ row ∈ unread reader s, row.id ≠ message.id →
    s.stored.idxOf row.id < s.stored.idxOf message.id

instance : Decidable (NoneStoredAfter reader s message) :=
  inferInstanceAs (Decidable (∀ row ∈ unread reader s, row.id ≠ message.id → _ < _))

/-- A wanted message that the reader has not been given comes in time: its requested timestamp,
where it is later than the latest, or else the millisecond behind the latest, is behind the cursor
and all that is unread. -/
def InTime : Prop :=
  if isLater platform s message then Behind reader s message.timestamp
  else ∀ next ∈ nextMillisecond platform s message, Behind reader s next

instance : Decidable (InTime platform reader s message) :=
  inferInstanceAs (Decidable (if _ = true then Behind _ _ _ else
    ∀ next ∈ nextMillisecond platform s message, Behind _ _ _))

/-- A wanted message that the reader has been given stays at or before its cursor. -/
def Past : Prop :=
  if isLater platform s message then isAfter s.cursor message.timestamp = false
  else ∀ next ∈ nextMillisecond platform s message, isAfter s.cursor next = false

instance : Decidable (Past platform s message) :=
  inferInstanceAs (Decidable (if _ = true then isAfter _ _ = false else
    ∀ next ∈ nextMillisecond platform s message, isAfter _ _ = false))

end Condition

/-- The stores that leave the reader exact. -/
def Timely (s : ChatReading τ) : ReaderEvent τ → Prop
  | .store message =>
    reader.wants message.chatJid message.content message.isBotMessage
      message.isSteeringMessage = true →
      if message.id ∈ s.returned then Past platform s message
      else InTime platform reader s message ∧ NoneStoredAfter reader s message
  | .delete _ _ => True
  | .read => True

instance (s : ChatReading τ) : ∀ event, Decidable (Timely platform reader s event)
  | .store _ => inferInstanceAs
    (Decidable (_ = true → if _ ∈ _ then Past _ _ _ else InTime _ _ _ _ ∧ _))
  | .delete _ _ => inferInstanceAs (Decidable True)
  | .read => inferInstanceAs (Decidable True)

def AllTimely (s : ChatReading τ) : List (ReaderEvent τ) → Prop
  | [] => True
  | event :: events =>
    Timely platform reader s event ∧ AllTimely (step platform reader s event) events

def decideAllTimely (s : ChatReading τ) :
    ∀ events, Decidable (AllTimely platform reader s events)
  | [] => inferInstanceAs (Decidable True)
  | event :: events =>
    have := decideAllTimely (step platform reader s event) events
    inferInstanceAs (Decidable (Timely platform reader s event ∧ _))

instance (s : ChatReading τ) (events : List (ReaderEvent τ)) :
    Decidable (AllTimely platform reader s events) := decideAllTimely platform reader s events

variable {platform reader} {s : ChatReading τ}

omit [LinearOrder τ] in
theorem mem_unread {row : StoredMessage τ} :
    row ∈ unread reader s ↔
      row ∈ s.db.messages ∧ wants reader row = true ∧ row.id ∉ s.returned := by
  simp [unread]

omit [LinearOrder τ] in
theorem chat_of_wants {row : StoredMessage τ} (hwants : wants reader row = true) :
    row.chatJid = reader.chatJid := by
  simp only [wants, ChatReader.wants, Bool.and_eq_true, decide_eq_true_eq] at hwants
  exact hwants.1.1.1.1

/-- What a store makes of the requested timestamp. -/
theorem timestamp_given {message : MessageInput τ} {timestamp : τ}
    (hgiven : s.db.ensureMonotonicTimestamp platform message.chatJid message.timestamp =
      some timestamp) :
    (isLater platform s message = true → timestamp = message.timestamp) ∧
      (isLater platform s message = false →
        nextMillisecond platform s message = some timestamp) := by
  rw [MessageDb.ensureMonotonicTimestamp] at hgiven
  rw [isLater, nextMillisecond]
  cases hrequested : platform.parse message.timestamp with
  | none =>
    simp only [hrequested, Option.some.injEq] at hgiven
    simp [hgiven]
  | some requestedMs =>
    cases hlast : (s.db.latestTimestamp message.chatJid).bind platform.parse with
    | none =>
      simp only [hrequested, hlast, Option.some.injEq] at hgiven
      simp [hgiven]
    | some lastMs =>
      simp only [hrequested, hlast] at hgiven
      split_ifs at hgiven with hlt
      · simp only [Option.some.injEq] at hgiven
        simp [hlt, hgiven]
      · simp [hlt, hgiven]

theorem behind_of_inTime {message : MessageInput τ} {timestamp : τ}
    (hgiven : s.db.ensureMonotonicTimestamp platform message.chatJid message.timestamp =
      some timestamp)
    (hinTime : InTime platform reader s message) : Behind reader s timestamp := by
  rw [InTime] at hinTime
  split_ifs at hinTime with hlater
  · rwa [(timestamp_given hgiven).1 hlater]
  · exact hinTime timestamp ((timestamp_given hgiven).2 (Bool.eq_false_iff.2 hlater))

theorem not_after_of_past {message : MessageInput τ} {timestamp : τ}
    (hgiven : s.db.ensureMonotonicTimestamp platform message.chatJid message.timestamp =
      some timestamp)
    (hpast : Past platform s message) : isAfter s.cursor timestamp = false := by
  rw [Past] at hpast
  split_ifs at hpast with hlater
  · rwa [(timestamp_given hgiven).1 hlater]
  · exact hpast timestamp ((timestamp_given hgiven).2 (Bool.eq_false_iff.2 hlater))

/-- What is unread stands behind the cursor, in the order of first storage, and what was returned
does not. -/
structure Exact (reader : ChatReader) (s : ChatReading τ) : Prop where
  keyed : s.db.Keyed
  known : ∀ row ∈ s.db.messages, row.chatJid = reader.chatJid → row.id ∈ s.stored
  after : ∀ row ∈ unread reader s, isAfter s.cursor row.timestamp = true
  past : ∀ row ∈ s.db.messages, wants reader row = true → row.id ∈ s.returned →
    isAfter s.cursor row.timestamp = false
  ordered : ∀ a ∈ unread reader s, ∀ b ∈ unread reader s,
    s.stored.idxOf a.id < s.stored.idxOf b.id → a.timestamp < b.timestamp
  once : s.returned.Nodup

theorem exact_initial : Exact reader (initial : ChatReading τ) where
  keyed := MessageDb.keyed_initial
  known := by simp [initial, MessageDb.initial]
  after := by simp [unread, initial, MessageDb.initial]
  past := by simp [initial, MessageDb.initial]
  ordered := by simp [unread, initial, MessageDb.initial]
  once := List.nodup_nil

omit [LinearOrder τ] in
/-- Messages of the chat are told apart by their ids. -/
theorem eq_of_id (hkeyed : s.db.Keyed) {a b : StoredMessage τ} (ha : a ∈ unread reader s)
    (hb : b ∈ unread reader s) (hid : a.id = b.id) : a = b := by
  obtain ⟨hamem, hawants, -⟩ := mem_unread.1 ha
  obtain ⟨hbmem, hbwants, -⟩ := mem_unread.1 hb
  exact hkeyed.eq_of_pair hamem hbmem hid
    ((chat_of_wants hawants).trans (chat_of_wants hbwants).symm)

theorem mem_getMessagesSince {row : StoredMessage τ} :
    row ∈ s.db.getMessagesSince reader s.cursor ↔
      row ∈ s.db.messages ∧ wants reader row = true ∧ isAfter s.cursor row.timestamp = true := by
  rw [MessageDb.getMessagesSince, List.mem_insertionSort]
  simp [wants]

/-- A read returns what is unread. -/
theorem Exact.read_iff (hexact : Exact reader s) {row : StoredMessage τ} :
    row ∈ s.db.getMessagesSince reader s.cursor ↔ row ∈ unread reader s := by
  rw [mem_getMessagesSince, mem_unread]
  constructor
  · rintro ⟨hmem, hwants, hafter⟩
    refine ⟨hmem, hwants, fun hreturned => ?_⟩
    rw [hexact.past row hmem hwants hreturned] at hafter
    exact Bool.false_ne_true hafter
  · rintro ⟨hmem, hwants, hnew⟩
    exact ⟨hmem, hwants, hexact.after row (mem_unread.2 ⟨hmem, hwants, hnew⟩)⟩

theorem nodup_getMessagesSince (hkeyed : s.db.Keyed) :
    (s.db.getMessagesSince reader s.cursor).Nodup := by
  rw [MessageDb.getMessagesSince, (List.perm_insertionSort _ _).nodup_iff]
  exact (List.Nodup.of_map _ hkeyed.rowids).filter _

/-- A read returns messages in the order in which they were first stored. -/
theorem Exact.read_order (hexact : Exact reader s) :
    (s.db.getMessagesSince reader s.cursor).Pairwise fun a b =>
      s.stored.idxOf a.id < s.stored.idxOf b.id := by
  have hsorted : (s.db.getMessagesSince reader s.cursor).Pairwise StoredMessage.Earlier :=
    List.pairwise_insertionSort _ _
  refine ((hsorted.and (nodup_getMessagesSince hexact.keyed)).imp_of_mem
    fun {a b} hamem hbmem hab => ?_)
  have ha := hexact.read_iff.1 hamem
  have hb := hexact.read_iff.1 hbmem
  rcases lt_trichotomy (s.stored.idxOf a.id) (s.stored.idxOf b.id) with hlt | heq | hgt
  · exact hlt
  · have hknown : a.id ∈ s.stored :=
      hexact.known a (mem_unread.1 ha).1 (chat_of_wants (mem_unread.1 ha).2.1)
    exact absurd (eq_of_id hexact.keyed ha hb ((List.idxOf_inj hknown).1 heq)) hab.2
  · have hlt := hexact.ordered b hb a ha hgt
    have hle : a.timestamp ≤ b.timestamp := by
      rcases (Prod.Lex.le_iff.1 hab.1) with h | h
      · exact h.le
      · exact h.1.le
    exact absurd hlt hle.not_gt

theorem isAfter_max {timestamps : List τ} {timestamp greatest : τ}
    (hmem : greatest ∈ timestamps) (hle : timestamp ≤ greatest) :
    isAfter timestamps.max? timestamp = false := by
  cases hmax : timestamps.max? with
  | none =>
    rw [List.max?_eq_none_iff] at hmax
    simp [hmax] at hmem
  | some top =>
    have htop : greatest ≤ top := (List.max?_eq_some_iff.1 hmax).2 greatest hmem
    simp only [isAfter, decide_eq_false_iff_not, not_lt]
    exact hle.trans htop

theorem not_isAfter {cursor : Option τ} {timestamp : τ} (hpast : isAfter cursor timestamp = false) :
    ∃ given ∈ cursor.toList, timestamp ≤ given := by
  cases cursor with
  | none => simp [isAfter] at hpast
  | some given => exact ⟨given, by simp, by simpa [isAfter] using hpast⟩

theorem exact_read (hexact : Exact reader s) : Exact reader (step platform reader s .read) := by
  have hnone : unread reader (step platform reader s .read) = [] := by
    rw [List.eq_nil_iff_forall_not_mem]
    intro row hrow
    obtain ⟨hmem, hwants, hnew⟩ := mem_unread.1 hrow
    simp only [step, List.mem_append, not_or] at hnew
    exact hnew.2 (List.mem_map_of_mem
      (hexact.read_iff.2 (mem_unread.2 ⟨hmem, hwants, hnew.1⟩)))
  constructor
  · exact hexact.keyed
  · exact hexact.known
  · simp [hnone]
  · intro row hmem hwants hreturned
    simp only [step, List.mem_append] at hreturned ⊢
    rcases hreturned with hreturned | hread
    · obtain ⟨given, hgiven, hle⟩ := not_isAfter (hexact.past row hmem hwants hreturned)
      exact isAfter_max (List.mem_append_left _ hgiven) hle
    · obtain ⟨given, hgiven, hid⟩ := List.mem_map.1 hread
      obtain ⟨hmem', hwants', -⟩ := mem_unread.1 (hexact.read_iff.1 hgiven)
      obtain rfl : given = row := hexact.keyed.eq_of_pair hmem' hmem hid
        ((chat_of_wants hwants').trans (chat_of_wants hwants).symm)
      exact isAfter_max (List.mem_append_right _ (List.mem_map_of_mem hgiven)) le_rfl
  · simp [hnone]
  · simp only [step]
    refine List.nodup_append.2 ⟨hexact.once, ?_, ?_⟩
    · refine List.Nodup.map_on (fun a ha b hb hid => ?_) (nodup_getMessagesSince hexact.keyed)
      exact eq_of_id hexact.keyed (hexact.read_iff.1 ha) (hexact.read_iff.1 hb) hid
    · rintro id hid other hother rfl
      obtain ⟨row, hrow, rfl⟩ := List.mem_map.1 hother
      exact (mem_unread.1 (hexact.read_iff.1 hrow)).2.2 hid

theorem exact_delete (hexact : Exact reader s) (chatJid : String) (rowid : ℕ) :
    Exact reader (step platform reader s (.delete chatJid rowid)) := by
  have hsub : (s.db.deleteMessageByRowId platform chatJid rowid).messages.Sublist s.db.messages :=
    MessageDb.deleteMessageByRowId_sublist chatJid rowid
  have hunread : ∀ row ∈ unread reader (step platform reader s (.delete chatJid rowid)),
      row ∈ unread reader s := by
    intro row hrow
    obtain ⟨hmem, hrest⟩ := mem_unread.1 hrow
    exact mem_unread.2 ⟨hsub.subset hmem, hrest⟩
  constructor
  · exact hexact.keyed.of_sublist hsub
  · exact fun row hmem => hexact.known row (hsub.subset hmem)
  · exact fun row hrow => hexact.after row (hunread row hrow)
  · exact fun row hmem => hexact.past row (hsub.subset hmem)
  · exact fun a ha b hb => hexact.ordered a (hunread a ha) b (hunread b hb)
  · exact hexact.once

omit [LinearOrder τ] in
theorem mem_storedAfter {message : MessageInput τ} {id : String} (hid : id ∈ s.stored) :
    id ∈ storedAfter reader s message := by
  rw [storedAfter]
  split_ifs
  · exact List.mem_append_left _ hid
  · exact hid

omit [LinearOrder τ] in
/-- A new message comes behind those stored before it, which keep their places. -/
theorem idxOf_storedAfter {message : MessageInput τ} {id : String}
    (hid : id ∈ s.stored ∨ id = message.id) :
    (storedAfter reader s message).idxOf id = s.stored.idxOf id := by
  rw [storedAfter]
  split_ifs with hnew
  · by_cases hmem : id ∈ s.stored
    · exact List.idxOf_append_of_mem hmem
    · obtain rfl : id = message.id := hid.resolve_left hmem
      rw [List.idxOf_append_of_notMem hmem, List.idxOf_of_notMem hmem]
      simp
  · rfl

theorem exact_store (hexact : Exact reader s) (message : MessageInput τ)
    (htimely : Timely platform reader s (.store message)) :
    Exact reader (step platform reader s (.store message)) := by
  cases hgiven : s.db.ensureMonotonicTimestamp platform message.chatJid message.timestamp with
  | none =>
    have hstep : step platform reader s (.store message) = s := by
      simp [step, MessageDb.storeMessageInDatabase, hgiven]
    rwa [hstep]
  | some timestamp =>
    obtain ⟨hkeyed, kept, hid, hchat, hcolumns, hrows⟩ :=
      @MessageDb.persistMessage_rows τ platform s.db hexact.keyed message timestamp
    have hstep : step platform reader s (.store message) = { s with
        db := (s.db.persistMessage platform message timestamp).1
        stored := storedAfter reader s message } := by
      simp [step, MessageDb.storeMessageInDatabase, hgiven]
    rw [hstep]
    have htime : kept.timestamp = timestamp := by rw [← hcolumns]; rfl
    have hwanted : wants reader kept = reader.wants message.chatJid message.content
        message.isBotMessage message.isSteeringMessage := by
      rw [← hchat, ← hcolumns]
      rfl
    have hkeptNew (hwants : wants reader kept = true) (hnew : kept.id ∉ s.returned) :
        Behind reader s kept.timestamp ∧ NoneStoredAfter reader s message := by
      have hcase := htimely (hwanted ▸ hwants)
      rw [if_neg (hid ▸ hnew)] at hcase
      exact ⟨htime ▸ behind_of_inTime hgiven hcase.1, hcase.2⟩
    -- A row is the one just written, or was there before.
    have hunread : ∀ row, row ∈ unread reader { s with
        db := (s.db.persistMessage platform message timestamp).1
        stored := storedAfter reader s message } →
        (row = kept ∧ Behind reader s row.timestamp ∧ NoneStoredAfter reader s message) ∨
          row ∈ unread reader s ∧ ¬ (row.id = message.id ∧ row.chatJid = message.chatJid) := by
      intro row hrow
      obtain ⟨hmem, hwants, hnew⟩ := mem_unread.1 hrow
      rcases (hrows row).1 hmem with rfl | ⟨hold, hother⟩
      · exact Or.inl ⟨rfl, hkeptNew hwants hnew⟩
      · exact Or.inr ⟨mem_unread.2 ⟨hold, hwants, hnew⟩, hother⟩
    have hplace {row : StoredMessage τ} (hrow : row ∈ unread reader s) :
        (storedAfter reader s message).idxOf row.id = s.stored.idxOf row.id :=
      idxOf_storedAfter (Or.inl (hexact.known row (mem_unread.1 hrow).1
        (chat_of_wants (mem_unread.1 hrow).2.1)))
    constructor
    · exact hkeyed
    · intro row hmem hrowChat
      rcases (hrows row).1 hmem with rfl | ⟨hold, -⟩
      · simp only [storedAfter, hid]
        split_ifs with hnew
        · simp
        · by_contra hmissing
          exact hnew ⟨hchat ▸ hrowChat, hmissing⟩
      · exact mem_storedAfter (hexact.known row hold hrowChat)
    · intro row hrow
      rcases hunread row hrow with ⟨-, hbehind, -⟩ | ⟨hold, -⟩
      · exact hbehind.1
      · exact hexact.after row hold
    · intro row hmem hwants hreturned
      rcases (hrows row).1 hmem with rfl | ⟨hold, -⟩
      · have hcase := htimely (hwanted ▸ hwants)
        rw [if_pos (hid ▸ hreturned)] at hcase
        have hpast := not_after_of_past hgiven hcase
        rwa [← htime] at hpast
      · exact hexact.past row hold hwants hreturned
    · intro a ha b hb hlt
      rcases hunread b hb with ⟨rfl, hbehind, -⟩ | ⟨hbold, hbother⟩ <;>
        rcases hunread a ha with ⟨rfl, -, hlast⟩ | ⟨haold, -⟩
      · exact absurd hlt (lt_irrefl _)
      · exact hbehind.2 a haold
      · have hawants := (mem_unread.1 ha).2.1
        have hne : b.id ≠ message.id := fun heq => hbother ⟨heq,
          (chat_of_wants (mem_unread.1 hbold).2.1).trans ((chat_of_wants hawants).symm.trans hchat)⟩
        have hbefore := hlast b hbold hne
        rw [hplace hbold, hid, idxOf_storedAfter (Or.inr rfl)] at hlt
        exact absurd hlt hbefore.not_gt
      · rw [hplace haold, hplace hbold] at hlt
        exact hexact.ordered a haold b hbold hlt
    · exact hexact.once

theorem exact_step (hexact : Exact reader s) {event : ReaderEvent τ}
    (htimely : Timely platform reader s event) : Exact reader (step platform reader s event) := by
  cases event with
  | store message => exact exact_store hexact message htimely
  | delete chatJid rowid => exact exact_delete hexact chatJid rowid
  | read => exact exact_read hexact

theorem exact_run {events : List (ReaderEvent τ)} (hexact : Exact reader s)
    (htimely : AllTimely platform reader s events) :
    Exact reader (run platform reader s events) := by
  induction events generalizing s with
  | nil => exact hexact
  | cons event events ih => exact ih (exact_step hexact htimely.1) htimely.2

end ChatReading

/-- In every run with timely stores a read gives just the present messages that the reader wants
and has not been given, in the order of their first storage, and none is given twice. -/
theorem ChatReading.run_reads_once (platform : MessagePlatform τ) (reader : ChatReader)
    (events : List (ReaderEvent τ)) (htimely : AllTimely platform reader initial events) :
    let s := run platform reader initial events
    (∀ row, row ∈ s.db.getMessagesSince reader s.cursor ↔
        row ∈ s.db.messages ∧ wants reader row = true ∧ row.id ∉ s.returned) ∧
      (s.db.getMessagesSince reader s.cursor).Pairwise
        (fun a b => s.stored.idxOf a.id < s.stored.idxOf b.id) ∧
      s.returned.Nodup := by
  intro s
  have hexact : Exact reader s := exact_run exact_initial htimely
  refine ⟨fun row => ?_, hexact.read_order, hexact.once⟩
  rw [hexact.read_iff, mem_unread]

end Reading

namespace ChatReading

def sampleReader : ChatReader := ⟨"web:default", "Pi"⟩

def sampleMessage (id content timestamp : String) : MessageInput (List Char) where
  id := id
  chatJid := "web:default"
  content := content
  contentBlocks := none
  linkPreviews := none
  threadId := none
  timestamp := timestamp.toList
  isBotMessage := false
  isTerminalAgentReply := false
  isSteeringMessage := false

/-- Two messages of one millisecond, a read, a late message behind the latest, a deletion. -/
theorem run_reads_once_sample :
    (run (isoPlatform fun _ => 0) sampleReader initial
      [.store (sampleMessage "a" "one" "2026-01-01T00:00:00.010Z"),
        .store (sampleMessage "b" "two" "2026-01-01T00:00:00.010Z"), .read,
        .store (sampleMessage "c" "three" "2026-01-01T00:00:00.005Z"),
        .delete "web:default" 1]).returned.Nodup :=
  (run_reads_once (isoPlatform fun _ => 0) sampleReader _ (by decide +kernel)).2.2

/-- The latest message is read and deleted; one with an earlier timestamp is stored then, keeps it
and stays unread. -/
theorem missed_after_deletion :
    let s := run (isoPlatform fun _ => 0) sampleReader initial
      [.store (sampleMessage "a" "one" "2026-01-01T00:00:00.010Z"), .read,
        .delete "web:default" 1, .store (sampleMessage "b" "two" "2026-01-01T00:00:00.005Z")]
    s.db.getMessagesSince sampleReader s.cursor = [] ∧
      (unread sampleReader s).map StoredMessage.id = ["b"] ∧ s.returned = ["a"] := by
  decide +kernel

end ChatReading
end Piclaw
