import Piclaw.CanonicalText
import Piclaw.TextRuns
import Piclaw.Values
import Piclaw.Transactions

/-!
# Push subscriptions

The file of stored subscriptions: normalising a subscription, inserting or updating one, the two
caps, removing and pruning. Texts are lists of UTF-16 units, and a time is the number of its
milliseconds, which is what the sorts read from the stored ISO text.
-/

namespace Piclaw.Push

open CanonicalText TextRuns

structure Keys where
  auth : Units
  p256dh : Units
deriving DecidableEq

structure StoredWebPushSubscription where
  endpoint : Units
  expirationTime : Option ℚ
  keys : Keys
  createdAt : ℤ
  updatedAt : ℤ
  userAgent : Option Units
  deviceId : Option Units
  ownerUserId : Option Units
  loginSessionId : Option Units
deriving DecidableEq

/-- A subscription as it is given: a field that is no text counts as missing, and the expiration
time is the number made of it, if that is finite. -/
structure SubscriptionInput where
  endpoint : Option Units
  p256dh : Option Units
  auth : Option Units
  expirationTime : Option ℚ
  deviceId : Option Units

/-- `none` is `undefined`, `some none` is `null`. -/
structure NormalizeOptions where
  now : ℤ
  userAgent : Option Units
  deviceId : Option Units
  ownerUserId : Option (Option Units)
  loginSessionId : Option (Option Units)

def isSpaceUnit (u : ℕ) : Bool := isTrimmed (Char.ofNat u)

def trim (text : Units) : Units := stripEnds isSpaceUnit text

/-- A text with something in it, trimmed. -/
def trimmedText (text : Option Units) : Option Units :=
  (text.map trim).filter (fun text => text ≠ [])

def normalizeScopeValue (value : Option Units) : Option Units :=
  (trimmedText value).filter (fun normalized => decide (normalized.length ≤ 256) &&
    normalized.all (fun code => decide (31 < code ∧ code ≠ 127)))

def validEndpoint (endpoint : Units) : Bool :=
  endpoint ≠ [] && units "https://" <+: endpoint

def normalizeStoredWebPushSubscription (input : SubscriptionInput) (options : NormalizeOptions) :
    Option StoredWebPushSubscription :=
  let endpoint := trim (input.endpoint.getD [])
  let p256dh := trim (input.p256dh.getD [])
  let auth := trim (input.auth.getD [])
  if !validEndpoint endpoint || p256dh = [] || auth = [] then none
  else
    let ownerUserId := normalizeScopeValue options.ownerUserId.join
    let loginSessionId := normalizeScopeValue options.loginSessionId.join
    if ownerUserId.isSome ≠ loginSessionId.isSome ∨
        (options.ownerUserId.isSome || options.loginSessionId.isSome) = true ∧
          (ownerUserId.isNone || loginSessionId.isNone) = true then none
    else
      let deviceId := (trimmedText options.deviceId).or (trimmedText input.deviceId)
      let userAgent := trimmedText options.userAgent
      if 4096 < endpoint.length ∨ 1024 < p256dh.length ∨ 1024 < auth.length ∨
          256 < (deviceId.getD []).length ∨ 512 < (userAgent.getD []).length then none
      else some ⟨endpoint, input.expirationTime, ⟨auth, p256dh⟩, options.now, options.now,
        userAgent, deviceId, ownerUserId, loginSessionId⟩

/-- An entry of the file read back. -/
def readEntry (entry : StoredWebPushSubscription) : Option StoredWebPushSubscription :=
  (normalizeStoredWebPushSubscription
    ⟨some entry.endpoint, some entry.keys.p256dh, some entry.keys.auth, entry.expirationTime,
      entry.deviceId⟩
    ⟨entry.updatedAt, entry.userAgent, entry.deviceId, entry.ownerUserId.map some,
      entry.loginSessionId.map some⟩).map
    (fun normalized => { normalized with createdAt := entry.createdAt })

/-- `listStoredWebPushSubscriptions` without a scope. -/
def listStored (file : List StoredWebPushSubscription) : List StoredWebPushSubscription :=
  file.filterMap readEntry

/-- The order of the endpoints by `localeCompare`, of which the sorts need only that it compares
any two texts and is transitive. -/
structure LocaleOrder where
  le : Units → Units → Bool
  trans : ∀ a b c, le a b = true → le b c = true → le a c = true
  total : ∀ a b, (le a b || le b a) = true

/-- `getMaxStoredWebPushSubscriptions` for the truncated configured number, if it is finite. -/
def maxStored (configuredCap : Option ℤ) : ℕ := (max 1 (configuredCap.getD 32)).toNat

def subscriptionCapPerOwner : ℕ := 8

section Store
variable (locale : LocaleOrder) (maxEntries : ℕ)

/-- The comparison of both sorts: later entries first, and by endpoint at equal times. -/
def before (left right : StoredWebPushSubscription) : Bool :=
  if right.updatedAt ≠ left.updatedAt then decide (right.updatedAt < left.updatedAt)
  else locale.le left.endpoint right.endpoint

def capStored (entries : List StoredWebPushSubscription) : List StoredWebPushSubscription :=
  if entries.length ≤ maxEntries then entries
  else (entries.mergeSort (before locale)).take maxEntries

def capByOwner (entries : List StoredWebPushSubscription) (ownerUserId : Option Units) :
    List StoredWebPushSubscription :=
  if ownerUserId = none then capStored locale maxEntries entries
  else
    let sameOwner := ((entries.filter (fun e => e.ownerUserId = ownerUserId)).mergeSort
      (before locale)).take subscriptionCapPerOwner
    capStored locale maxEntries
      (entries.filter (fun e => !decide (e.ownerUserId = ownerUserId)) ++ sameOwner)

def endpointIndex (entries : List StoredWebPushSubscription)
    (normalized : StoredWebPushSubscription) : Option ℕ :=
  entries.findIdx? (fun e => e.endpoint = normalized.endpoint)

def deviceIndex (entries : List StoredWebPushSubscription)
    (normalized : StoredWebPushSubscription) : Option ℕ :=
  if normalized.deviceId = none then none
  else entries.findIdx? (fun e =>
    e.deviceId = normalized.deviceId && e.ownerUserId = normalized.ownerUserId)

/-- The endpoint belongs to another owner and may not be taken over. -/
def refused (existing normalized : StoredWebPushSubscription) (allowOwnerRebind : Bool) : Bool :=
  existing.ownerUserId ≠ normalized.ownerUserId &&
    (!allowOwnerRebind || existing.keys.auth ≠ normalized.keys.auth ||
      existing.keys.p256dh ≠ normalized.keys.p256dh)

def adoptedDevice (existing normalized : StoredWebPushSubscription) (byEndpoint : Bool) :
    Option Units :=
  if byEndpoint then existing.deviceId.or normalized.deviceId
  else normalized.deviceId.or existing.deviceId

def nextEntry (existing normalized : StoredWebPushSubscription) (byEndpoint : Bool) :
    StoredWebPushSubscription where
  endpoint := normalized.endpoint
  expirationTime := normalized.expirationTime
  keys := normalized.keys
  updatedAt := normalized.updatedAt
  userAgent := normalized.userAgent.or existing.userAgent
  deviceId := adoptedDevice existing normalized byEndpoint
  ownerUserId := normalized.ownerUserId
  loginSessionId := normalized.loginSessionId
  createdAt :=
    if existing.ownerUserId = normalized.ownerUserId then existing.createdAt
    else normalized.createdAt

/-- The entries after the update, before the caps, and the entry that is returned. -/
def merge (entries : List StoredWebPushSubscription) (normalized : StoredWebPushSubscription)
    (allowOwnerRebind : Bool) :
    Option (StoredWebPushSubscription × List StoredWebPushSubscription) :=
  let endpointIndex := endpointIndex entries normalized
  if (endpointIndex.bind (fun i => entries[i]?)).any
      (fun existing => refused existing normalized allowOwnerRebind) then none
  else
    match endpointIndex.or (deviceIndex entries normalized) with
    | some i => (entries[i]?).map (fun existing =>
        let next := nextEntry existing normalized endpointIndex.isSome
        (next, entries.set i next))
    | none => some (normalized, entries ++ [normalized])

/-- `upsertStoredWebPushSubscription`; it throws "Invalid push subscription." where the result is
missing. -/
def upsert (file : List StoredWebPushSubscription) (input : SubscriptionInput)
    (options : NormalizeOptions) (allowOwnerRebind : Bool) :
    Option (StoredWebPushSubscription × List StoredWebPushSubscription) :=
  (normalizeStoredWebPushSubscription input options).bind (fun normalized =>
    (merge (listStored file) normalized allowOwnerRebind).map (fun merged =>
      (merged.1, capByOwner locale maxEntries merged.2 normalized.ownerUserId)))

structure Scope where
  ownerUserId : Units
  loginSessionId : Option Units
  deviceId : Option Units

def removes (normalizedEndpoint : Units) (scope : Option Scope)
    (entry : StoredWebPushSubscription) : Bool :=
  entry.endpoint = normalizedEndpoint && scope.all (fun scope =>
    entry.ownerUserId = some scope.ownerUserId &&
      (scope.loginSessionId.isNone || entry.loginSessionId = scope.loginSessionId) &&
      (scope.deviceId.isNone || entry.deviceId = scope.deviceId))

/-- A file that lost entries is written back, one that did not is left as it is. -/
def writeRemaining (file : List StoredWebPushSubscription)
    (keeps : StoredWebPushSubscription → Bool) : List StoredWebPushSubscription :=
  let entries := listStored file
  let nextEntries := entries.filter keeps
  if nextEntries.length = entries.length then file else nextEntries

def remove (file : List StoredWebPushSubscription) (endpoint : Units) (scope : Option Scope) :
    List StoredWebPushSubscription :=
  let normalizedEndpoint := trim endpoint
  if normalizedEndpoint = [] then file
  else writeRemaining file (fun entry => !removes normalizedEndpoint scope entry)

def pruneStored (file : List StoredWebPushSubscription)
    (predicate : StoredWebPushSubscription → Bool) : List StoredWebPushSubscription :=
  writeRemaining file (fun entry => !predicate entry)

inductive Call
  | upsert (input : SubscriptionInput) (options : NormalizeOptions) (allowOwnerRebind : Bool)
  | remove (endpoint : Units) (scope : Option Scope)
  | prune (predicate : StoredWebPushSubscription → Bool)

def step (file : List StoredWebPushSubscription) : Call → List StoredWebPushSubscription
  | .upsert input options allowOwnerRebind =>
    ((upsert locale maxEntries file input options allowOwnerRebind).map Prod.snd).getD file
  | .remove endpoint scope => remove file endpoint scope
  | .prune predicate => pruneStored file predicate

end Store

end Piclaw.Push
