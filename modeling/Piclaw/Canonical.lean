import Mathlib

/-!
# Canonical requests and their digests

`canonicaliseRequest` drops the omitted fields, sorts object keys and writes the rest as a
sequence of tokens, one for each punctuation mark or scalar of the canonical JSON text. A
`Platform` supplies what the stores take from their runtime: the SHA-256 digests of a canonical
request and of a lease token, over an arbitrary digest type, and Unicode normalisation. Nothing is
assumed about collisions.
-/

namespace Piclaw

inductive CanonicalJsonValue where
  | null
  | boolean (b : Bool)
  | number (n : ℤ)
  | string (s : String)
  | array (items : List CanonicalJsonValue)
  | object (entries : List (String × CanonicalJsonValue))

inductive CanonicalToken where
  | null
  | boolean (b : Bool)
  | number (n : ℤ)
  | string (s : String)
  | openArray
  | closeArray
  | openObject
  | closeObject
  | key (s : String)
  deriving DecidableEq

def omittedRequestHashFields : List String :=
  ["requestHash", "attempt", "attemptNumber", "leaseToken", "leaseExpiresAt", "traceId",
    "spanId", "traceparent", "tracestate", "tracing", "telemetry"]

/-- The surviving entries in lexical key order, with the canonical text of each value. -/
def canonicalEntries (entries : List (String × List CanonicalToken)) : List CanonicalToken :=
  ((entries.filter (fun e => !omittedRequestHashFields.contains e.1)).insertionSort
    (fun e f => e.1 ≤ f.1)).flatMap (fun e => .key e.1 :: e.2)

mutual

def canonicaliseRequest : CanonicalJsonValue → List CanonicalToken
  | .null => [.null]
  | .boolean b => [.boolean b]
  | .number n => [.number n]
  | .string s => [.string s]
  | .array items => .openArray :: canonicaliseItems items ++ [.closeArray]
  | .object entries =>
    .openObject :: canonicalEntries (canonicaliseValues entries) ++ [.closeObject]

def canonicaliseItems : List CanonicalJsonValue → List CanonicalToken
  | [] => []
  | v :: items => canonicaliseRequest v ++ canonicaliseItems items

def canonicaliseValues : List (String × CanonicalJsonValue) → List (String × List CanonicalToken)
  | [] => []
  | (k, v) :: entries => (k, canonicaliseRequest v) :: canonicaliseValues entries

end

/-- The runtime of one deployment. `δ` stands for the 64-digit lower-case hexadecimal strings,
which `hexDigest` writes out. -/
structure Platform (δ : Type) where
  sha256Canonical : List CanonicalToken → δ
  sha256Text : String → δ
  hexDigest : δ → String
  normalizeNFC : String → String

variable {δ : Type}

def hashCanonicalRequest (P : Platform δ) (value : CanonicalJsonValue) : δ :=
  P.sha256Canonical (canonicaliseRequest value)

def hashToken (P : Platform δ) (token : String) : δ := P.sha256Text token

/-- A digest that shows what it digests. -/
inductive OpenDigest where
  | canonical (tokens : List CanonicalToken)
  | text (s : String)
  deriving DecidableEq

def OpenDigest.hex : OpenDigest → String
  | canonical _ => "request"
  | text s => s

/-- A deployment whose texts are already normalised. -/
def openPlatform : Platform OpenDigest := ⟨.canonical, .text, OpenDigest.hex, id⟩

end Piclaw
