import Mathlib

/-!
# The text of a canonical request

`canonicaliseRequest` as the text that is hashed. A text is the list of its UTF-16 code units, which
is also how keys are compared. A finite number is kept as the shortest decimal that rounds to it,
the one that `Number::toString` prints: distinct numbers have distinct ones.
-/

namespace Piclaw.CanonicalText

section Values

abbrev Units := List ℕ

def units (s : String) : Units := s.toList.map Char.toNat

/-- `significand * 10 ^ exponent` without trailing zeros, and the two zeros. -/
structure FiniteNumber where
  negative : Bool
  significand : ℕ
  exponent : ℤ
  canonical : (significand = 0 ∧ exponent = 0) ∨ significand % 10 ≠ 0
  deriving DecidableEq

inductive CanonicalJsonValue where
  | null
  | boolean (b : Bool)
  | number (x : FiniteNumber)
  | string (s : Units)
  | array (items : List CanonicalJsonValue)
  | object (entries : List (Units × Option CanonicalJsonValue))

def omittedRequestHashFields : List Units :=
  ["requestHash", "attempt", "attemptNumber", "leaseToken", "leaseExpiresAt", "traceId",
    "spanId", "traceparent", "tracestate", "tracing", "telemetry"].map units

/-- `OMITTED_REQUEST_HASH_FIELD_SET.has`. -/
def omittedRequestHashField (key : Units) : Bool := decide (key ∈ omittedRequestHashFields)

end Values

section Numbers

def decimalDigits (n : ℕ) : Units := (Nat.digits 10 n).reverse.map (48 + ·)

/-- `JSON.stringify` of a natural number. -/
def natText (n : ℕ) : Units := if n = 0 then [48] else decimalDigits n

/-- `Number::toString` of a positive number with these digits, the point after `n` of them. -/
def numeral (digits : Units) (n : ℤ) : Units :=
  let k : ℤ := digits.length
  if k ≤ n ∧ n ≤ 21 then digits ++ List.replicate (n - k).toNat 48
  else if 0 < n ∧ n ≤ 21 then digits.take n.toNat ++ 46 :: digits.drop n.toNat
  else if -6 < n ∧ n ≤ 0 then 48 :: 46 :: (List.replicate (-n).toNat 48 ++ digits)
  else
    digits.take 1 ++ (if k = 1 then [] else 46 :: digits.drop 1) ++
      101 :: (if 0 ≤ n - 1 then 43 else 45) :: natText (n - 1).natAbs

/-- A number that is not zero has its sign; both zeros are `0`. -/
def numberText (x : FiniteNumber) : Units :=
  if x.significand = 0 then [48]
  else
    (if x.negative then [45] else []) ++
      numeral (decimalDigits x.significand)
        (x.exponent + (decimalDigits x.significand).length)

end Numbers

section Strings

def hexDigit (d : ℕ) : ℕ := if d < 10 then 48 + d else 87 + d

/-- `\u` and four hexadecimal digits. -/
def unicodeEscape (u : ℕ) : Units :=
  [92, 117, hexDigit (u / 4096 % 16), hexDigit (u / 256 % 16), hexDigit (u / 16 % 16),
    hexDigit (u % 16)]

def highSurrogate (u : ℕ) : Bool := decide (0xD800 ≤ u) && decide (u ≤ 0xDBFF)
def lowSurrogate (u : ℕ) : Bool := decide (0xDC00 ≤ u) && decide (u ≤ 0xDFFF)

/-- The escape of a unit that is no half of a pair. -/
def escapeUnit (u : ℕ) : Units :=
  if u = 8 then [92, 98]
  else if u = 9 then [92, 116]
  else if u = 10 then [92, 110]
  else if u = 12 then [92, 102]
  else if u = 13 then [92, 114]
  else if u = 34 then [92, 34]
  else if u = 92 then [92, 92]
  else if u < 32 ∨ highSurrogate u ∨ lowSurrogate u then unicodeEscape u
  else [u]

/-- Surrogates stay as they are in pairs only. -/
def escape : Units → Units
  | [] => []
  | [u] => escapeUnit u
  | u :: v :: rest =>
    if highSurrogate u && lowSurrogate v then u :: v :: escape rest
    else escapeUnit u ++ escape (v :: rest)

def quote (s : Units) : Units := 34 :: (escape s ++ [34])

end Strings

section Requests

/-- Texts between two brackets, with commas. -/
def enclosed (opening closing : ℕ) (texts : List Units) : Units :=
  opening :: ([44].intercalate texts ++ [closing])

/-- The entries that are defined and not omitted, in the order of their keys. -/
def survivingEntries (entries : List (Units × Option Units)) : List (Units × Units) :=
  (entries.filterMap fun e =>
    if omittedRequestHashField e.1 then none else e.2.map fun text => (e.1, text)).insertionSort
      fun a b => a.1 ≤ b.1

mutual

def canonicaliseRequest : CanonicalJsonValue → Units
  | .null => units "null"
  | .boolean b => if b then units "true" else units "false"
  | .number x => numberText x
  | .string s => quote s
  | .array items => enclosed 91 93 (canonicaliseItems items)
  | .object entries =>
    enclosed 123 125 ((survivingEntries (canonicaliseEntries entries)).map fun e =>
      quote e.1 ++ 58 :: e.2)

def canonicaliseItems : List CanonicalJsonValue → List Units
  | [] => []
  | v :: items => canonicaliseRequest v :: canonicaliseItems items

def canonicaliseEntries :
    List (Units × Option CanonicalJsonValue) → List (Units × Option Units)
  | [] => []
  | (k, none) :: entries => (k, none) :: canonicaliseEntries entries
  | (k, some v) :: entries => (k, some (canonicaliseRequest v)) :: canonicaliseEntries entries

end

example : canonicaliseRequest (.object [(units "b", some (.number ⟨true, 0, 0, .inl ⟨rfl, rfl⟩⟩)),
      (units "traceId", some .null), (units "a", some (.array [.string [0xD83D, 10]])),
      (units "c", none)]) =
    units "\x7b\"a\":[\"\\ud83d\\n\"],\"b\":0\x7d" := by
  decide +kernel

end Requests

end Piclaw.CanonicalText
