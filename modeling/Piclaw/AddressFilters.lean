import Piclaw.Values

/-!
# Address filters

Two filters that keep requests away from private addresses, the one of public avatar sources and the
one of link previews, and the standard reading of an address's text that both start from. An IPv6
address is the list of its eight groups.
-/

namespace Piclaw.AddressFilters

section Numbers

def digitValue (c : Char) : Option ℕ :=
  if '0'.toNat ≤ c.toNat ∧ c.toNat ≤ '9'.toNat then some (c.toNat - '0'.toNat)
  else if 'a'.toNat ≤ c.toNat ∧ c.toNat ≤ 'f'.toNat then some (c.toNat - 'a'.toNat + 10)
  else if 'A'.toNat ≤ c.toNat ∧ c.toNat ≤ 'F'.toNat then some (c.toNat - 'A'.toNat + 10)
  else none

def isDigitOf (radix : ℕ) (c : Char) : Bool := (digitValue c).any fun d => decide (d < radix)

def digitsValue (radix : ℕ) (cs : List Char) : ℕ :=
  cs.foldl (fun v c => radix * v + (digitValue c).getD 0) 0

def unsigned (radix : ℕ) (cs : List Char) : Option ℕ :=
  let cs := match cs with
    | '0' :: 'x' :: rest | '0' :: 'X' :: rest => if radix = 16 then rest else cs
    | _ => cs
  let digits := cs.takeWhile (isDigitOf radix)
  if digits = [] then none else some (digitsValue radix digits)

/-- `Number.parseInt`: the digits after blanks and a sign, whatever follows them. -/
def parseInt (radix : ℕ) (cs : List Char) : Option ℤ :=
  match cs.dropWhile isTrimmed with
  | '-' :: rest => (unsigned radix rest).map fun n => -(n : ℤ)
  | '+' :: rest => (unsigned radix rest).map fun n => (n : ℤ)
  | rest => (unsigned radix rest).map fun n => (n : ℤ)

def lower (cs : List Char) : List Char := cs.map Char.toLower

end Numbers

section Texts

/-- A decimal number up to 255 without leading zeros. -/
def isOctet (cs : List Char) : Bool :=
  !cs.isEmpty && cs.all (isDigitOf 10) && decide (digitsValue 10 cs ≤ 255) &&
    (decide (cs.length = 1) || decide (cs.head? ≠ some '0'))

def octets (cs : List Char) : Option (List ℕ) :=
  let parts := cs.splitOn '.'
  if parts.length = 4 ∧ parts.all isOctet then some (parts.map (digitsValue 10)) else none

def isHextet (cs : List Char) : Bool :=
  !cs.isEmpty && decide (cs.length ≤ 4) && cs.all (isDigitOf 16)

/-- The two groups of a dotted tail. -/
def dottedGroups : List ℕ → List ℕ
  | [a, b, c, d] => [256 * a + b, 256 * c + d]
  | _ => []

def hextets (pieces : List (List Char)) : Option (List ℕ) :=
  if pieces.all isHextet then some (pieces.map (digitsValue 16)) else none

/-- Groups that may end with a dotted tail. -/
def tailGroups : List (List Char) → Option (List ℕ)
  | [] => some []
  | [last] => if isHextet last then some [digitsValue 16 last] else (octets last).map dottedGroups
  | piece :: pieces =>
    if isHextet piece then (tailGroups pieces).map (digitsValue 16 piece :: ·) else none

/-- The text before and after its first `::`. -/
def breakDouble : List Char → Option (List Char × List Char)
  | ':' :: ':' :: rest => some ([], rest)
  | c :: rest => (breakDouble rest).map fun (front, back) => (c :: front, back)
  | [] => none

def pieces (cs : List Char) : List (List Char) := if cs = [] then [] else cs.splitOn ':'

/-- The eight groups of an address's text; `::` stands for at least one group. -/
def groups (cs : List Char) : Option (List ℕ) :=
  match breakDouble cs with
  | none => do
    let all ← tailGroups (pieces cs)
    if all.length = 8 then some all else none
  | some (front, back) => do
    let front ← hextets (pieces front)
    let back ← tailGroups (pieces back)
    if front.length + back.length ≤ 7 then
      some (front ++ List.replicate (8 - (front.length + back.length)) 0 ++ back)
    else none

def zoneCharacter (c : Char) : Bool := c.isAlphanum || c = '-' || c = '.' || c = ':'

def zoneValid : List Char → Bool
  | [] => true
  | [_] => false
  | _ :: zone => zone.all zoneCharacter

/-- `net.isIP`. -/
def isIP (cs : List Char) : ℕ :=
  if (octets cs).isSome then 4
  else if (groups (cs.takeWhile (· ≠ '%'))).isSome && zoneValid (cs.dropWhile (· ≠ '%')) then 6
  else 0

end Texts

section PublicUrls

def parseIpv4 (host : List Char) : Option (List ℤ) :=
  let parts := (host.splitOn '.').map (parseInt 10)
  if parts.length = 4 ∧ parts.all (fun part => part.any fun n => decide (0 ≤ n ∧ n ≤ 255)) then
    some (parts.map fun part => part.getD 0)
  else none

def blockedIpv4 (host : List Char) : Bool :=
  match parseIpv4 host with
  | some [a, b, _, _] =>
    decide (a = 0 ∨ a = 10 ∨ a = 127 ∨ (a = 169 ∧ b = 254) ∨ (a = 172 ∧ 16 ≤ b ∧ b ≤ 31) ∨
      (a = 192 ∧ b = 168) ∨ (a = 100 ∧ 64 ≤ b ∧ b ≤ 127) ∨ (a = 198 ∧ (b = 18 ∨ b = 19)))
  | _ => false

def firstGroup (host : List Char) : ℕ :=
  let first := ((lower host).splitOn ':').headD []
  ((parseInt 16 (if first = [] then ['0'] else first)).getD 0).toNat

def blockedAddress (host : List Char) : Bool :=
  if isIP host = 4 then blockedIpv4 host
  else if isIP host ≠ 6 then false
  else if lower host = "::".toList ∨ lower host = "::1".toList then true
  else if "::ffff:".toList <+: lower host then blockedIpv4 ((lower host).drop 7)
  else decide (firstGroup host &&& 0xfe00 = 0xfc00) || decide (firstGroup host &&& 0xffc0 = 0xfe80)

/-- The parts of a parsed URL that the filter reads. -/
structure HttpUrl where
  protocol : String
  username : String
  password : String
  hostname : List Char
  deriving DecidableEq

/-- `[` at the start and `]` at the end are removed. -/
def stripBrackets (host : List Char) : List Char :=
  let host := if host.head? = some '[' then host.tail else host
  if host.getLast? = some ']' then host.dropLast else host

/-- `parsed` is `new URL(raw)`; `lookup` has no answer where it rejects. -/
def validatePublicHttpUrl (lookup : List Char → Option (List (List Char)))
    (parsed : Option HttpUrl) : Option HttpUrl := do
  let url ← parsed
  if url.username ≠ "" ∨ url.password ≠ "" ∨ (url.protocol ≠ "https:" ∧ url.protocol ≠ "http:") then
    none
  else
    let host := stripBrackets (lower url.hostname)
    if host = "localhost".toList ∨ ".localhost".toList <:+ host ∨ ".local".toList <:+ host ∨
        blockedAddress host = true then none
    else
      match lookup host with
      | none => none
      | some addresses =>
        if addresses = [] ∨ addresses.any blockedAddress then none else some url

end PublicUrls

section Previews

/-- `Number(part)` of the parts that reach it: an address's text has only digits there. -/
def partNumber (part : List Char) : Option ℕ :=
  if part ≠ [] ∧ part.all (isDigitOf 10) then some (digitsValue 10 part) else none

def parseIPv4 (ip : List Char) : Option (List ℕ) :=
  let parts := (ip.splitOn '.').map partNumber
  if parts.length = 4 ∧ parts.all (fun part => part.any fun n => decide (n ≤ 255)) then
    some (parts.map fun part => part.getD 0)
  else none

def isPrivateIPv4 (ip : List Char) : Bool :=
  match parseIPv4 ip with
  | some [a, b, c, _] =>
    decide (a = 0 ∨ a = 10 ∨ a = 127 ∨ (a = 100 ∧ 64 ≤ b ∧ b ≤ 127) ∨ (a = 169 ∧ b = 254) ∨
      (a = 172 ∧ 16 ≤ b ∧ b ≤ 31) ∨ (a = 192 ∧ b = 0 ∧ c = 0) ∨ (a = 192 ∧ b = 0 ∧ c = 2) ∨
      (a = 192 ∧ b = 168) ∨ (a = 198 ∧ (b = 18 ∨ b = 19)) ∨ (a = 198 ∧ b = 51 ∧ c = 100) ∨
      (a = 203 ∧ b = 0 ∧ c = 113) ∨ 224 ≤ a)
  | _ => false

/-- What follows the last colon. -/
def afterColon (cs : List Char) : List Char := (cs.splitOn ':').getLastD []

def isPrivateIPv6 (ip : List Char) : Bool :=
  let lower := lower ip
  if lower = "::".toList ∨ lower = "::1".toList then true
  else if "fe80:".toList <+: lower ∨ "fec0:".toList <+: lower then true
  else if "fc".toList <+: lower ∨ "fd".toList <+: lower then true
  else if "2001:db8".toList <+: lower then true
  else if ':' ∈ lower ∧ '.' ∈ afterColon lower then isPrivateIPv4 (afterColon lower)
  else false

def isPrivateIp (ip : List Char) : Bool :=
  if isIP ip = 4 then isPrivateIPv4 ip
  else if isIP ip = 6 then isPrivateIPv6 ip
  else true

end Previews

end Piclaw.AddressFilters
