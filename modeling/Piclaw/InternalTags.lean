import Piclaw.TextRuns
import Piclaw.Values

/-!
# Internal tags

`stripInternalTags`: the tags of what is paired as Markdown code are hidden behind placeholders, a
depth counter drops what the others enclose, and the placeholders are put back. A loop that moves on
by more than one character carries how many characters it still skips.
-/

namespace Piclaw.InternalTags

open TextRuns

section Replacement

abbrev Text := List Char

/-- `text.indexOf(pattern)`, as what is before and after the first occurrence. -/
def splitFirst (pattern : Text) : Text → Option (Text × Text)
  | [] => none
  | c :: rest =>
    if pattern <+: c :: rest then some ([], (c :: rest).drop pattern.length)
    else (splitFirst pattern rest).map fun (front, back) => (c :: front, back)

def replaceFrom (pattern replacement : Text) : Text → ℕ → Text
  | [], _ => []
  | _ :: rest, skip + 1 => replaceFrom pattern replacement rest skip
  | c :: rest, 0 =>
    if pattern <+: c :: rest then
      replacement ++ replaceFrom pattern replacement rest (pattern.length - 1)
    else c :: replaceFrom pattern replacement rest 0

/-- `text.replaceAll(pattern, replacement)`. -/
def replaceAll (text pattern replacement : Text) : Text := replaceFrom pattern replacement text 0

end Replacement

section Tags

def openTag : Text := "<internal>".toList
def closeTag : Text := "</internal>".toList
def INTERNAL_OPEN_PLACEHOLDER : Text := '\x00' :: ("PICLAW_INTERNAL_OPEN".toList ++ ['\x00'])
def INTERNAL_CLOSE_PLACEHOLDER : Text := '\x00' :: ("PICLAW_INTERNAL_CLOSE".toList ++ ['\x00'])

def protectTags (segment : Text) : Text :=
  replaceAll (replaceAll segment openTag INTERNAL_OPEN_PLACEHOLDER) closeTag
    INTERNAL_CLOSE_PLACEHOLDER

def ticksOf (text : Text) : Text := text.takeWhile (· = '\x60')
def afterTicks (text : Text) : Text := text.dropWhile (· = '\x60')

def protectFrom : Text → ℕ → Text
  | [], _ => []
  | _ :: rest, skip + 1 => protectFrom rest skip
  | c :: rest, 0 =>
    if c ≠ '\x60' then c :: protectFrom rest 0
    else
      let delimiter := ticksOf (c :: rest)
      match splitFirst delimiter (afterTicks (c :: rest)) with
      | none => c :: rest
      | some (inner, _) =>
        let segment := delimiter ++ inner ++ delimiter
        protectTags segment ++ protectFrom rest (segment.length - 1)

def protectInternalTagsInsideMarkdownCode (text : Text) : Text := protectFrom text 0

def restoreProtectedInternalTagPlaceholders (text : Text) : Text :=
  replaceAll (replaceAll text INTERNAL_OPEN_PLACEHOLDER openTag) INTERNAL_CLOSE_PLACEHOLDER closeTag

/-- What the loop keeps from a depth on. -/
def keepFrom : Text → ℕ → ℕ → Text
  | [], _, _ => []
  | _ :: rest, depth, skip + 1 => keepFrom rest depth skip
  | c :: rest, depth, 0 =>
    if openTag <+: c :: rest then keepFrom rest (depth + 1) (openTag.length - 1)
    else if closeTag <+: c :: rest then keepFrom rest (depth - 1) (closeTag.length - 1)
    else if depth = 0 then c :: keepFrom rest depth 0
    else keepFrom rest depth 0

def trim (text : Text) : Text := stripEnds isTrimmed text

def stripInternalTags (text : Text) : Text :=
  trim (restoreProtectedInternalTagPlaceholders
    (keepFrom (protectInternalTagsInsideMarkdownCode text) 0 0))

end Tags

section CodeSpans

def ticks (k : ℕ) : Text := List.replicate k '\x60'

/-- What is before a text's first run of backticks, and each run's length with what follows it. -/
def runs : Text → Text × List (ℕ × Text)
  | [] => ([], [])
  | c :: rest =>
    if c = '\x60' then
      match runs rest with
      | ([], (k, t) :: later) => ([], (k + 1, t) :: later)
      | (front, later) => ([], (1, front) :: later)
    else (c :: (runs rest).1, (runs rest).2)

/-- The parts of a text, with whether they are in a code span: a run of backticks opens one when a
later run has exactly its length, and the first such run closes it. -/
def spans : Option ℕ → List (ℕ × Text) → List (Bool × Text)
  | _, [] => []
  | none, (k, t) :: later =>
    if later.any fun run => decide (run.1 = k) then (true, ticks k ++ t) :: spans (some k) later
    else (false, ticks k ++ t) :: spans none later
  | some k, (j, t) :: later =>
    if j = k then (true, ticks j) :: (false, t) :: spans none later
    else (true, ticks j ++ t) :: spans (some k) later

def segments (text : Text) : List (Bool × Text) :=
  (false, (runs text).1) :: spans none (runs text).2

/-- How many internal blocks are open after a text outside code spans. -/
def depthFrom : Text → ℕ → ℕ → ℕ
  | [], depth, _ => depth
  | _ :: rest, depth, skip + 1 => depthFrom rest depth skip
  | c :: rest, depth, 0 =>
    if openTag <+: c :: rest then depthFrom rest (depth + 1) (openTag.length - 1)
    else if closeTag <+: c :: rest then depthFrom rest (depth - 1) (closeTag.length - 1)
    else depthFrom rest depth 0

/-- What is outside every internal block, without the tags. -/
def visible : ℕ → List (Bool × Text) → Text
  | _, [] => []
  | depth, (true, part) :: parts => (if depth = 0 then part else []) ++ visible depth parts
  | depth, (false, part) :: parts =>
    keepFrom part depth 0 ++ visible (depthFrom part depth 0) parts

def Tagged (text : Text) : Prop := openTag <:+: text ∨ closeTag <:+: text

/-- Where no tag follows, or each run that opens a span for the code is closed by the first later
run of at least its length, and that one has exactly its length; where there is none, no later code
span has a tag. -/
def Paired : Option ℕ → List (ℕ × Text) → Prop
  | _, [] => True
  | none, (k, t) :: later =>
    (¬ Tagged (((k, t) :: later).flatMap fun run => ticks run.1 ++ run.2)) ∨
      ((later.find? fun run => decide (k ≤ run.1)).map Prod.fst = some k ∧
        Paired (some k) later) ∨
      ((∀ run ∈ later, run.1 < k) ∧
        ∀ part ∈ spans none ((k, t) :: later), part.1 = true → ¬ Tagged part.2)
  | some k, (j, _) :: later => if j = k then Paired none later else Paired (some k) later

end CodeSpans

end Piclaw.InternalTags
