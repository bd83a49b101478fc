import Piclaw.Utf8Decoding

/-!
# The remote shell

One command on a persistent remote shell. What it prints arrives in chunks that the shell keeps;
after each chunk the text of them all is searched for the line of the command's end marker. Both
searches are anchored at line boundaries, so a text is searched line by line.
-/

namespace Piclaw.RemoteShell

open Utf8Decoding

section Parsing

/-- `text.replace(/\r\n/g, "\n")`. -/
def normalise : Text → Text
  | '\r' :: '\n' :: rest => '\n' :: normalise rest
  | c :: rest => c :: normalise rest
  | [] => []

def digitsNumber (digits : Text) : ℕ := digits.foldl (fun v c => 10 * v + (c.toNat - 48)) 0

/-- What `(-?\d+)` matches, as a number. Exit codes are far below the bound of exact numbers. -/
def exitNumber : Text → Option ℤ
  | '-' :: digits =>
    if digits ≠ [] ∧ digits.all Char.isDigit then some (-(digitsNumber digits : ℤ)) else none
  | digits => if digits ≠ [] ∧ digits.all Char.isDigit then some (digitsNumber digits : ℤ) else none

/-- The exit code in the line of the end marker. -/
def endCode (endMarker line : Text) : Option ℤ :=
  if endMarker ++ [':'] <+: line then exitNumber (line.drop (endMarker.length + 1)) else none

/-- The output since the last start line, after one more line. -/
def enterLine (startMarker : Text) (output : Option Text) (line : Text) : Option Text :=
  if line = startMarker then some [] else output.map (· ++ line ++ ['\n'])

/-- The first end line decides, with the last start line before it. -/
def scanLines (startMarker endMarker : Text) : Option Text → List Text → Option (Text × ℤ)
  | _, [] => none
  | output, line :: lines =>
    match endCode endMarker line with
    | some code => output.map fun text => (text, code)
    | none => scanLines startMarker endMarker (enterLine startMarker output line) lines

def parseDelimitedShellOutput (stdoutText startMarker endMarker : Text) : Option (Text × ℤ) :=
  scanLines startMarker endMarker none ((normalise stdoutText).splitOn '\n')

end Parsing

section Shell

structure RunningCommand where
  startMarker : Text
  endMarker : Text
  stdoutChunks : List Bytes
  stderrChunks : List Bytes
  timedOut : Bool
  aborted : Bool

inductive Outcome where
  | resolved (exitCode : ℤ)
  | timeout
  | aborted
  deriving DecidableEq

/-- The shell and what its command's caller has been given. -/
structure Shell where
  running : Option RunningCommand
  stdoutData : List Text
  stderrData : List Text
  outcome : Option Outcome

inductive Event where
  | stdout (chunk : Bytes)
  | stderr (chunk : Bytes)

/-- The time and a random number in hexadecimal digits, with `_` between them. -/
abbrev Unique := {t : Text // ∀ c ∈ t, c.isAlphanum = true ∨ c = '_'}

def startMarker (unique : Unique) : Text :=
  "__PICLAW_SSH_BEGIN_".toList ++ unique.1 ++ "__".toList

def endMarker (unique : Unique) : Text :=
  "__PICLAW_SSH_DONE_".toList ++ unique.1 ++ "__".toList

/-- The shell after `execOne` has written its command. -/
def execOne (unique : Unique) : Shell :=
  ⟨some ⟨startMarker unique, endMarker unique, [], [], false, false⟩, [], [], none⟩

def tryCompleteRunning (shell : Shell) : Shell :=
  match shell.running with
  | none => shell
  | some running =>
    match parseDelimitedShellOutput (decode running.stdoutChunks.flatten) running.startMarker
        running.endMarker with
    | none => shell
    | some (output, exitCode) =>
      let stderrText := decode running.stderrChunks.flatten
      { running := none
        stdoutData := if output = [] then shell.stdoutData else shell.stdoutData ++ [output]
        stderrData := if stderrText = [] then shell.stderrData else shell.stderrData ++ [stderrText]
        outcome := some (if running.timedOut then .timeout
          else if running.aborted then .aborted else .resolved exitCode) }

def handleStdout (chunk : Bytes) (shell : Shell) : Shell :=
  match shell.running with
  | none => shell
  | some running =>
    tryCompleteRunning
      { shell with
        running := some { running with stdoutChunks := running.stdoutChunks ++ [chunk] } }

def handleStderr (chunk : Bytes) (shell : Shell) : Shell :=
  match shell.running with
  | none => shell
  | some running =>
    { shell with running := some { running with stderrChunks := running.stderrChunks ++ [chunk] } }

def handle (shell : Shell) : Event → Shell
  | .stdout chunk => handleStdout chunk shell
  | .stderr chunk => handleStderr chunk shell

def stdoutBytes : List Event → Bytes
  | [] => []
  | .stdout chunk :: events => chunk ++ stdoutBytes events
  | .stderr _ :: events => stdoutBytes events

/-- The decimal digits of an exit code. -/
def exitDigits (n : ℕ) : Text :=
  if n = 0 then ['0'] else (Nat.digits 10 n).reverse.map Nat.digitChar

/-- What the command prints before its exit code. -/
def commandBytes (unique : Unique) (output : Text) : Bytes :=
  encode (startMarker unique) ++ 10 :: (encode output ++ 10 :: encode (endMarker unique ++ [':']))

/-- The byte stream of a command, after what was printed earlier. -/
def printed (unique : Unique) (earlier : Bytes) (output : Text) (n : ℕ) : Bytes :=
  earlier ++ (commandBytes unique output ++ (encode (exitDigits n) ++ [10]))

end Shell

end Piclaw.RemoteShell
