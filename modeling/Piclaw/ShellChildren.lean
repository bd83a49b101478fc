import Mathlib.Logic.Function.Basic
import Piclaw.ShellRuns

/-!
# The children of the persistent shell

One child process at a time, one running command, an interrupt that is written into the child's
stdin, and a timer that kills the child. The remote shell runs without a terminal: it reads its
lines in order, and an interrupt is one more character of the line it stands in.
-/

namespace Piclaw

open Utf8Decoding RemoteShell

namespace PersistentShell

section Model

/-- What a caller asks for: the number in its markers, and what it prints and exits with, if it
ends. -/
structure Command where
  unique : Unique
  output : Text
  exitCode : Option ℕ

inductive Input
  | interrupt
  | line (command : Command)

/-- A child process: what it has been written and has not read, and what it has printed and has
not delivered. A busy one is in a command that does not end. -/
structure Child where
  killed : Bool
  closed : Bool
  busy : Bool
  stdin : List Input
  stdout : Bytes

inductive HardStop
  | unset
  | armed
  | fired
  deriving DecidableEq

/-- The running command, with the child it was started on. -/
structure Running where
  command : Command
  child : ℕ
  aborted : Bool
  timedOut : Bool
  hardStop : HardStop
  stdoutChunks : List Bytes

inductive Result
  | resolved (exitCode : ℤ) (output : Text)
  | timeout
  | aborted
  | closed
  | disposed
  deriving DecidableEq

structure Settled where
  running : Running
  result : Result

structure Shell where
  disposed : Bool
  spawned : ℕ
  children : ℕ → Child
  child : Option ℕ
  running : Option Running
  settled : List Settled

namespace Shell

def initial : Shell where
  disposed := false
  spawned := 0
  children _ := ⟨false, false, false, [], []⟩
  child := none
  running := none
  settled := []

variable (s : Shell)

def setChild (c : ℕ) (child : Child) : Shell :=
  { s with children := Function.update s.children c child }

/-- A new child. The lines that set it up print nothing. -/
def spawn : Shell :=
  { s.setChild s.spawned ⟨false, false, false, [], []⟩ with
    spawned := s.spawned + 1
    child := some s.spawned }

/-- The child that a command is started on. -/
def ensureStarted : ℕ × Shell :=
  match s.child with
  | some c => if (s.children c).killed then (s.spawned, s.spawn) else (c, s)
  | none => (s.spawned, s.spawn)

def write (c : ℕ) (input : Input) : Shell :=
  s.setChild c { s.children c with stdin := (s.children c).stdin ++ [input] }

def kill (c : ℕ) : Shell := s.setChild c { s.children c with killed := true }

def interruptCurrentCommand : Shell :=
  match s.child with
  | some c => if (s.children c).killed then s else s.write c .interrupt
  | none => s

def scheduleHardStop (graceMs : ℕ) (running : Running) : Running :=
  if running.hardStop = .unset ∧ 0 < graceMs then { running with hardStop := .armed } else running

/-- Both the abort handler and the timeout, after they have set their flag. -/
def interrupt (graceMs : ℕ) (running : Running) : Shell :=
  { s.interruptCurrentCommand with running := some (scheduleHardStop graceMs running) }

/-- A signal that is aborted already interrupts the shell before the command is written, and then
it is not written. -/
def execOne (graceMs : ℕ) (command : Command) (aborted : Bool) : Shell :=
  let (c, s) := s.ensureStarted
  let running := ⟨command, c, aborted, false, .unset, []⟩
  if aborted then s.interrupt graceMs running
  else { s.write c (.line command) with running := some running }

def settle (running : Running) (result : Result) : Shell :=
  { s with running := none, settled := s.settled ++ [⟨running, result⟩] }

/-- What the caller is told when its command has ended, or its child. -/
def outcome (running : Running) (result : Result) : Result :=
  if running.timedOut then .timeout else if running.aborted then .aborted else result

/-- The chunk is taken for the running command's, whichever child it came from. -/
def handleStdout (chunk : Bytes) : Shell :=
  match s.running with
  | none => s
  | some running =>
    let running := { running with stdoutChunks := running.stdoutChunks ++ [chunk] }
    match parseDelimitedShellOutput (decode running.stdoutChunks.flatten)
        (startMarker running.command.unique) (endMarker running.command.unique) with
    | none => { s with running := some running }
    | some (output, exitCode) => s.settle running (outcome running (.resolved exitCode output))

/-- The next line of the input, and whether an interrupt stands in front of it. -/
def nextLine : List Input → Option (Bool × Command × List Input)
  | [] => none
  | .interrupt :: rest => (nextLine rest).map fun (_, command, rest) => (true, command, rest)
  | .line command :: rest => some (false, command, rest)

/-- An interrupt in front of the line spoils its first word, the `printf` of the start marker. -/
def lineOutput (interrupted : Bool) (command : Command) : Bytes :=
  (if interrupted then [] else encode (startMarker command.unique) ++ [10]) ++
    (encode command.output ++
      match command.exitCode with
      | none => []
      | some n =>
        10 :: encode (endMarker command.unique ++ [':']) ++ (encode (exitDigits n) ++ [10]))

/-- The remote shell reads and runs its next line. -/
def read (c : ℕ) : Shell :=
  match nextLine (s.children c).stdin with
  | none => s
  | some (interrupted, command, rest) =>
    s.setChild c { s.children c with
      stdin := rest
      busy := command.exitCode.isNone
      stdout := (s.children c).stdout ++ lineOutput interrupted command }

def data (c n : ℕ) : Shell :=
  (s.setChild c { s.children c with stdout := (s.children c).stdout.drop n }).handleStdout
    ((s.children c).stdout.take n)

/-- The listener of a child's end looks at the running command and at the shell's child, not at
whose end it is. -/
def close (c : ℕ) : Shell :=
  let s := s.setChild c { s.children c with closed := true }
  match s.running with
  | none => { s with child := none }
  | some running => { s.settle running (outcome running .closed) with child := none }

def hardStop : Shell :=
  match s.child with
  | none => s
  | some c => s.kill c

def dispose : Shell :=
  let s := match s.running with
    | none => s
    | some running => s.settle running .disposed
  { s.hardStop with disposed := true, child := none }

inductive Event
  | exec (command : Command) (aborted : Bool)
  | abort
  | timeout
  | hardStop
  | read (c : ℕ)
  | data (c n : ℕ)
  | close (c : ℕ)
  | dispose

/-- The queue starts a command when the last one is settled. An event that cannot happen changes
nothing. -/
def step (graceMs : ℕ) (s : Shell) : Event → Shell
  | .exec command aborted =>
    if s.disposed ∨ s.running.isSome then s else s.execOne graceMs command aborted
  | .abort =>
    match s.running with
    | none => s
    | some running => s.interrupt graceMs { running with aborted := true }
  | .timeout =>
    match s.running with
    | none => s
    | some running =>
      if running.timedOut then s else s.interrupt graceMs { running with timedOut := true }
  | .hardStop =>
    match s.running with
    | none => s
    | some running =>
      if running.hardStop = .armed then
        { s.hardStop with running := some { running with hardStop := .fired } }
      else s
  | .read c =>
    if c < s.spawned ∧ (s.children c).closed = false ∧ (s.children c).busy = false then s.read c
    else s
  | .data c n =>
    if (s.children c).closed = false ∧ 0 < n ∧ n ≤ (s.children c).stdout.length then s.data c n
    else s
  | .close c => if c < s.spawned ∧ (s.children c).closed = false then s.close c else s
  | .dispose => s.dispose

def run (graceMs : ℕ) (s : Shell) (events : List Event) : Shell := events.foldl (step graceMs) s

end Shell

end Model

section Statements

def Child.Alive (child : Child) : Prop := child.killed = false ∧ child.closed = false

/-- Neither aborted nor timed out. -/
def Running.Undisturbed (running : Running) : Prop :=
  running.aborted = false ∧ running.timedOut = false

namespace Shell

/-- The command's child has bytes to deliver or a line to read. -/
def Proceeds (s : Shell) (running : Running) : Prop :=
  (s.children running.child).stdout ≠ [] ∨
    ((s.children running.child).busy = false ∧
      (nextLine (s.children running.child).stdin).isSome)

/-- Every undisturbed command on a live child has its own result, or its child still has something
to do for it. A command that does not end has no result. -/
structure OwnResults (s : Shell) : Prop where
  settled : ∀ e ∈ s.settled, e.running.Undisturbed → (s.children e.running.child).Alive →
    ∃ n, e.running.command.exitCode = some n ∧
      e.result = .resolved n (normalise (e.running.command.output ++ ['\n']))
  pending : ∀ running, s.running = some running → running.Undisturbed →
    (s.children running.child).Alive → running.command.exitCode.isSome → s.Proceeds running

/-- What has been read ends between two digits of the exit code. -/
def SplitsCode (unique : Unique) (seen rest : Bytes) : Prop :=
  ∃ front digits, digits ≠ [] ∧ digits.all Char.isDigit = true ∧
    seen = front ++ (encode (endMarker unique ++ [':']) ++ encode digits) ∧
    ∃ d more, rest = d :: more ∧ 48 ≤ d ∧ d ≤ 57

/-- No command is written behind an interrupt, none prints its own markers, and while a command
runs only its child delivers bytes or ends, and never half of an exit code. -/
def Orderly (s : Shell) : Event → Prop
  | .exec command aborted =>
    (¬ startMarker command.unique <:+: command.output ∧
      ¬ endMarker command.unique <:+: command.output) ∧
    (aborted = false → ∀ c, s.child = some c → (s.children c).killed = false →
      ∀ input ∈ (s.children c).stdin, input ≠ .interrupt)
  | .data c n => ∀ running, s.running = some running → s.child = some c ∧
    ¬ SplitsCode running.command.unique
      (running.stdoutChunks.flatten ++ (s.children c).stdout.take n)
      ((s.children c).stdout.drop n)
  | .close c => s.running.isSome → s.child = some c
  | _ => True

def OrderlyRun (graceMs : ℕ) : Shell → List Event → Prop
  | _, [] => True
  | s, event :: events => s.Orderly event ∧ OrderlyRun graceMs (s.step graceMs event) events

end Shell

end Statements

end PersistentShell
end Piclaw
