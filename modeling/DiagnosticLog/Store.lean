import DiagnosticLog.Dump
import DiagnosticLog.Effect
import DiagnosticLog.Focus
import DiagnosticLog.Settings

/-!
The transactional store of diagnostics: the log of messages, the open checkpoints, the component in
focus, and the settings. Speculative work is wrapped in a checkpoint, which is committed to keep
its messages or rolled back to discard them. Closing any other checkpoint than the innermost ends
the run with a violation, after a report on the unchanged store.
-/

namespace DiagnosticLog

structure Store where
  log : Log
  checkpoints : Checkpoints
  focus : Focus
  settings : Settings
  deriving DecidableEq, Repr

namespace Store

def new (settings : Settings) : Store := ⟨.empty, .empty, .nowhere, settings⟩

def setEcho (echo : Bool) (s : Store) : Store := { s with settings := ⟨echo⟩ }

def focusOn (name : String) (location : Location) (s : Store) : Store :=
  { s with focus := .on name location }

/-- The line for a message that is about to be stored, if messages are echoed. -/
def echoLines (m : Message) (s : Store) : List Output :=
  if s.settings.echo then [.line m.fullText] else []

def push (m : Message) (s : Store) : Effect Output Store :=
  ⟨s.echoLines m ++ [.event (.pushed m.id m.severity s.log.length)],
    .ok { s with log := s.log.push m }⟩

/-- Reports a draft on the component in focus. -/
def report (d : Draft) (s : Store) : Effect Output Store := s.push (s.focus.message d)

/-- Reports a draft at a location; the component in focus does not matter. -/
def reportAt (d : Draft) (location : Location) (s : Store) : Effect Output Store :=
  s.push (Message.ofDraft d (some location))

/-- Ends the run: the event and then the report go out, and nothing comes after. -/
def fail {α : Type} (violation : Violation) (s : Store) : Effect Output α :=
  Effect.fail
    (.event (.violated violation s.checkpoints.length) ::
      (Dump.lines violation s.checkpoints.innermostFirst s.log.messages).map .line)
    violation

/-- Pops groups until the log is no higher than the floor. The removed messages come newest
first. -/
def unwind (floor : Option Nat) (s : Store) : Effect Output (List Message × Store) :=
  if floor.getD 0 < s.log.length then
    match h : s.log.pop floor with
    | none => s.fail .emptyLog
    | some (removed, left) =>
      have : left.length < s.log.length := Log.length_lt_of_pop h
      do
        Effect.put [.event (.popped removed.length left.length)]
        let (more, s) ← unwind floor { s with log := left }
        return (removed ++ more, s)
  else return ([], s)
termination_by s.log.length

def openCheckpoint (id : String) (s : Store) : Effect Output Store :=
  ⟨[.event (.opened id s.log.length)],
    .ok { s with checkpoints := s.checkpoints.push id s.log.length }⟩

/-- The innermost checkpoint, which has to have this name. -/
def requireTop (how : Closing) (id : String) (s : Store) : Effect Output Checkpoint :=
  match s.checkpoints.expectTop id with
  | .ok cp => .done cp
  | .error mismatch => s.fail (.ofMismatch how id mismatch)

def commit (id : String) (s : Store) : Effect Output Store := do
  let _ ← s.requireTop .commit id
  let s := { s with checkpoints := s.checkpoints.commit.2 }
  Effect.put [.event (.committed id s.log.length)]
  return s

/-- Closes a checkpoint and discards the messages above its depth, which come oldest first. -/
def rollBack (how : Closing) (id : String) (s : Store) :
    Effect Output (List Message × Store) := do
  let cp ← s.requireTop how id
  let (removed, s) ← s.unwind (some cp.depth)
  let s := { s with checkpoints := s.checkpoints.pop.2 }
  Effect.put [.event (.rolledBack id removed.length)]
  return (removed.reverse, s)

/-- The warning that goes out when messages are taken away from under open checkpoints. -/
def emptyingWarning (how : Emptying) (s : Store) : List Output :=
  match s.checkpoints.top?, s.log.newestFirst with
  | some cp, _ :: _ => [.event (.emptying how s.checkpoints.length cp.id)]
  | _, _ => []

/-- Takes all messages off the log; they come oldest first. -/
def emptyLog (how : Emptying) (s : Store) : Effect Output (List Message × Store) := do
  Effect.put (s.emptyingWarning how)
  let (removed, s) ← s.unwind none
  return (removed.reverse, s)

/-- The full texts of messages, one a line. -/
def fullTexts (ms : List Message) : String := "\n".intercalate (ms.map Message.fullText)

end Store

end DiagnosticLog
