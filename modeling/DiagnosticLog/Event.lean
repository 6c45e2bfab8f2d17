import DiagnosticLog.Json
import DiagnosticLog.Severity
import DiagnosticLog.Violation

/-!
Events that a store reports about its own work, with a level, a fixed message and named fields.
-/

namespace DiagnosticLog

inductive Level
  | trace
  | debug
  | warning
  | error
  deriving DecidableEq, Repr

def Level.label : Level → String
  | .trace => "TRACE"
  | .debug => "DEBUG"
  | .warning => "WARN"
  | .error => "ERROR"

/-- The ways to empty a log. -/
inductive Emptying
  | clear
  | drain
  deriving DecidableEq, Repr

def Emptying.label : Emptying → String
  | .clear => "clear"
  | .drain => "drain"

inductive Event
  | pushed (id : UInt32) (severity : Severity) (depth : Nat)
  | popped (count remaining : Nat)
  | opened (id : String) (depth : Nat)
  | committed (id : String) (kept : Nat)
  | rolledBack (id : String) (discarded : Nat)
  | emptying (how : Emptying) (checkpoints : Nat) (innermost : String)
  | violated (violation : Violation) (checkpoints : Nat)
  | created (context : String) (echo : Bool)
  | released (context : String) (remaining errors checkpoints : Nat)
  deriving DecidableEq, Repr

namespace Event

def level : Event → Level
  | pushed .. | popped .. => .trace
  | emptying .. => .warning
  | violated .. => .error
  | _ => .debug

def message : Event → String
  | pushed .. => "push diagnostic"
  | popped .. => "popped diagnostics"
  | opened .. => "set checkpoint"
  | committed .. => "commit checkpoint"
  | rolledBack .. => "rollback checkpoint"
  | emptying .. => "emptying diagnostics while checkpoints are open"
  | violated .. => "diagnostic protocol violation"
  | created .. => "creating diagnostic state"
  | released .. => "releasing diagnostic state"

def fields : Event → List (String × Json)
  | pushed id severity depth =>
    [("id", .word id), ("severity", .string severity.label), ("depth", .nat depth)]
  | popped count remaining => [("count", .nat count), ("remaining", .nat remaining)]
  | opened id depth => [("id", .string id), ("depth", .nat depth)]
  | committed id kept => [("id", .string id), ("kept", .nat kept)]
  | rolledBack id discarded => [("id", .string id), ("discarded", .nat discarded)]
  | emptying how checkpoints innermost =>
    [("action", .string how.label), ("open", .nat checkpoints), ("innermost", .string innermost)]
  | violated violation checkpoints =>
    [("violation", .string violation.message), ("checkpoints", .nat checkpoints)]
  | created context echo => [("context", .string context), ("echo", .bool echo)]
  | released context remaining errors checkpoints =>
    [("context", .string context), ("remaining", .nat remaining), ("errors", .nat errors),
      ("open_checkpoints", .nat checkpoints)]

def toJson (e : Event) : Json :=
  .object (("level", .string e.level.label) :: ("message", .string e.message) :: e.fields)

end Event

end DiagnosticLog
