/-!
How serious a diagnostic is. Every severity has an ordinal and a label, and a second label in the
vocabulary of the host that shows the diagnostics. Ordinals and labels are injective, so a severity
can be read back from either.
-/

namespace DiagnosticLog

inductive Severity
  | error
  | warning
  | notification
  deriving DecidableEq, Repr

namespace Severity

def all : List Severity := [error, warning, notification]

def ordinal : Severity → Nat
  | error => 0
  | warning => 1
  | notification => 2

def label : Severity → String
  | error => "Error"
  | warning => "Warning"
  | notification => "Notification"

/-- The tag under which the host knows the severity. -/
def hostLabel : Severity → String
  | error => "ERROR"
  | warning => "WARNING"
  | notification => "NOTIFICATION"

def isError : Severity → Bool
  | error => true
  | _ => false

def ofOrdinal? (n : Int) : Option Severity := all.find? fun s => s.ordinal == n

def ofLabel? (text : String) : Option Severity := all.find? fun s => s.label == text

/-- The text shown for an ordinal that no severity has. -/
def unknownLabel : String := "#Internal Error: Unknown ErrorLevel#"

def labelOfOrdinal (n : Int) : String := ((ofOrdinal? n).map label).getD unknownLabel

theorem ofOrdinal?_ordinal (s : Severity) : ofOrdinal? s.ordinal = some s := by
  cases s <;> rfl

theorem ofLabel?_label (s : Severity) : ofLabel? s.label = some s := by
  cases s <;> decide

theorem isError_iff {s : Severity} : s.isError = true ↔ s = error := by
  cases s <;> simp [isError]

end Severity

end DiagnosticLog
