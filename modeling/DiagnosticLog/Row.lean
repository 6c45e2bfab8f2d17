import DiagnosticLog.Json
import DiagnosticLog.Message

/-!
Messages as flat rows for the host. A row has ten fields in a fixed order; a message without a
location has an empty file and zeros. As data a row is an object with the ten keys, or the list of
the ten values, and it is read back from either.
-/

namespace DiagnosticLog

structure Row where
  id : UInt32
  kind : Kind
  severity : Severity
  message : String
  file : String
  readOnly : Bool
  startLine : UInt32
  startColumn : UInt32
  endLine : UInt32
  endColumn : UInt32
  deriving DecidableEq, Repr

namespace Row

def ofMessage (m : Message) : Row :=
  let place := m.location.getD ⟨⟨""⟩, false, 0, 0, 0, 0⟩
  { id := m.id
    kind := m.kind
    severity := m.severity
    message := m.shortText
    file := place.file.text
    readOnly := place.readOnly
    startLine := place.startLine
    startColumn := place.startColumn
    endLine := place.endLine
    endColumn := place.endColumn }

def keys : List String :=
  ["id", "kind", "severity", "message", "file", "read_only", "start_line", "start_col", "end_line",
    "end_col"]

/-- The values of the fields in the order of the keys. The kind goes by its host name. -/
def values (r : Row) : List Json :=
  [.word r.id, .string r.kind.hostName, .string r.severity.label, .string r.message,
    .string r.file, .bool r.readOnly, .word r.startLine, .word r.startColumn, .word r.endLine,
    .word r.endColumn]

def toJson (r : Row) : Json := .object (keys.zip r.values)

def ofValues? : List Json → Option Row
  | [id, kind, severity, message, file, readOnly, startLine, startColumn, endLine, endColumn] => do
    return {
      id := ← id.asWord?
      kind := ← kind.asTag?.bind Kind.ofHostName?
      severity := ← severity.asTag?.bind Severity.ofLabel?
      message := ← message.asString?
      file := ← file.asString?
      readOnly := ← readOnly.asBool?
      startLine := ← startLine.asWord?
      startColumn := ← startColumn.asWord?
      endLine := ← endLine.asWord?
      endColumn := ← endColumn.asWord? }
  | _ => none

/-- Reads a row from an object, in which other keys do not matter, or from the list of its
values. -/
def ofJson? : Json → Option Row
  | .array items => ofValues? items
  | j => (keys.mapM j.get?).bind ofValues?

@[simp] theorem ofValues?_values (r : Row) : ofValues? r.values = some r := by
  simp [ofValues?, values, Json.asTag?, Json.asString?, Json.asBool?, Kind.ofHostName?_hostName,
    Severity.ofLabel?_label]

end Row

end DiagnosticLog
