import DiagnosticLog.Json
import DiagnosticLog.Location

/-!
Locations as data: an object with six keys in a fixed order.
-/

namespace DiagnosticLog.Location

def keys : List String :=
  ["file", "is_read_only", "start_line", "start_col", "end_line", "end_col"]

def values (l : Location) : List Json :=
  [.string l.file.text, .bool l.readOnly, .word l.startLine, .word l.startColumn, .word l.endLine,
    .word l.endColumn]

def toJson (l : Location) : Json := .object (keys.zip l.values)

end DiagnosticLog.Location
