import DiagnosticLog.Json.Quoted
import DiagnosticLog.Row

/-!
Writes rows as the items of one JSON array, laid out for reading. The writer remembers whether an
item has been written before, because items are separated by commas; it never forgets, so it is
made for a single array.
-/

namespace DiagnosticLog

structure Document where
  first : Bool
  text : String
  flushes : Nat
  deriving DecidableEq, Repr

namespace Document

def blank : Document := ⟨true, "", 0⟩

def write (s : String) (d : Document) : Document := { d with text := d.text ++ s }

def quoted (s : String) : String :=
  "\"" ++ String.ofList (Json.escape Json.documentEscapes s.toList) ++ "\""

/-- The values of a row as they are written. Kind and severity go by their host labels. -/
def valueTexts (r : Row) : List String :=
  [r.id.toNat.repr, quoted r.kind.hostLabel, quoted r.severity.hostLabel, quoted r.message,
    quoted r.file, if r.readOnly then "true" else "false", r.startLine.toNat.repr,
    r.startColumn.toNat.repr, r.endLine.toNat.repr, r.endColumn.toNat.repr]

def memberLine (key value : String) : String := "    \"" ++ key ++ "\": " ++ value

def item (r : Row) : String :=
  "  \x7b\n" ++ ",\n".intercalate (List.zipWith memberLine Row.keys (valueTexts r)) ++ "\n  \x7d"

def start (d : Document) : Document := d.write "[\n"

def finish (d : Document) : Document := d.write "\n]\n"

def emit (m : Message) (d : Document) : Document :=
  let separated := if d.first then d else d.write ",\n"
  { separated with first := false }.write (item (Row.ofMessage m))

def emitAll (ms : List Message) (d : Document) : Document := ms.foldl (fun d m => d.emit m) d

/-- Flushing writes nothing; it is only counted. -/
def flush (d : Document) : Document := { d with flushes := d.flushes + 1 }

/-- The document that a fresh writer makes of these messages. -/
def ofMessages (ms : List Message) : String := (blank.start.emitAll ms).finish.text

end Document

end DiagnosticLog
