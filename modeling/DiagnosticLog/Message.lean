import DiagnosticLog.Kind
import DiagnosticLog.Location
import DiagnosticLog.Severity
import DiagnosticLog.Template

/-!
Diagnostics as they are stored. A draft is what a pass reports: a template and its tokens. A
message is a draft with the template expanded and a location, if there is one, attached. Its full
text shows the location in front, and serves as the identity by which repeated messages are
recognised.
-/

namespace DiagnosticLog

structure Draft where
  id : UInt32
  kind : Kind
  severity : Severity
  text : String
  tokens : List String
  deriving DecidableEq, Repr

structure Message where
  id : UInt32
  kind : Kind
  severity : Severity
  shortText : String
  tokens : List String
  location : Option Location
  deriving DecidableEq, Repr

namespace Message

def ofDraft (d : Draft) (location : Option Location) : Message :=
  { id := d.id
    kind := d.kind
    severity := d.severity
    shortText := (Template.ofString d.text).expand d.tokens
    tokens := d.tokens
    location := location }

/-- What stands before the short text: the location in brackets, or nothing. -/
def place : Option Location → String
  | none => ""
  | some l => "[" ++ l.render ++ "] "

def fullText (m : Message) : String := place m.location ++ m.shortText

/-- The full text with the severity in front. -/
def labelledText (m : Message) : String := m.severity.label ++ ": " ++ m.fullText

def isError (m : Message) : Bool := m.severity.isError

def sameLocation : Option Location → Option Location → Bool
  | none, none => true
  | some l, some k => l.same k
  | _, _ => false

/-- Equality in every part, the full text included, with locations compared up to the spelling of
the path. -/
def same (m n : Message) : Bool :=
  m.id == n.id && m.kind == n.kind && m.severity == n.severity && m.shortText == n.shortText &&
    m.fullText == n.fullText && m.tokens == n.tokens && sameLocation m.location n.location

theorem fullText_of_no_location {m : Message} (h : m.location = none) :
    m.fullText = m.shortText := by simp [fullText, place, h]

theorem sameLocation_refl (l : Option Location) : sameLocation l l = true := by
  cases l <;> simp [sameLocation, Location.same_refl]

theorem same_refl (m : Message) : m.same m = true := by simp [same, sameLocation_refl]

end Message

end DiagnosticLog
