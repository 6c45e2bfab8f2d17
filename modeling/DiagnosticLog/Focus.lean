import DiagnosticLog.Message

/-!
The component that a pass is working on. Drafts reported while a component is in focus are
attributed to it: they mention its name and take its location. The mention is put in front of the
template, so a placeholder in the name of a component is a placeholder like any other.
-/

namespace DiagnosticLog

/-- An empty name means that no component is in focus. -/
structure Focus where
  name : String
  location : Option Location
  deriving DecidableEq, Repr

namespace Focus

def nowhere : Focus := ⟨"", none⟩

/-- Focuses on a component; a location without coordinates is dropped. -/
def on (name : String) (location : Location) : Focus :=
  ⟨name, if location.hasCoordinates then some location else none⟩

def annotate (f : Focus) (text : String) : String :=
  if f.name = "" then text else "Variable " ++ f.name ++ ": " ++ text

/-- The message that a draft becomes when it is reported with this focus. -/
def message (f : Focus) (d : Draft) : Message :=
  Message.ofDraft { d with text := f.annotate d.text } f.location

theorem location_on {name : String} {location l : Location} :
    (on name location).location = some l ↔ location = l ∧ location.hasCoordinates = true := by
  by_cases h : location.hasCoordinates = true <;> simp [on, h]

end Focus

end DiagnosticLog
