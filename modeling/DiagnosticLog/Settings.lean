import DiagnosticLog.Text.Blank

/-!
Settings of a store. The one setting is whether every message is echoed as it is pushed. A variable
of the environment can switch it on; its value is read as a flag, in any case and with blanks
around it. A value that is not text counts as no value.
-/

namespace DiagnosticLog

structure Settings where
  echo : Bool
  deriving DecidableEq, Repr

namespace Settings

def quiet : Settings := ⟨false⟩

/-- Whether the value of a flag switches it on. -/
def isOn (value : String) : Bool :=
  ["1", "true", "yes", "on"].contains
    (String.ofList ((Text.trim value.toList).map Char.toLower))

def ofEnvironment (value : Option ByteArray) : Settings :=
  match value.bind String.fromUTF8? with
  | none => quiet
  | some text => ⟨isOn text⟩

end Settings

end DiagnosticLog
