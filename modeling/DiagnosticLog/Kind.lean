/-!
The phase that reported a diagnostic. A kind is written in four ways: its label in rendered text,
its name in data, and the label and the name that the host uses. The host calls the run-time phase
a simulation; otherwise the vocabularies agree.
-/

namespace DiagnosticLog

inductive Kind
  | syntactic
  | grammatical
  | translating
  | symbolic
  | runtime
  | scripting
  deriving DecidableEq, Repr

namespace Kind

def all : List Kind := [syntactic, grammatical, translating, symbolic, runtime, scripting]

def ordinal : Kind → Nat
  | syntactic => 0
  | grammatical => 1
  | translating => 2
  | symbolic => 3
  | runtime => 4
  | scripting => 5

def label : Kind → String
  | syntactic => "SYNTAX"
  | grammatical => "GRAMMAR"
  | translating => "TRANSLATION"
  | symbolic => "SYMBOLIC"
  | runtime => "RUNTIME"
  | scripting => "SCRIPTING"

def name : Kind → String
  | syntactic => "Syntax"
  | grammatical => "Grammar"
  | translating => "Translation"
  | symbolic => "Symbolic"
  | runtime => "Runtime"
  | scripting => "Scripting"

def hostLabel : Kind → String
  | runtime => "SIMULATION"
  | kind => kind.label

def hostName : Kind → String
  | runtime => "Simulation"
  | kind => kind.name

def ofOrdinal? (n : Int) : Option Kind := all.find? fun k => k.ordinal == n

def ofLabel? (text : String) : Option Kind := all.find? fun k => k.label == text

def ofHostName? (text : String) : Option Kind := all.find? fun k => k.hostName == text

/-- The text shown for an ordinal that no kind has. -/
def unknownLabel : String := "#Internal Error: Unknown ErrorType#"

def labelOfOrdinal (n : Int) : String := ((ofOrdinal? n).map label).getD unknownLabel

theorem ofOrdinal?_ordinal (k : Kind) : ofOrdinal? k.ordinal = some k := by
  cases k <;> rfl

theorem ofLabel?_label (k : Kind) : ofLabel? k.label = some k := by
  cases k <;> decide

theorem ofHostName?_hostName (k : Kind) : ofHostName? k.hostName = some k := by
  cases k <;> decide

end Kind

end DiagnosticLog
