import DiagnosticLog.Path

/-!
Where in a file a diagnostic belongs. Lines and columns count from one; a location whose four
coordinates are all zero stands for no location at all, which is the caller's business: it is
rendered like any other.
-/

namespace DiagnosticLog

structure Location where
  file : Path
  readOnly : Bool
  startLine : UInt32
  startColumn : UInt32
  endLine : UInt32
  endColumn : UInt32
  deriving DecidableEq, Repr

namespace Location

def hasCoordinates (l : Location) : Bool :=
  l.startLine != 0 || l.startColumn != 0 || l.endLine != 0 || l.endColumn != 0

def access (readOnly : Bool) : String := if readOnly then "readonly" else "writable"

/-- Written `file:line:column-line:column:access`. -/
def render (l : Location) : String :=
  l.file.text ++ ":" ++ l.startLine.toNat.repr ++ ":" ++ l.startColumn.toNat.repr ++ "-" ++
    l.endLine.toNat.repr ++ ":" ++ l.endColumn.toNat.repr ++ ":" ++ access l.readOnly

/-- Equality up to the spelling of the path. -/
def same (l m : Location) : Bool :=
  l.file.same m.file && l.readOnly == m.readOnly && l.startLine == m.startLine &&
    l.startColumn == m.startColumn && l.endLine == m.endLine && l.endColumn == m.endColumn

theorem same_refl (l : Location) : l.same l = true := by simp [same, Path.same_refl]

end Location

end DiagnosticLog
