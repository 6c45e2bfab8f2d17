/-!
File paths. A path is kept as it was written, and that spelling is what is printed. Two spellings
can name the same path: they are compared by components, so that repeated and trailing slashes and
`.` components do not count. A leading `.` of a relative path does count, and `..` is an ordinary
component that is never resolved.
-/

namespace DiagnosticLog

structure Path where
  text : String
  deriving DecidableEq, Repr

/-- What a path consists of: where it starts, and the names it goes through. -/
structure Components where
  absolute : Bool
  names : List String
  deriving DecidableEq, Repr

namespace Path

/-- The pieces between slashes, empty ones included. -/
def segments : List Char → List (List Char)
  | [] => [[]]
  | c :: rest =>
    if c = '/' then [] :: segments rest
    else match segments rest with
      | [] => [[c]]
      | first :: more => (c :: first) :: more

def isName (segment : List Char) : Bool := segment != [] && segment != ['.']

def components (p : Path) : Components :=
  let pieces := segments p.text.toList
  let names := pieces.filter isName
  { absolute := p.text.toList.head? == some '/'
    names := ((if pieces.head? = some ['.'] then [['.']] else []) ++ names).map String.ofList }

/-- Whether two spellings name the same path. -/
def same (p q : Path) : Bool := p.components == q.components

theorem same_refl (p : Path) : p.same p = true := by simp [same]

end Path

end DiagnosticLog
