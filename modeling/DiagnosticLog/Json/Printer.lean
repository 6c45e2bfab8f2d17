import DiagnosticLog.Json
import DiagnosticLog.Json.Quoted

/-!
JSON values as compact text: no blanks, members in their order.
-/

namespace DiagnosticLog.Json

def quoted (s : String) : List Char := '"' :: (escape compactEscapes s.toList ++ ['"'])

mutual

def print : Json → List Char
  | null => ['n', 'u', 'l', 'l']
  | bool true => ['t', 'r', 'u', 'e']
  | bool false => ['f', 'a', 'l', 's', 'e']
  | number n => n.print
  | string s => quoted s
  | array [] => ['[', ']']
  | array (item :: items) => '[' :: (print item ++ printItems items)
  | object [] => ['{', '}']
  | object ((key, value) :: members) =>
    '{' :: (quoted key ++ ':' :: (print value ++ printMembers members))

/-- The items after the first, and the end of the array. -/
def printItems : List Json → List Char
  | [] => [']']
  | item :: items => ',' :: (print item ++ printItems items)

/-- The members after the first, and the end of the object. -/
def printMembers : List (String × Json) → List Char
  | [] => ['}']
  | (key, value) :: members =>
    ',' :: (quoted key ++ ':' :: (print value ++ printMembers members))

end

def compact (j : Json) : String := String.ofList j.print

end DiagnosticLog.Json
