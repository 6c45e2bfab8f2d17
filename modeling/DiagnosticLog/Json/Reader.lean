import DiagnosticLog.Json
import DiagnosticLog.Json.Quoted

/-!
Reads JSON text. The readers take the characters that are left and give a value with what comes
after it. A reader that spends a step of its budget without taking a character calls one that takes
at least one, so two steps for each character of the text are never exhausted.
-/

namespace DiagnosticLog.Json

def isBlank (c : Char) : Bool := c == ' ' || c == '\t' || c == '\n' || c == '\r'

def skipBlanks (cs : List Char) : List Char := cs.dropWhile isBlank

/-- Reads a string of which the opening quote is the next character. -/
def readString : List Char → Option (String × List Char)
  | '"' :: rest => (readQuoted rest).map fun (text, rest) => (String.ofList text, rest)
  | _ => none

/-- Takes the colon after a key. -/
def readColon (cs : List Char) : Option (List Char) :=
  match skipBlanks cs with
  | ':' :: rest => some rest
  | _ => none

mutual

/-- Reads a value, with blanks in front of it. -/
def readValue : Nat → List Char → Option (Json × List Char)
  | 0, _ => none
  | budget + 1, cs =>
    match skipBlanks cs with
    | 'n' :: 'u' :: 'l' :: 'l' :: rest => some (null, rest)
    | 't' :: 'r' :: 'u' :: 'e' :: rest => some (bool true, rest)
    | 'f' :: 'a' :: 'l' :: 's' :: 'e' :: rest => some (bool false, rest)
    | '"' :: rest =>
      (readQuoted rest).map fun (text, rest) => (string (String.ofList text), rest)
    | '[' :: rest =>
      match skipBlanks rest with
      | ']' :: rest => some (array [], rest)
      | rest => (readItems budget rest).map fun (items, rest) => (array items, rest)
    | '{' :: rest =>
      match skipBlanks rest with
      | '}' :: rest => some (object [], rest)
      | rest => (readMembers budget rest).map fun (members, rest) => (object members, rest)
    | rest => (Numeral.read rest).map fun (n, rest) => (number n, rest)

/-- Reads items, at least one, and the end of the array. -/
def readItems : Nat → List Char → Option (List Json × List Char)
  | 0, _ => none
  | budget + 1, cs =>
    match readValue budget cs with
    | none => none
    | some (item, rest) =>
      match skipBlanks rest with
      | ']' :: rest => some ([item], rest)
      | ',' :: rest => (readItems budget rest).map fun (items, rest) => (item :: items, rest)
      | _ => none

/-- Reads members, at least one, and the end of the object. -/
def readMembers : Nat → List Char → Option (List (String × Json) × List Char)
  | 0, _ => none
  | budget + 1, cs =>
    match readString (skipBlanks cs) with
    | none => none
    | some (key, rest) =>
      match readColon rest with
      | none => none
      | some rest =>
        match readValue budget rest with
        | none => none
        | some (value, rest) =>
          match skipBlanks rest with
          | '}' :: rest => some ([(key, value)], rest)
          | ',' :: rest =>
            (readMembers budget rest).map fun (members, rest) => ((key, value) :: members, rest)
          | _ => none

end

/-- The value that is written, if the characters are one JSON text. -/
def readChars (cs : List Char) : Option Json :=
  match readValue (2 * cs.length + 2) cs with
  | none => none
  | some (value, rest) => if skipBlanks rest = [] then some value else none

def parse (text : String) : Option Json := readChars text.toList

end DiagnosticLog.Json
