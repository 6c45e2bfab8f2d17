import DiagnosticLog.Json.Numeral

/-!
JSON values. The members of an object keep their order, and a key may occur more than once; the
last occurrence counts.
-/

namespace DiagnosticLog

inductive Json
  | null
  | bool (value : Bool)
  | number (value : Json.Numeral)
  | string (value : String)
  | array (items : List Json)
  | object (members : List (String × Json))
  deriving Repr

namespace Json

def nat (n : Nat) : Json := number (Numeral.ofNat n)

def word (n : UInt32) : Json := nat n.toNat

/-- The member with this key, if the value is an object that has one. -/
def get? (key : String) : Json → Option Json
  | object members => (members.reverse.find? fun m => m.1 == key).map Prod.snd
  | _ => none

def asBool? : Json → Option Bool
  | bool b => some b
  | _ => none

def asString? : Json → Option String
  | string s => some s
  | _ => none

/-- The name of an alternative that carries no data: the name alone, or the name as the one key of
an object, with nothing under it. -/
def asTag? : Json → Option String
  | string s => some s
  | object [(key, null)] => some key
  | _ => none

def asArray? : Json → Option (List Json)
  | array items => some items
  | _ => none

def asNat? : Json → Option Nat
  | number n => n.toNat?
  | _ => none

/-- A natural number that fits in 32 bits. -/
def asWord? (j : Json) : Option UInt32 :=
  match j.asNat? with
  | none => none
  | some n => if n < UInt32.size then some (UInt32.ofNat n) else none

@[simp] theorem asNat?_nat (n : Nat) : (nat n).asNat? = some n := by simp [nat, asNat?]

@[simp] theorem asWord?_word (n : UInt32) : (word n).asWord? = some n := by
  simp [asWord?, word, n.toNat_lt_size]

end Json

end DiagnosticLog
