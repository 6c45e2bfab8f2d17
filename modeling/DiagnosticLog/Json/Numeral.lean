/-!
Numbers of JSON as they are written: a sign, a whole part, and the digits of a fraction and an
exponent where there are any. Main statements: a run of digits is read whole
(`readDigits_append`), and a whole part in decimal reads back (`readWhole_toDigits`).
-/

namespace DiagnosticLog.Json

/-- The digits of the fraction and the signed digits of the exponent are empty where the number
has none. -/
structure Numeral where
  negative : Bool
  whole : Nat
  fraction : List Char
  exponent : List Char
  deriving DecidableEq, Repr

namespace Numeral

def ofNat (n : Nat) : Numeral := ⟨false, n, [], []⟩

/-- The natural number that is written without sign, fraction or exponent. -/
def toNat? (n : Numeral) : Option Nat :=
  if n.negative ∨ n.fraction ≠ [] ∨ n.exponent ≠ [] then none else some n.whole

def print (n : Numeral) : List Char :=
  (if n.negative then ['-'] else []) ++ Nat.toDigits 10 n.whole ++
    (if n.fraction = [] then [] else '.' :: n.fraction) ++
    (if n.exponent = [] then [] else 'e' :: n.exponent)

/-- At least one digit, and nothing else. -/
def Digits (cs : List Char) : Prop := cs ≠ [] ∧ ∀ c ∈ cs, c.isDigit = true

/-- A run of digits and what comes after it; there has to be a digit. -/
def readDigits (cs : List Char) : Option (List Char × List Char) :=
  match cs.takeWhile Char.isDigit with
  | [] => none
  | digits => some (digits, cs.dropWhile Char.isDigit)

/-- The digits of a whole part, which has no needless zero in front. -/
def readWhole (cs : List Char) : Option (Nat × List Char) :=
  match readDigits cs with
  | none => none
  | some ('0' :: _ :: _, _) => none
  | some (digits, rest) => some (Nat.ofDigitChars 10 digits 0, rest)

def readFraction : List Char → Option (List Char × List Char)
  | '.' :: rest => readDigits rest
  | rest => some ([], rest)

def readSigned : List Char → Option (List Char × List Char)
  | '+' :: rest => readDigits rest
  | '-' :: rest => (readDigits rest).map fun (digits, rest) => ('-' :: digits, rest)
  | rest => readDigits rest

def readExponent : List Char → Option (List Char × List Char)
  | 'e' :: rest => readSigned rest
  | 'E' :: rest => readSigned rest
  | rest => some ([], rest)

def readSign : List Char → Bool × List Char
  | '-' :: rest => (true, rest)
  | rest => (false, rest)

def read (cs : List Char) : Option (Numeral × List Char) := do
  let (negative, rest) := readSign cs
  let (whole, rest) ← readWhole rest
  let (fraction, rest) ← readFraction rest
  let (exponent, rest) ← readExponent rest
  return (⟨negative, whole, fraction, exponent⟩, rest)

@[simp] theorem toNat?_ofNat (n : Nat) : (ofNat n).toNat? = some n := by simp [ofNat, toNat?]

/-- The characters after a number that is complete without them. -/
def Ends (rest : List Char) : Prop :=
  ∀ c ∈ rest.head?, c.isDigit = false ∧ c ≠ '.' ∧ c ≠ 'e' ∧ c ≠ 'E'

/-- Only the numeral of zero starts with a zero. -/
theorem eq_zero_of_head_toDigits (n : Nat) : ∀ c ∈ (Nat.toDigits 10 n).head?, c = '0' → n = 0 := by
  induction n using Nat.strongRecOn with
  | _ n ih =>
    intro c hc h0
    rw [Nat.toDigits_eq_if (by decide)] at hc
    split at hc
    · rename_i hn
      simp only [List.head?_cons, Option.mem_some_iff] at hc
      subst hc
      revert h0
      have : ∀ k : Nat, k < 10 → k.digitChar = '0' → k = 0 := by decide
      exact this n hn
    · rename_i hn
      have hne : Nat.toDigits 10 (n / 10) ≠ [] := Nat.toDigits_ne_nil
      rw [List.head?_append, List.head?_eq_some_head hne, Option.some_or,
        ← List.head?_eq_some_head hne] at hc
      have := ih (n / 10) (by omega) c hc h0
      omega

theorem digits_toDigits (n : Nat) : Digits (Nat.toDigits 10 n) :=
  ⟨Nat.toDigits_ne_nil, fun _ hc => Nat.isDigit_of_mem_toDigits (by decide) (by decide) hc⟩

theorem readDigits_append {ds rest : List Char} (hds : Digits ds)
    (h : ∀ c ∈ rest.head?, c.isDigit = false) : readDigits (ds ++ rest) = some (ds, rest) := by
  have htake : rest.takeWhile Char.isDigit = [] := by
    cases rest with
    | nil => rfl
    | cons c r => simp [h c (by simp)]
  have hdrop : rest.dropWhile Char.isDigit = rest := by
    cases rest with
    | nil => rfl
    | cons c r => simp [h c (by simp)]
  unfold readDigits
  rw [List.takeWhile_append_of_pos hds.2, List.dropWhile_append_of_pos hds.2, htake, hdrop,
    List.append_nil]
  split
  · exact absurd rfl hds.1
  · rfl

theorem readWhole_toDigits (n : Nat) {rest : List Char}
    (h : ∀ c ∈ rest.head?, c.isDigit = false) :
    readWhole (Nat.toDigits 10 n ++ rest) = some (n, rest) := by
  unfold readWhole
  rw [readDigits_append (digits_toDigits n) h]
  split
  · contradiction
  · rename_i heq
    simp only [Option.some.injEq, Prod.mk.injEq] at heq
    have h0 : n = 0 := eq_zero_of_head_toDigits n '0' (by simp [heq.1]) rfl
    subst h0
    simp at heq
  · rename_i heq
    simp only [Option.some.injEq, Prod.mk.injEq] at heq
    rw [← heq.1, ← heq.2, Nat.ofDigitChars_toDigits (by decide) (by decide)]

theorem readSign_toDigits (n : Nat) (rest : List Char) :
    readSign (Nat.toDigits 10 n ++ rest) = (false, Nat.toDigits 10 n ++ rest) := by
  unfold readSign
  split
  · rename_i heq
    have hne : Nat.toDigits 10 n ≠ [] := Nat.toDigits_ne_nil
    cases hd : Nat.toDigits 10 n with
    | nil => contradiction
    | cons c cs =>
      have hc : c.isDigit = true := 
        Nat.isDigit_of_mem_toDigits (by decide) (by decide) (hd ▸ List.mem_cons_self)
      rw [hd] at heq
      simp only [List.cons_append, List.cons.injEq] at heq
      rw [heq.1] at hc
      cases hc
  · rfl

end Numeral

end DiagnosticLog.Json
