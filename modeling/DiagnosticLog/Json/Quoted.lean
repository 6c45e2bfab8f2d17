/-!
The inside of a quoted JSON string. Writing follows a table of escapes, which decides what is
written with a letter after the backslash and what by number; reading takes every escape that the
format knows. Main statements: both tables are complete (`escapes_documentEscapes`,
`escapes_compactEscapes`): they leave neither a quote nor a backslash nor a character below the
space as it is.
-/

namespace DiagnosticLog.Json

/-- Which characters are escaped, and how. -/
structure Escapes where
  letters : List (Char × Char)
  byNumber : Char → Bool

/-- A control character is one of the two control blocks. -/
def isControl (c : Char) : Bool := c.toNat < 0x20 || (0x7F ≤ c.toNat && c.toNat ≤ 0x9F)

/-- The escapes of documents meant for reading: all control characters are escaped. -/
def documentEscapes : Escapes :=
  { letters := [('"', '"'), ('\\', '\\'), ('\n', 'n'), ('\r', 'r'), ('\t', 't')]
    byNumber := isControl }

/-- The escapes of compact text, which are only those that the format demands. -/
def compactEscapes : Escapes :=
  { letters := [('"', '"'), ('\\', '\\'), ('\x08', 'b'), ('\x0c', 'f'), ('\n', 'n'), ('\r', 'r'),
      ('\t', 't')]
    byNumber := fun c => c.toNat < 0x20 }

/-- Four hexadecimal digits, in lower case. -/
def hexDigits (n : Nat) : List Char :=
  [n / 4096 % 16, n / 256 % 16, n / 16 % 16, n % 16].map Nat.digitChar

def escapeChar (e : Escapes) (c : Char) : List Char :=
  match e.letters.lookup c with
  | some letter => ['\\', letter]
  | none => if e.byNumber c then '\\' :: 'u' :: hexDigits c.toNat else [c]

def escape (e : Escapes) (cs : List Char) : List Char := cs.flatMap (escapeChar e)

def hexValue? (c : Char) : Option Nat :=
  if '0' ≤ c ∧ c ≤ '9' then some (c.toNat - '0'.toNat)
  else if 'a' ≤ c ∧ c ≤ 'f' then some (c.toNat - 'a'.toNat + 10)
  else if 'A' ≤ c ∧ c ≤ 'F' then some (c.toNat - 'A'.toNat + 10)
  else none

def readHex : List Char → Option (Nat × List Char)
  | a :: b :: c :: d :: rest => do
    let a ← hexValue? a
    let b ← hexValue? b
    let c ← hexValue? c
    let d ← hexValue? d
    return (((a * 16 + b) * 16 + c) * 16 + d, rest)
  | _ => none

/-- The character that stands behind these two halves of a surrogate pair. -/
def joinSurrogates (high low : Nat) : Char :=
  Char.ofNat (0x10000 + (high - 0xD800) * 0x400 + (low - 0xDC00))

/-- Reads the number of a character. A number between D800 and DFFF is half of a character; the
other half has to follow. -/
def readNumbered (cs : List Char) : Option (Char × List Char) :=
  match readHex cs with
  | none => none
  | some (n, rest) =>
    if n < 0xD800 ∨ 0xDFFF < n then some (Char.ofNat n, rest)
    else if n < 0xDC00 then
      match rest with
      | '\\' :: 'u' :: more =>
        match readHex more with
        | none => none
        | some (m, rest) =>
          if 0xDC00 ≤ m ∧ m ≤ 0xDFFF then some (joinSurrogates n m, rest) else none
      | _ => none
    else none

/-- The characters that a letter after a backslash can stand for. -/
def letterEscapes : List (Char × Char) :=
  [('"', '"'), ('\\', '\\'), ('/', '/'), ('b', '\x08'), ('f', '\x0c'), ('n', '\n'), ('r', '\r'),
    ('t', '\t')]

def readEscaped : List Char → Option (Char × List Char)
  | [] => none
  | c :: rest =>
    if c = 'u' then readNumbered rest
    else (letterEscapes.lookup c).map fun d => (d, rest)

/-- Reads one character of a quoted string, or its closing quote. -/
def readChar : List Char → Option (Option Char × List Char)
  | [] => none
  | c :: rest =>
    if c = '"' then some (none, rest)
    else if c = '\\' then (readEscaped rest).map fun (d, rest) => (some d, rest)
    else if c.toNat < 0x20 then none
    else some (some c, rest)

theorem length_readHex {cs rest : List Char} {n : Nat} (h : readHex cs = some (n, rest)) :
    rest.length < cs.length := by
  unfold readHex at h
  split at h
  · simp only [Option.bind_eq_bind, Option.bind_eq_some_iff, Option.pure_def, Option.some.injEq,
      Prod.mk.injEq] at h
    obtain ⟨_, _, _, _, _, _, _, _, _, rfl⟩ := h
    simp only [List.length_cons]
    omega
  · cases h

theorem length_readNumbered {cs rest : List Char} {c : Char}
    (h : readNumbered cs = some (c, rest)) : rest.length < cs.length := by
  unfold readNumbered at h
  split at h
  · cases h
  · rename_i n r hn
    have hr := length_readHex hn
    split at h
    · simp only [Option.some.injEq, Prod.mk.injEq] at h
      exact h.2 ▸ hr
    · split at h
      · split at h
        · rename_i more _
          split at h
          · cases h
          · rename_i m r' hm
            have hm' := length_readHex hm
            split at h
            · simp only [Option.some.injEq, Prod.mk.injEq] at h
              rw [← h.2]
              simp only [List.length_cons] at hr
              omega
            · cases h
        · cases h
      · cases h

theorem length_readEscaped {cs rest : List Char} {c : Char}
    (h : readEscaped cs = some (c, rest)) : rest.length < cs.length := by
  cases cs with
  | nil => cases h
  | cons d r =>
    simp only [readEscaped] at h
    split at h
    · have := length_readNumbered h
      simp only [List.length_cons]
      omega
    · simp only [Option.map_eq_some_iff, Prod.mk.injEq] at h
      obtain ⟨_, _, _, rfl⟩ := h
      simp

theorem length_readChar {cs rest : List Char} {c : Option Char}
    (h : readChar cs = some (c, rest)) : rest.length < cs.length := by
  cases cs with
  | nil => cases h
  | cons d r =>
    simp only [readChar] at h
    split at h
    · cases h
      simp
    · split at h
      · simp only [Option.map_eq_some_iff] at h
        obtain ⟨⟨x, r'⟩, hx, h⟩ := h
        cases h
        have := length_readEscaped hx
        simp only [List.length_cons]
        omega
      · split at h <;> cases h
        simp

/-- Reads up to the closing quote, and gives what comes after it. -/
def readQuoted (cs : List Char) : Option (List Char × List Char) :=
  match h : readChar cs with
  | none => none
  | some (none, rest) => some ([], rest)
  | some (some c, rest) =>
    have : rest.length < cs.length := length_readChar h
    (readQuoted rest).map fun (text, rest) => (c :: text, rest)
termination_by cs.length

/-- Nothing that a quoted string may not hold is left as it is. -/
def Escapes.Complete (e : Escapes) : Prop :=
  ∀ c : Char, c = '"' ∨ c = '\\' ∨ c.toNat < 0x20 → (e.letters.lookup c).isSome ∨ e.byNumber c

theorem escapes_documentEscapes : documentEscapes.Complete := by
  rintro c (rfl | rfl | h)
  · exact Or.inl rfl
  · exact Or.inl rfl
  · exact Or.inr (by simp [documentEscapes, isControl, h])

theorem escapes_compactEscapes : compactEscapes.Complete := by
  rintro c (rfl | rfl | h)
  · exact Or.inl rfl
  · exact Or.inl rfl
  · exact Or.inr (by simp [compactEscapes, h])

theorem escape_append (e : Escapes) (cs ds : List Char) :
    escape e (cs ++ ds) = escape e cs ++ escape e ds := by simp [escape]

end DiagnosticLog.Json
