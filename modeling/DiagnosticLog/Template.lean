/-!
Message templates. In a template `%s` stands for the next token and `%1` to `%9` for the token at
that position; every other character stands for itself. A placeholder without a token is left as
it was written, and text that a token brings in is not looked at again. Main statement:
`source_ofChars`, a template loses nothing of the text it was read from.
-/

namespace DiagnosticLog

/-- What one stretch of a template stands for. The position of a token counts from zero. -/
inductive Piece
  | literal (c : Char)
  | next
  | position (n : Nat)
  deriving DecidableEq, Repr

abbrev Template := List Piece

namespace Piece

/-- What `%` followed by this character stands for. -/
def ofMark? (c : Char) : Option Piece :=
  if c = 's' then some next
  else if '1' ≤ c ∧ c ≤ '9' then some (position (c.toNat - '1'.toNat))
  else none

def source : Piece → List Char
  | literal c => [c]
  | next => ['%', 's']
  | position n => ['%', Char.ofNat ('1'.toNat + n)]

theorem source_of_ofMark? {c : Char} {p : Piece} (h : ofMark? c = some p) :
    p.source = ['%', c] := by
  unfold ofMark? at h
  split at h
  · rename_i hs
    cases h
    simp [source, hs]
  · split at h
    · rename_i hd
      cases h
      have hle : '1'.toNat ≤ c.toNat := hd.1
      simp only [source, Nat.add_sub_cancel' hle, Char.ofNat_toNat]
    · cases h

end Piece

namespace Template

def ofChars : List Char → Template
  | [] => []
  | [c] => [.literal c]
  | c :: d :: rest =>
    if c = '%' then
      match Piece.ofMark? d with
      | some p => p :: ofChars rest
      | none => .literal c :: ofChars (d :: rest)
    else .literal c :: ofChars (d :: rest)

def ofString (text : String) : Template := ofChars text.toList

def source (t : Template) : List Char := t.flatMap Piece.source

/-- The text of the token, or the placeholder itself if there is no such token. -/
def fill (tokens : List String) (n : Nat) (p : Piece) : List Char :=
  match tokens[n]? with
  | some token => token.toList
  | none => p.source

/-- Expands a template in which `used` sequential placeholders came before. -/
def expandFrom (tokens : List String) (used : Nat) : Template → List Char
  | [] => []
  | .literal c :: rest => c :: expandFrom tokens used rest
  | .next :: rest => fill tokens used .next ++ expandFrom tokens (used + 1) rest
  | .position n :: rest => fill tokens n (.position n) ++ expandFrom tokens used rest

def expand (t : Template) (tokens : List String) : String :=
  String.ofList (expandFrom tokens 0 t)

theorem source_ofChars (cs : List Char) : source (ofChars cs) = cs := by
  fun_induction ofChars cs with
  | case1 => rfl
  | case2 c => rfl
  | case3 d rest p hp ih =>
    have ih' : List.flatMap Piece.source (ofChars rest) = rest := ih
    simp [source, Piece.source_of_ofMark? hp, ih']
  | case4 d rest hp ih =>
    have ih' : List.flatMap Piece.source (ofChars (d :: rest)) = d :: rest := ih
    simp [source, Piece.source, ih']
  | case5 c d rest hc ih =>
    have ih' : List.flatMap Piece.source (ofChars (d :: rest)) = d :: rest := ih
    simp [source, Piece.source, ih']

/-- Without tokens every placeholder stays as it was written. -/
theorem expandFrom_no_tokens (used : Nat) (t : Template) : expandFrom [] used t = source t := by
  fun_induction expandFrom [] used t with
  | case1 => rfl
  | case2 used c rest ih => simp [source, Piece.source, ih]
  | case3 used rest ih => simp [source, fill, ih]
  | case4 used n rest ih => simp [source, fill, ih]

theorem expand_no_tokens (text : String) : expand (ofString text) [] = text := by
  simp [expand, expandFrom_no_tokens, ofString, source_ofChars]

end Template

end DiagnosticLog
