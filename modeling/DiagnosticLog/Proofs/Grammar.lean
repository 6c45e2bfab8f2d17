import DiagnosticLog.Json
import DiagnosticLog.Json.Quoted

/-!
The grammar of JSON texts, given apart from any reader or writer. A text is related to the value
that it spells: a character of a quoted string may stand for itself, or be escaped by a letter or
by its number; a number has a sign, a whole part without needless zeros, and digits of a fraction
and of an exponent; and blanks may stand around every value and key. The grammar says which texts
are well-formed and what each of them means.
-/

namespace DiagnosticLog.Json

/-- Spaces, tabs and the two characters that end lines. -/
def Blanks (cs : List Char) : Prop := ∀ c ∈ cs, c = ' ' ∨ c = '\t' ∨ c = '\n' ∨ c = '\r'

namespace Numeral

inductive SpellsFraction : List Char → List Char → Prop
  | none : SpellsFraction [] []
  | point {ds : List Char} (h : Digits ds) : SpellsFraction ('.' :: ds) ds

inductive SpellsExponent : List Char → List Char → Prop
  | none : SpellsExponent [] []
  | bare {mark : Char} {ds : List Char} (hmark : mark = 'e' ∨ mark = 'E') (h : Digits ds) :
      SpellsExponent (mark :: ds) ds
  | plus {mark : Char} {ds : List Char} (hmark : mark = 'e' ∨ mark = 'E') (h : Digits ds) :
      SpellsExponent (mark :: '+' :: ds) ds
  | minus {mark : Char} {ds : List Char} (hmark : mark = 'e' ∨ mark = 'E') (h : Digits ds) :
      SpellsExponent (mark :: '-' :: ds) ('-' :: ds)

def signText (negative : Bool) : List Char := if negative then ['-'] else []

/-- The text is this number. The whole part is written in decimal, as numbers are. -/
inductive Spells : List Char → Numeral → Prop
  | parts {fs es fraction exponent : List Char} (negative : Bool) (whole : Nat)
      (hfraction : SpellsFraction fs fraction) (hexponent : SpellsExponent es exponent) :
      Spells (signText negative ++ (Nat.toDigits 10 whole ++ (fs ++ es)))
        ⟨negative, whole, fraction, exponent⟩

theorem spells_toDigits (n : Nat) : Spells (Nat.toDigits 10 n) (ofNat n) := by
  simpa [signText, ofNat] using Spells.parts false n .none .none

end Numeral

/-- Four hexadecimal digits, of either case, and the number they write. -/
inductive SpellsHex : List Char → Nat → Prop
  | digits {a b c d : Char} {x y z w : Nat} (ha : hexValue? a = some x) (hb : hexValue? b = some y)
      (hc : hexValue? c = some z) (hd : hexValue? d = some w) :
      SpellsHex [a, b, c, d] (((x * 16 + y) * 16 + z) * 16 + w)

/-- The text stands for this character inside quotes. A character beyond the first 65536 is escaped
as the two halves of a pair, and half a pair stands for nothing. -/
inductive SpellsChar : List Char → Char → Prop
  | plain {c : Char} (hcontrol : 0x20 ≤ c.toNat) (hquote : c ≠ '"') (hslash : c ≠ '\\') :
      SpellsChar [c] c
  | letter {l c : Char} (h : (l, c) ∈ letterEscapes) : SpellsChar ['\\', l] c
  | number {ds : List Char} {n : Nat} (h : SpellsHex ds n) (hn : n < 0xD800 ∨ 0xDFFF < n) :
      SpellsChar ('\\' :: 'u' :: ds) (Char.ofNat n)
  | pair {ds es : List Char} {high low : Nat} (hhigh : SpellsHex ds high) (hlow : SpellsHex es low)
      (hh : 0xD800 ≤ high ∧ high < 0xDC00) (hl : 0xDC00 ≤ low ∧ low ≤ 0xDFFF) :
      SpellsChar ('\\' :: 'u' :: (ds ++ '\\' :: 'u' :: es)) (joinSurrogates high low)

/-- The text between two quotes stands for these characters. -/
inductive SpellsChars : List Char → List Char → Prop
  | nil : SpellsChars [] []
  | cons {cs ds : List Char} {c : Char} {s : List Char} (h : SpellsChar cs c)
      (hs : SpellsChars ds s) : SpellsChars (cs ++ ds) (c :: s)

inductive SpellsString : List Char → String → Prop
  | quotes {cs : List Char} {s : String} (h : SpellsChars cs s.toList) :
      SpellsString ('"' :: (cs ++ ['"'])) s

/-- What a stretch of text can be. An element is a value with blanks around it, a member a key with
an element. -/
inductive Phrase
  | value (j : Json)
  | element (j : Json)
  | elements (list : List Json)
  | member (m : String × Json)
  | members (list : List (String × Json))

inductive Spells : List Char → Phrase → Prop
  | nullText : Spells ['n', 'u', 'l', 'l'] (.value .null)
  | trueText : Spells ['t', 'r', 'u', 'e'] (.value (.bool true))
  | falseText : Spells ['f', 'a', 'l', 's', 'e'] (.value (.bool false))
  | number {cs : List Char} {n : Numeral} (h : n.Spells cs) : Spells cs (.value (.number n))
  | string {cs : List Char} {s : String} (h : SpellsString cs s) : Spells cs (.value (.string s))
  | emptyArray {ws : List Char} (h : Blanks ws) : Spells ('[' :: (ws ++ [']'])) (.value (.array []))
  | array {cs : List Char} {js : List Json} (h : Spells cs (.elements js)) :
      Spells ('[' :: (cs ++ [']'])) (.value (.array js))
  | emptyObject {ws : List Char} (h : Blanks ws) :
      Spells ('{' :: (ws ++ ['}'])) (.value (.object []))
  | object {cs : List Char} {ms : List (String × Json)} (h : Spells cs (.members ms)) :
      Spells ('{' :: (cs ++ ['}'])) (.value (.object ms))
  | element {before cs after : List Char} {j : Json} (hbefore : Blanks before)
      (h : Spells cs (.value j)) (hafter : Blanks after) :
      Spells (before ++ (cs ++ after)) (.element j)
  | lastElement {cs : List Char} {j : Json} (h : Spells cs (.element j)) : Spells cs (.elements [j])
  | moreElements {cs ds : List Char} {j : Json} {js : List Json} (h : Spells cs (.element j))
      (hs : Spells ds (.elements js)) : Spells (cs ++ ',' :: ds) (.elements (j :: js))
  | member {before ks after cs : List Char} {key : String} {j : Json} (hbefore : Blanks before)
      (hkey : SpellsString ks key) (hafter : Blanks after) (h : Spells cs (.element j)) :
      Spells (before ++ (ks ++ (after ++ ':' :: cs))) (.member (key, j))
  | lastMember {cs : List Char} {m : String × Json} (h : Spells cs (.member m)) :
      Spells cs (.members [m])
  | moreMembers {cs ds : List Char} {m : String × Json} {ms : List (String × Json)}
      (h : Spells cs (.member m)) (hs : Spells ds (.members ms)) :
      Spells (cs ++ ',' :: ds) (.members (m :: ms))

end DiagnosticLog.Json
