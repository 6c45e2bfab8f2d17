import DiagnosticLog.Proofs.Grammar
import Mathlib.Data.List.Forall2

/-!
What is written is in the grammar. Escaping spells a string whatever its characters are, if nothing
is left as it is that may not be (`spellsChars_escape`); digits spell a number; and what stands for
the items of an array or for the members of an object may be joined by commas and set apart by
blanks.
-/

namespace DiagnosticLog.Json

/-- Every escape stands for its character. -/
structure Escapes.Faithful (e : Escapes) : Prop where
  letters : ∀ p ∈ e.letters, (p.2, p.1) ∈ letterEscapes
  byNumber : ∀ c, e.byNumber c = true → c.toNat < 0xD800

theorem faithful_documentEscapes : documentEscapes.Faithful where
  letters := by decide
  byNumber c hc := by
    simp only [documentEscapes, isControl, Bool.or_eq_true, Bool.and_eq_true,
      decide_eq_true_eq] at hc
    omega

theorem faithful_compactEscapes : compactEscapes.Faithful where
  letters := by decide
  byNumber c hc := by
    simp only [compactEscapes, decide_eq_true_eq] at hc
    omega

theorem hexValue?_digitChar : ∀ n < 16, hexValue? n.digitChar = some n := by decide

theorem spellsHex_hexDigits {n : Nat} (h : n < 65536) : SpellsHex (hexDigits n) n := by
  have hdigit : ∀ k, hexValue? (k % 16).digitChar = some (k % 16) := fun k =>
    hexValue?_digitChar _ (Nat.mod_lt k (by decide))
  have hvalue : ((n / 4096 % 16 * 16 + n / 256 % 16) * 16 + n / 16 % 16) * 16 + n % 16 = n := by
    omega
  have hdigits := SpellsHex.digits (hdigit (n / 4096)) (hdigit (n / 256)) (hdigit (n / 16))
    (hdigit n)
  rwa [hvalue] at hdigits

/-- A character is escaped by a letter or by its number, or it is left as it is, which it may be
then. -/
theorem escapeChar_cases {e : Escapes} (hcomplete : e.Complete) (c : Char) :
    (∃ l, (c, l) ∈ e.letters ∧ escapeChar e c = ['\\', l]) ∨
    (e.byNumber c = true ∧ escapeChar e c = '\\' :: 'u' :: hexDigits c.toNat) ∨
    (e.byNumber c = false ∧ 0x20 ≤ c.toNat ∧ c ≠ '"' ∧ c ≠ '\\' ∧ escapeChar e c = [c]) := by
  unfold escapeChar
  split
  · rename_i l hl
    obtain ⟨before, after, hletters, -⟩ := List.lookup_eq_some_iff.1 hl
    exact Or.inl ⟨l, by simp [hletters], rfl⟩
  · rename_i hnone
    split
    · rename_i hnumber
      exact Or.inr (Or.inl ⟨hnumber, rfl⟩)
    · rename_i hnumber
      have hplain : ¬ (c = '"' ∨ c = '\\' ∨ c.toNat < 0x20) := by
        intro h
        rcases hcomplete c h with hletter | hcode
        · rw [hnone] at hletter
          cases hletter
        · exact hnumber hcode
      simp only [not_or, Nat.not_lt] at hplain
      obtain ⟨hquote, hslash, hlow⟩ := hplain
      exact Or.inr (Or.inr ⟨Bool.eq_false_iff.2 hnumber, hlow, hquote, hslash, rfl⟩)

theorem spellsChar_escapeChar {e : Escapes} (hcomplete : e.Complete) (hfaithful : e.Faithful)
    (c : Char) : SpellsChar (escapeChar e c) c := by
  rcases escapeChar_cases hcomplete c with
    ⟨l, hl, htext⟩ | ⟨hnumber, htext⟩ | ⟨-, hlow, hquote, hslash, htext⟩ <;> rw [htext]
  · exact .letter (hfaithful.letters (c, l) hl)
  · have hlow := hfaithful.byNumber c hnumber
    have hhex := spellsHex_hexDigits (n := c.toNat) (by omega)
    have hspells := SpellsChar.number hhex (Or.inl hlow)
    rwa [Char.ofNat_toNat] at hspells
  · exact .plain hlow hquote hslash

theorem spellsChars_escape {e : Escapes} (hcomplete : e.Complete) (hfaithful : e.Faithful)
    (cs : List Char) : SpellsChars (escape e cs) cs := by
  induction cs with
  | nil => exact .nil
  | cons c cs ih => exact .cons (spellsChar_escapeChar hcomplete hfaithful c) ih

/-- Characters that need no escape spell themselves. -/
theorem spellsChars_self {cs : List Char}
    (h : ∀ c ∈ cs, 0x20 ≤ c.toNat ∧ c ≠ '"' ∧ c ≠ '\\') : SpellsChars cs cs := by
  induction cs with
  | nil => exact .nil
  | cons c cs ih =>
    obtain ⟨hcontrol, hquote, hslash⟩ := h c List.mem_cons_self
    exact .cons (.plain hcontrol hquote hslash) (ih fun d hd => h d (List.mem_cons_of_mem c hd))

theorem spells_nat (n : Nat) : Spells (Nat.toDigits 10 n) (.value (nat n)) :=
  .number (Numeral.spells_toDigits n)

theorem blanks_nil : Blanks [] := fun c hc => by cases hc

theorem Blanks.append {ws vs : List Char} (hws : Blanks ws) (hvs : Blanks vs) :
    Blanks (ws ++ vs) := fun c hc =>
  (List.mem_append.1 hc).elim (hws c) (hvs c)

/-- Every phrase but a value has room for blanks at both ends. -/
def Phrase.HasRoom : Phrase → Prop
  | value _ => False
  | _ => True

theorem Spells.padBefore {cs : List Char} {p : Phrase} (h : Spells cs p) (hp : p.HasRoom)
    {ws : List Char} (hws : Blanks ws) : Spells (ws ++ cs) p := by
  induction h with
  | element hbefore h hafter =>
    rw [← List.append_assoc]
    exact .element (hws.append hbefore) h hafter
  | lastElement h ih => exact .lastElement (ih trivial)
  | moreElements h hs ih =>
    rw [← List.append_assoc]
    exact .moreElements (ih trivial) hs
  | member hbefore hkey hafter h =>
    rw [← List.append_assoc]
    exact .member (hws.append hbefore) hkey hafter h
  | lastMember h ih => exact .lastMember (ih trivial)
  | moreMembers h hs ih =>
    rw [← List.append_assoc]
    exact .moreMembers (ih trivial) hs
  | _ => cases hp

theorem Spells.padAfter {cs : List Char} {p : Phrase} (h : Spells cs p) (hp : p.HasRoom)
    {ws : List Char} (hws : Blanks ws) : Spells (cs ++ ws) p := by
  induction h with
  | element hbefore h hafter =>
    rw [List.append_assoc, List.append_assoc]
    exact .element hbefore h (hafter.append hws)
  | lastElement h ih => exact .lastElement (ih trivial)
  | moreElements h hs ih ihs =>
    rw [List.append_assoc, List.cons_append]
    exact .moreElements h (ihs trivial)
  | member hbefore hkey hafter h ih =>
    rw [List.append_assoc, List.append_assoc, List.append_assoc, List.cons_append]
    exact .member hbefore hkey hafter (ih trivial)
  | lastMember h ih => exact .lastMember (ih trivial)
  | moreMembers h hs ih ihs =>
    rw [List.append_assoc, List.cons_append]
    exact .moreMembers h (ihs trivial)
  | _ => cases hp

theorem Spells.toElement {cs : List Char} {j : Json} (h : Spells cs (.value j)) :
    Spells cs (.element j) := by
  simpa using Spells.element blanks_nil h blanks_nil

theorem blanks_lineEnd : Blanks ['\n'] := by simp [Blanks]

/-- Items that are joined by commas, with blanks behind them or without, make up a list. -/
theorem spells_join {α : Type} {one : α → Phrase} {many : List α → Phrase}
    (hlast : ∀ {cs a}, Spells cs (one a) → Spells cs (many [a]))
    (hmore : ∀ {cs ds a as}, Spells cs (one a) → Spells ds (many as) →
      Spells (cs ++ ',' :: ds) (many (a :: as)))
    (hroom : ∀ as, (many as).HasRoom) {ws : List Char} (hws : Blanks ws) {lines : List (List Char)}
    {as : List α} (h : List.Forall₂ (fun cs a => Spells cs (one a)) lines as) (hne : as ≠ []) :
    Spells ((',' :: ws).intercalate lines) (many as) := by
  induction h with
  | nil => exact absurd rfl hne
  | @cons cs a lines as h hs ih =>
    cases hs with
    | nil => simpa using hlast h
    | @cons ds b lines as hb hs =>
      have hrest := (ih (by simp)).padBefore (hroom _) hws
      simpa using hmore h hrest

end DiagnosticLog.Json
