import DiagnosticLog.Document
import DiagnosticLog.Proofs.Reading
import DiagnosticLog.Proofs.Writing
import Mathlib.Algebra.Ring.Parity
import Mathlib.Data.List.Induction

/-!
Escaped text inside quotes. The backslashes at the end of an escaped text come in pairs, whatever
the text was, so a quote that belongs to it always has an odd number of them in front: the last one
escapes the quote, and the others escape each other (`odd_slashesAtEnd_of_quote`). A reader that
starts behind an opening quote therefore takes no quote for the closing one before it comes to it,
and gives back the text as it was (`readQuoted_escape`). In documents no control character is left
either.
-/

namespace DiagnosticLog.Json

/-- The number of backslashes with which a text ends. -/
def slashesAtEnd (cs : List Char) : Nat := (cs.reverse.takeWhile (· == '\\')).length

theorem slashesAtEnd_append_slash (cs : List Char) :
    slashesAtEnd (cs ++ ['\\']) = slashesAtEnd cs + 1 := by simp [slashesAtEnd]

theorem slashesAtEnd_append_of_ne (cs : List Char) {c : Char} (h : c ≠ '\\') :
    slashesAtEnd (cs ++ [c]) = 0 := by simp [slashesAtEnd, h]

theorem exists_digit_of_mem_hexDigits {c : Char} {n : Nat} (h : c ∈ hexDigits n) :
    ∃ k < 16, c = k.digitChar := by
  simp only [hexDigits, List.map_cons, List.map_nil, List.mem_cons, List.not_mem_nil,
    or_false] at h
  rcases h with h | h | h | h <;> exact ⟨_, Nat.mod_lt _ (by decide), h⟩

theorem not_special_of_mem_hexDigits {c : Char} {n : Nat} (h : c ∈ hexDigits n) :
    c ≠ '\\' ∧ c ≠ '"' ∧ isControl c = false := by
  have hdigits : ∀ k < 16, k.digitChar ≠ '\\' ∧ k.digitChar ≠ '"' ∧
      isControl k.digitChar = false := by decide
  obtain ⟨k, hk, rfl⟩ := exists_digit_of_mem_hexDigits h
  exact hdigits k hk

section Slashes

variable {e : Escapes}

/-- What a character is escaped to adds two backslashes at the end, or ends with another
character. -/
theorem slashesAtEnd_append_escapeChar (hcomplete : e.Complete) (cs : List Char) (c : Char) :
    slashesAtEnd (cs ++ escapeChar e c) = slashesAtEnd cs + 2 ∨
      slashesAtEnd (cs ++ escapeChar e c) = 0 := by
  rcases escapeChar_cases hcomplete c with ⟨l, -, htext⟩ | ⟨-, htext⟩ | ⟨-, -, -, hslash, htext⟩
  · have hsplit : cs ++ escapeChar e c = cs ++ ['\\'] ++ [l] := by simp [htext]
    rw [hsplit]
    by_cases hl : l = '\\'
    · subst hl
      rw [slashesAtEnd_append_slash, slashesAtEnd_append_slash]
      exact Or.inl rfl
    · exact Or.inr (slashesAtEnd_append_of_ne _ hl)
  · have hne : hexDigits c.toNat ≠ [] := by simp [hexDigits]
    have hlast := (not_special_of_mem_hexDigits (List.getLast_mem hne)).1
    have hsplit : cs ++ escapeChar e c =
        cs ++ '\\' :: 'u' :: (hexDigits c.toNat).dropLast ++ [(hexDigits c.toNat).getLast hne] := by
      simp [htext, List.dropLast_append_getLast]
    rw [hsplit]
    exact Or.inr (slashesAtEnd_append_of_ne _ hlast)
  · rw [htext]
    exact Or.inr (slashesAtEnd_append_of_ne cs hslash)

theorem even_slashesAtEnd_escape (hcomplete : e.Complete) (cs : List Char) :
    Even (slashesAtEnd (escape e cs)) := by
  induction cs using List.reverseRecOn with
  | nil => exact Even.zero
  | append_singleton cs c ih =>
    have hlast : escape e (cs ++ [c]) = escape e cs ++ escapeChar e c := by
      rw [escape_append]
      simp [escape]
    rw [hlast]
    rcases slashesAtEnd_append_escapeChar hcomplete (escape e cs) c with htwo | hnone
    · rw [htwo]
      exact ih.add even_two
    · rw [hnone]
      exact Even.zero

/-- A quote among what a character is escaped to comes directly after the backslash that this
begins with. -/
theorem eq_slash_of_escapeChar_eq (hcomplete : e.Complete) {c : Char} {before after : List Char}
    (h : escapeChar e c = before ++ '"' :: after) : before = ['\\'] := by
  have hquote : '"' ∈ escapeChar e c := h ▸ List.mem_append_right before List.mem_cons_self
  rcases escapeChar_cases hcomplete c with ⟨l, -, htext⟩ | ⟨-, htext⟩ | ⟨-, -, hne, -, htext⟩
  · rw [htext] at h
    cases before with
    | nil => simp at h
    | cons b before =>
      cases before with
      | nil => rw [← (List.cons.inj h).1]
      | cons b' before => simp at h
  · rw [htext] at hquote
    have hdigit : '"' ∈ hexDigits c.toNat := by simpa using hquote
    exact absurd rfl (not_special_of_mem_hexDigits hdigit).2.1
  · rw [htext, List.mem_singleton] at hquote
    exact absurd hquote.symm hne

/-- Every quote in an escaped text has a backslash of its own in front, behind an escaped
beginning of the text. -/
theorem exists_escape_of_quote (hcomplete : e.Complete) {cs before after : List Char}
    (h : escape e cs = before ++ '"' :: after) :
    ∃ ds, before = escape e ds ++ ['\\'] := by
  induction cs generalizing before with
  | nil => simp [escape] at h
  | cons c cs ih =>
    have hcons : escape e (c :: cs) = escapeChar e c ++ escape e cs := rfl
    rw [hcons] at h
    have hlater : ∀ left, before = escapeChar e c ++ left → escape e cs = left ++ '"' :: after →
        ∃ ds, before = escape e ds ++ ['\\'] := by
      intro left hbefore hleft
      obtain ⟨ds, hds⟩ := ih hleft
      refine ⟨c :: ds, ?_⟩
      rw [hbefore, hds, ← List.append_assoc]
      rfl
    rcases List.append_eq_append_iff.1 h with ⟨left, hbefore, hleft⟩ | ⟨left, htext, hleft⟩
    · exact hlater left hbefore hleft
    · cases left with
      | nil => exact hlater [] (by rw [htext, List.append_nil]; simp) (by simpa using hleft.symm)
      | cons d left =>
        obtain ⟨rfl, -⟩ := List.cons.inj hleft
        exact ⟨[], eq_slash_of_escapeChar_eq hcomplete htext⟩

theorem odd_slashesAtEnd_of_quote (hcomplete : e.Complete) {cs before after : List Char}
    (h : escape e cs = before ++ '"' :: after) : Odd (slashesAtEnd before) := by
  obtain ⟨ds, rfl⟩ := exists_escape_of_quote hcomplete h
  rw [slashesAtEnd_append_slash]
  exact (even_slashesAtEnd_escape hcomplete ds).add_one

/-- Escaped text is read up to the quote behind it, and comes out as it was. -/
theorem readQuoted_escape (hcomplete : e.Complete) (hfaithful : e.Faithful) (cs rest : List Char) :
    readQuoted (escape e cs ++ '"' :: rest) = some (cs, rest) :=
  readQuoted_of_spells (spellsChars_escape hcomplete hfaithful cs)

theorem escape_injective (hcomplete : e.Complete) (hfaithful : e.Faithful) {cs ds : List Char}
    (h : escape e cs = escape e ds) : cs = ds := by
  have hcs := readQuoted_escape hcomplete hfaithful cs []
  rw [h, readQuoted_escape hcomplete hfaithful ds []] at hcs
  exact (Prod.mk.inj (Option.some.inj hcs)).1.symm

end Slashes

theorem isControl_eq_false_iff {c : Char} :
    isControl c = false ↔ 0x20 ≤ c.toNat ∧ (c.toNat < 0x7F ∨ 0x9F < c.toNat) := by
  simp only [isControl, Bool.or_eq_false_iff, Bool.and_eq_false_iff, decide_eq_false_iff_not]
  omega

/-- What stands between the quotes of a string in a document. -/
def documentForm (s : String) : List Char := escape documentEscapes s.toList

theorem isControl_of_mem_documentForm {s : String} {c : Char} (h : c ∈ documentForm s) :
    isControl c = false := by
  obtain ⟨d, -, hc⟩ := List.mem_flatMap.1 h
  rcases escapeChar_cases escapes_documentEscapes d with
    ⟨l, hl, htext⟩ | ⟨-, htext⟩ | ⟨hnumber, -, -, -, htext⟩ <;> rw [htext] at hc
  · have hletters : ∀ p ∈ documentEscapes.letters, isControl p.2 = false := by decide
    simp only [List.mem_cons, List.not_mem_nil, or_false] at hc
    rcases hc with rfl | rfl
    · decide
    · exact hletters (d, c) hl
  · simp only [List.mem_cons] at hc
    rcases hc with rfl | rfl | hc
    · decide
    · decide
    · exact (not_special_of_mem_hexDigits hc).2.2
  · rw [List.mem_singleton] at hc
    rw [hc]
    exact hnumber

theorem toList_quoted (s : String) :
    (Document.quoted s).toList = '"' :: (documentForm s ++ ['"']) := by
  simp [Document.quoted, documentForm]

/-- A document writes a string in its form, in quotes. The form has no character of the two control
blocks, and every quote in it is escaped by a backslash that is not escaped itself. In quotes and
with anything behind it, it is read up to the closing quote and gives back the string. So distinct
strings have distinct forms, and two strings in a row have their forms in a row. -/
theorem documentForm_lossless (s : String) :
    (Document.quoted s).toList = '"' :: (documentForm s ++ ['"']) ∧
    (∀ c ∈ documentForm s, 0x20 ≤ c.toNat ∧ (c.toNat < 0x7F ∨ 0x9F < c.toNat)) ∧
    (∀ before after, documentForm s = before ++ '"' :: after → Odd (slashesAtEnd before)) ∧
    (∀ rest, readQuoted (documentForm s ++ '"' :: rest) = some (s.toList, rest)) ∧
    (∀ t, t ≠ s → documentForm t ≠ documentForm s) ∧
    ∀ t, documentForm (s ++ t) = documentForm s ++ documentForm t := by
  have hcomplete := escapes_documentEscapes
  have hfaithful := faithful_documentEscapes
  refine ⟨toList_quoted s,
    fun c hc => isControl_eq_false_iff.1 (isControl_of_mem_documentForm hc),
    fun before after h => odd_slashesAtEnd_of_quote hcomplete h,
    readQuoted_escape hcomplete hfaithful s.toList, fun t hne heq => hne ?_, fun t => ?_⟩
  · exact String.toList_inj.1 (escape_injective hcomplete hfaithful heq)
  · rw [documentForm, String.toList_append, escape_append]
    rfl

/-- A backslash, a quote and a control character beyond the first 128. -/
theorem documentForm_lossless_slash_quote :
    documentForm "\\\"\x85" = "\\\\\\".toList ++ '"' :: "\\u0085".toList ∧
    Odd (slashesAtEnd "\\\\\\".toList) ∧
    documentForm "\"\\\x85" ≠ documentForm "\\\"\x85" := by
  have hform : documentForm "\\\"\x85" = "\\\\\\".toList ++ '"' :: "\\u0085".toList := by
    decide
  obtain ⟨-, -, hodd, -, hdistinct, -⟩ := documentForm_lossless "\\\"\x85"
  exact ⟨hform, hodd _ _ hform, hdistinct "\"\\\x85" (by decide)⟩

end DiagnosticLog.Json
