import DiagnosticLog.Json.Reader
import DiagnosticLog.Proofs.Grammar

/-!
The reader understands every text of the grammar: what spells a value is read as that value
(`parse_of_spells`), so no text spells two. The readers are greedy, so each of them is followed on
a text that goes on behind the phrase: nothing that may follow a value can be taken for a part of
it. The induction is on the derivation of the phrase, and the budget is measured by its length.
-/

namespace DiagnosticLog.Json

namespace Numeral

theorem Ends.not_isDigit {rest : List Char} (h : Ends rest) :
    ∀ c ∈ rest.head?, c.isDigit = false := fun c hc => (h c hc).1

theorem readFraction_of_spells {fs fraction rest : List Char} (h : SpellsFraction fs fraction)
    (hrest : ∀ c ∈ rest.head?, c.isDigit = false ∧ c ≠ '.') :
    readFraction (fs ++ rest) = some (fraction, rest) := by
  cases h with
  | none =>
    unfold readFraction
    split
    · exact absurd rfl (hrest '.' (by simp_all)).2
    · simp_all
  | point hds => exact readDigits_append hds fun c hc => (hrest c hc).1

theorem readSigned_digits {ds rest : List Char} (hds : Digits ds)
    (h : ∀ c ∈ rest.head?, c.isDigit = false) : readSigned (ds ++ rest) = some (ds, rest) := by
  obtain ⟨c, ds', rfl⟩ := List.exists_cons_of_ne_nil hds.1
  have hc := hds.2 c List.mem_cons_self
  unfold readSigned
  split
  · simp_all
  · simp_all
  · exact readDigits_append hds h

theorem readExponent_of_spells {es exponent rest : List Char} (h : SpellsExponent es exponent)
    (hrest : Ends rest) : readExponent (es ++ rest) = some (exponent, rest) := by
  cases h with
  | none =>
    unfold readExponent
    split
    · exact absurd rfl (hrest 'e' (by simp_all)).2.2.1
    · exact absurd rfl (hrest 'E' (by simp_all)).2.2.2
    · simp_all
  | bare hmark hds =>
    have hread := readSigned_digits hds hrest.not_isDigit
    rcases hmark with rfl | rfl <;> simpa [readExponent] using hread
  | plus hmark hds =>
    have hread := readDigits_append hds hrest.not_isDigit
    rcases hmark with rfl | rfl <;> simpa [readExponent, readSigned] using hread
  | minus hmark hds =>
    have hread := readDigits_append hds hrest.not_isDigit
    rcases hmark with rfl | rfl <;> simp [readExponent, readSigned, hread]

/-- What comes after the whole part of a number does not go on with a digit. -/
theorem head_fraction {fs es fraction exponent rest : List Char} (hf : SpellsFraction fs fraction)
    (he : SpellsExponent es exponent) (hrest : Ends rest) :
    (∀ c ∈ (fs ++ (es ++ rest)).head?, c.isDigit = false) ∧
      ∀ c ∈ (es ++ rest).head?, c.isDigit = false ∧ c ≠ '.' := by
  have hexponent : ∀ c ∈ (es ++ rest).head?, c.isDigit = false ∧ c ≠ '.' := by
    cases he with
    | none => exact fun c hc => ⟨(hrest c hc).1, (hrest c hc).2.1⟩
    | bare hmark | plus hmark | minus hmark => rcases hmark with rfl | rfl <;> simp
  refine ⟨?_, hexponent⟩
  cases hf with
  | none => exact fun c hc => (hexponent c hc).1
  | point => simp

theorem read_of_spells {cs rest : List Char} {n : Numeral} (h : n.Spells cs) (hrest : Ends rest) :
    read (cs ++ rest) = some (n, rest) := by
  cases h with
  | @parts fs es fraction exponent negative whole hf he =>
    obtain ⟨hwhole, hfraction⟩ := head_fraction hf he hrest
    have hsign : readSign (signText negative ++ (Nat.toDigits 10 whole ++ (fs ++ (es ++ rest)))) =
        (negative, Nat.toDigits 10 whole ++ (fs ++ (es ++ rest))) := by
      cases negative with
      | true => rfl
      | false => exact readSign_toDigits whole _
    simp [read, hsign, readWhole_toDigits whole hwhole, readFraction_of_spells hf hfraction,
      readExponent_of_spells he hrest]

end Numeral

theorem readHex_of_spells {cs rest : List Char} {n : Nat} (h : SpellsHex cs n) :
    readHex (cs ++ rest) = some (n, rest) := by
  cases h with
  | digits ha hb hc hd => simp [readHex, ha, hb, hc, hd]

theorem readEscaped_letter {l c : Char} (h : (l, c) ∈ letterEscapes) (rest : List Char) :
    readEscaped (l :: rest) = some (c, rest) := by
  have hl : ∀ p ∈ letterEscapes, p.1 ≠ 'u' ∧ letterEscapes.lookup p.1 = some p.2 := by decide
  simp [readEscaped, hl (l, c) h]

theorem readChar_of_spells {cs rest : List Char} {c : Char} (h : SpellsChar cs c) :
    readChar (cs ++ rest) = some (some c, rest) := by
  cases h with
  | plain hcontrol hquote hslash =>
    have hlow : ¬ c.toNat < 0x20 := by omega
    simp [readChar, hquote, hslash, hlow]
  | letter h => simp [readChar, readEscaped_letter h]
  | number h hn => simp [readChar, readEscaped, readNumbered, readHex_of_spells h, hn]
  | @pair ds es high low hhigh hlow hh hl =>
    have hsurrogate : ¬ (high < 0xD800 ∨ 0xDFFF < high) := by omega
    simp [readChar, readEscaped, readNumbered, readHex_of_spells hhigh, readHex_of_spells hlow,
      hsurrogate, hh, hl]

theorem readQuoted_of_spells {cs s rest : List Char} (h : SpellsChars cs s) :
    readQuoted (cs ++ '"' :: rest) = some (s, rest) := by
  induction h with
  | nil =>
    have hchar : readChar ('"' :: rest) = some (none, rest) := rfl
    rw [List.nil_append, readQuoted]
    split <;> simp_all
  | @cons cs ds c s h hs ih =>
    have hchar : readChar (cs ++ (ds ++ '"' :: rest)) = some (some c, ds ++ '"' :: rest) :=
      readChar_of_spells h
    rw [List.append_assoc, readQuoted]
    split <;> simp_all

theorem readString_of_spells {cs rest : List Char} {s : String} (h : SpellsString cs s) :
    readString (cs ++ rest) = some (s, rest) := by
  cases h with
  | quotes h => simp [readString, readQuoted_of_spells h]

theorem isBlank_eq_true_iff {c : Char} :
    isBlank c = true ↔ c = ' ' ∨ c = '\t' ∨ c = '\n' ∨ c = '\r' := by
  simp [isBlank, or_assoc]

theorem skipBlanks_append {ws : List Char} (h : Blanks ws) (rest : List Char) :
    skipBlanks (ws ++ rest) = skipBlanks rest :=
  List.dropWhile_append_of_pos fun c hc => isBlank_eq_true_iff.2 (h c hc)

theorem skipBlanks_of_head {c : Char} (h : isBlank c = false) (rest : List Char) :
    skipBlanks (c :: rest) = c :: rest := by simp [skipBlanks, h]

theorem skipBlanks_skipBlanks (cs : List Char) : skipBlanks (skipBlanks cs) = skipBlanks cs := by
  induction cs with
  | nil => rfl
  | cons c rest ih =>
    cases hc : isBlank c with
    | true => simpa [skipBlanks, hc] using ih
    | false => rw [skipBlanks_of_head hc, skipBlanks_of_head hc]

theorem readValue_skipBlanks (budget : Nat) (cs : List Char) :
    readValue budget (skipBlanks cs) = readValue budget cs := by
  cases budget with
  | zero => rfl
  | succ b => rw [readValue, readValue, skipBlanks_skipBlanks]

theorem readItems_skipBlanks (budget : Nat) (cs : List Char) :
    readItems budget (skipBlanks cs) = readItems budget cs := by
  cases budget with
  | zero => rfl
  | succ b => rw [readItems, readItems, readValue_skipBlanks]

theorem readMembers_skipBlanks (budget : Nat) (cs : List Char) :
    readMembers budget (skipBlanks cs) = readMembers budget cs := by
  cases budget with
  | zero => rfl
  | succ b => rw [readMembers, readMembers, skipBlanks_skipBlanks]

/-- A number begins with its sign or with a digit. -/
theorem Numeral.Spells.head {cs : List Char} {n : Numeral} (h : n.Spells cs) :
    ∃ c rest, cs = c :: rest ∧ (c = '-' ∨ c.isDigit = true) := by
  cases h with
  | @parts fs es _ _ negative whole =>
    cases negative with
    | true => exact ⟨'-', _, rfl, Or.inl rfl⟩
    | false =>
      obtain ⟨c, ds, hc⟩ := List.exists_cons_of_ne_nil (digits_toDigits whole).1
      have hdigit := (digits_toDigits whole).2 c (hc ▸ List.mem_cons_self)
      exact ⟨c, ds ++ (fs ++ es), by simp [signText, hc], Or.inr hdigit⟩

theorem isBlank_of_number_head {c : Char} (hc : c = '-' ∨ c.isDigit = true) :
    isBlank c = false := by
  rcases hc with rfl | hc
  · rfl
  · rw [Bool.eq_false_iff, ne_eq, isBlank_eq_true_iff]
    rintro (rfl | rfl | rfl | rfl) <;> cases hc

theorem readValue_number {c : Char} (hc : c = '-' ∨ c.isDigit = true) (budget : Nat)
    (rest : List Char) :
    readValue (budget + 1) (c :: rest) =
      (Numeral.read (c :: rest)).map fun (n, rest) => (number n, rest) := by
  rw [readValue, skipBlanks_of_head (isBlank_of_number_head hc)]
  split <;> simp_all

/-- No value begins with a blank or with the end of an array. -/
theorem Spells.value_head {cs : List Char} {j : Json} (h : Spells cs (.value j)) :
    ∃ c rest, cs = c :: rest ∧ isBlank c = false ∧ c ≠ ']' := by
  cases h with
  | nullText | trueText | falseText => exact ⟨_, _, rfl, by decide, by decide⟩
  | number h =>
    obtain ⟨c, rest, rfl, hc⟩ := h.head
    refine ⟨c, rest, rfl, isBlank_of_number_head hc, ?_⟩
    rintro rfl
    simp at hc
  | string h =>
    cases h with
    | quotes h => exact ⟨_, _, rfl, by decide, by decide⟩
  | emptyArray | array | emptyObject | object => exact ⟨_, _, rfl, by decide, by decide⟩

theorem Spells.element_head {cs : List Char} {j : Json} (h : Spells cs (.element j))
    (rest : List Char) : ∃ c more, skipBlanks (cs ++ rest) = c :: more ∧ c ≠ ']' := by
  cases h with
  | @element before vs after j hbefore h hafter =>
    obtain ⟨c, more, rfl, hc, hne⟩ := h.value_head
    refine ⟨c, more ++ (after ++ rest), ?_, hne⟩
    rw [List.append_assoc, skipBlanks_append hbefore]
    simp [skipBlanks_of_head hc]

theorem Spells.elements_head {cs : List Char} {js : List Json} (h : Spells cs (.elements js))
    (rest : List Char) : ∃ c more, skipBlanks (cs ++ rest) = c :: more ∧ c ≠ ']' := by
  cases h with
  | lastElement h => exact h.element_head rest
  | moreElements h hs => simpa using h.element_head _

theorem SpellsString.skipBlanks_append {ks : List Char} {key : String} (h : SpellsString ks key)
    (rest : List Char) : skipBlanks (ks ++ rest) = ks ++ rest := by
  cases h with
  | quotes h => exact skipBlanks_of_head (by decide) _

theorem Spells.member_head {cs : List Char} {m : String × Json} (h : Spells cs (.member m))
    (rest : List Char) : ∃ more, skipBlanks (cs ++ rest) = '"' :: more := by
  cases h with
  | member hbefore hkey hafter h =>
    rw [List.append_assoc, skipBlanks_append hbefore, List.append_assoc, hkey.skipBlanks_append]
    cases hkey
    exact ⟨_, rfl⟩

theorem Spells.members_head {cs : List Char} {ms : List (String × Json)}
    (h : Spells cs (.members ms)) (rest : List Char) :
    ∃ more, skipBlanks (cs ++ rest) = '"' :: more := by
  cases h with
  | lastMember h => exact h.member_head rest
  | moreMembers h hs => simpa using h.member_head _

theorem readValue_array {cs rest : List Char} {js : List Json} {budget : Nat}
    (h : Spells cs (.elements js))
    (hread : readItems budget (cs ++ ']' :: rest) = some (js, rest)) :
    readValue (budget + 1) ('[' :: (cs ++ ']' :: rest)) = some (array js, rest) := by
  obtain ⟨c, more, hskip, hc⟩ := h.elements_head (']' :: rest)
  rw [← readItems_skipBlanks, hskip] at hread
  rw [readValue, skipBlanks_of_head (by decide)]
  simp only [hskip]
  split <;> simp_all

theorem readValue_object {cs rest : List Char} {ms : List (String × Json)} {budget : Nat}
    (h : Spells cs (.members ms))
    (hread : readMembers budget (cs ++ '}' :: rest) = some (ms, rest)) :
    readValue (budget + 1) ('{' :: (cs ++ '}' :: rest)) = some (object ms, rest) := by
  obtain ⟨more, hskip⟩ := h.members_head ('}' :: rest)
  rw [← readMembers_skipBlanks, hskip] at hread
  rw [readValue, skipBlanks_of_head (by decide)]
  simp only [hskip]
  split <;> simp_all

/-- What reading this phrase in front of `rest` comes to. An element leaves blanks behind it, and a
list takes along the bracket that ends it. -/
def Phrase.ReadBefore (budget : Nat) (cs rest : List Char) : Phrase → Prop
  | value j => readValue budget (cs ++ rest) = some (j, rest)
  | element j =>
    ∃ left, readValue budget (cs ++ rest) = some (j, left) ∧ skipBlanks left = skipBlanks rest
  | elements js => readItems budget (cs ++ ']' :: rest) = some (js, rest)
  | member m =>
    ∃ colon start left, readString (skipBlanks (cs ++ rest)) = some (m.1, colon) ∧
      readColon colon = some start ∧ readValue budget start = some (m.2, left) ∧
      skipBlanks left = skipBlanks rest
  | members ms => readMembers budget (cs ++ '}' :: rest) = some (ms, rest)

/-- The budget that reading the phrase takes, if it is `n` characters long. -/
def Phrase.budget (n : Nat) : Phrase → Nat
  | elements _ | members _ => 2 * n + 1
  | _ => 2 * n

theorem ends_append {ws rest : List Char} (hws : Blanks ws) (h : Numeral.Ends rest) :
    Numeral.Ends (ws ++ rest) := by
  cases ws with
  | nil => exact h
  | cons c ws =>
    intro d hd
    obtain rfl : c = d := by simpa using hd
    rcases hws c List.mem_cons_self with rfl | rfl | rfl | rfl <;> decide

theorem ends_cons {c : Char} (h : c = ',' ∨ c = ']' ∨ c = '}') (rest : List Char) :
    Numeral.Ends (c :: rest) := by
  intro d hd
  obtain rfl : c = d := by simpa using hd
  rcases h with rfl | rfl | rfl <;> decide

theorem readBefore_element {before cs after rest : List Char} {j : Json} {budget : Nat}
    (hbefore : Blanks before) (hafter : Blanks after)
    (h : (Phrase.value j).ReadBefore budget cs (after ++ rest)) :
    (Phrase.element j).ReadBefore budget (before ++ (cs ++ after)) rest := by
  refine ⟨after ++ rest, ?_, skipBlanks_append hafter rest⟩
  rw [← readValue_skipBlanks, List.append_assoc, skipBlanks_append hbefore, readValue_skipBlanks,
    List.append_assoc]
  exact h

theorem readBefore_member {before ks after cs rest : List Char} {key : String} {j : Json}
    {budget : Nat} (hbefore : Blanks before) (hkey : SpellsString ks key) (hafter : Blanks after)
    (h : (Phrase.element j).ReadBefore budget cs rest) :
    (Phrase.member (key, j)).ReadBefore budget (before ++ (ks ++ (after ++ ':' :: cs))) rest := by
  obtain ⟨left, hread, hleft⟩ := h
  have hstring : readString (skipBlanks (before ++ (ks ++ (after ++ ':' :: cs)) ++ rest)) =
      some (key, after ++ ':' :: (cs ++ rest)) := by
    rw [List.append_assoc, skipBlanks_append hbefore, List.append_assoc, List.append_assoc,
      hkey.skipBlanks_append, readString_of_spells hkey, List.cons_append]
  have hcolon : readColon (after ++ ':' :: (cs ++ rest)) = some (cs ++ rest) := by
    simp [readColon, skipBlanks_append hafter, skipBlanks_of_head, isBlank]
  exact ⟨_, _, left, hstring, hcolon, hread, hleft⟩

theorem readBefore_lastElement {cs rest : List Char} {j : Json} {budget : Nat}
    (h : (Phrase.element j).ReadBefore budget cs (']' :: rest)) :
    (Phrase.elements [j]).ReadBefore (budget + 1) cs rest := by
  obtain ⟨left, hread, hleft⟩ := h
  rw [skipBlanks_of_head (by decide)] at hleft
  simp [Phrase.ReadBefore, readItems, hread, hleft]

theorem readBefore_moreElements {cs ds rest : List Char} {j : Json} {js : List Json} {budget : Nat}
    (h : (Phrase.element j).ReadBefore budget cs (',' :: (ds ++ ']' :: rest)))
    (hs : (Phrase.elements js).ReadBefore budget ds rest) :
    (Phrase.elements (j :: js)).ReadBefore (budget + 1) (cs ++ ',' :: ds) rest := by
  obtain ⟨left, hread, hleft⟩ := h
  rw [skipBlanks_of_head (by decide)] at hleft
  rw [Phrase.ReadBefore] at hs
  simp [Phrase.ReadBefore, readItems, hread, hleft, hs]

theorem readBefore_lastMember {cs rest : List Char} {m : String × Json} {budget : Nat}
    (h : (Phrase.member m).ReadBefore budget cs ('}' :: rest)) :
    (Phrase.members [m]).ReadBefore (budget + 1) cs rest := by
  obtain ⟨colon, start, left, hkey, hcolon, hread, hleft⟩ := h
  rw [skipBlanks_of_head (by decide)] at hleft
  simp [Phrase.ReadBefore, readMembers, hkey, hcolon, hread, hleft]

theorem readBefore_moreMembers {cs ds rest : List Char} {m : String × Json}
    {ms : List (String × Json)} {budget : Nat}
    (h : (Phrase.member m).ReadBefore budget cs (',' :: (ds ++ '}' :: rest)))
    (hs : (Phrase.members ms).ReadBefore budget ds rest) :
    (Phrase.members (m :: ms)).ReadBefore (budget + 1) (cs ++ ',' :: ds) rest := by
  obtain ⟨colon, start, left, hkey, hcolon, hread, hleft⟩ := h
  rw [skipBlanks_of_head (by decide)] at hleft
  rw [Phrase.ReadBefore] at hs
  simp [Phrase.ReadBefore, readMembers, hkey, hcolon, hread, hleft, hs]

/-- Every phrase is read for what it is, if nothing that could prolong a number follows it. -/
theorem Spells.readBefore {cs : List Char} {p : Phrase} (h : Spells cs p) {budget : Nat}
    (hbudget : p.budget cs.length ≤ budget) {rest : List Char} (hrest : Numeral.Ends rest) :
    p.ReadBefore budget cs rest := by
  induction h generalizing budget rest with
    simp only [Phrase.budget, List.length_append, List.length_cons, List.length_nil] at hbudget
  | nullText | trueText | falseText =>
    obtain ⟨b, rfl⟩ := Nat.exists_eq_add_one.2 (show 0 < budget by omega)
    simp [Phrase.ReadBefore, readValue, skipBlanks, isBlank]
  | number h =>
    obtain ⟨c, ds, rfl, hc⟩ := h.head
    rw [List.length_cons] at hbudget
    obtain ⟨b, rfl⟩ := Nat.exists_eq_add_one.2 (show 0 < budget by omega)
    have hread := Numeral.read_of_spells h hrest
    rw [Phrase.ReadBefore, List.cons_append, readValue_number hc, ← List.cons_append, hread]
    rfl
  | string h =>
    cases h with
    | quotes h =>
      rw [List.length_cons] at hbudget
      obtain ⟨b, rfl⟩ := Nat.exists_eq_add_one.2 (show 0 < budget by omega)
      simp [Phrase.ReadBefore, readValue, skipBlanks, isBlank, readQuoted_of_spells h]
  | emptyArray h =>
    obtain ⟨b, rfl⟩ := Nat.exists_eq_add_one.2 (show 0 < budget by omega)
    have hskip := skipBlanks_append h (']' :: rest)
    simp [Phrase.ReadBefore, readValue, skipBlanks_of_head, isBlank, hskip]
  | array h ih =>
    obtain ⟨b, rfl⟩ := Nat.exists_eq_add_one.2 (show 0 < budget by omega)
    have hitems := @ih b (by simp only [Phrase.budget]; omega) rest hrest
    simpa [Phrase.ReadBefore] using readValue_array h hitems
  | emptyObject h =>
    obtain ⟨b, rfl⟩ := Nat.exists_eq_add_one.2 (show 0 < budget by omega)
    have hskip := skipBlanks_append h ('}' :: rest)
    simp [Phrase.ReadBefore, readValue, skipBlanks_of_head, isBlank, hskip]
  | object h ih =>
    obtain ⟨b, rfl⟩ := Nat.exists_eq_add_one.2 (show 0 < budget by omega)
    have hmembers := @ih b (by simp only [Phrase.budget]; omega) rest hrest
    simpa [Phrase.ReadBefore] using readValue_object h hmembers
  | element hbefore h hafter ih =>
    have hvalue := @ih budget (by simp only [Phrase.budget]; omega) _
      (ends_append hafter hrest)
    exact readBefore_element hbefore hafter hvalue
  | lastElement h ih =>
    obtain ⟨b, rfl⟩ := Nat.exists_eq_add_one.2 (show 0 < budget by omega)
    have hends := ends_cons (Or.inr (Or.inl rfl)) rest
    exact readBefore_lastElement (ih (by simp only [Phrase.budget]; omega) hends)
  | @moreElements cs ds j js h hs ih ihs =>
    obtain ⟨b, rfl⟩ := Nat.exists_eq_add_one.2 (show 0 < budget by omega)
    have hends := ends_cons (Or.inl rfl) (ds ++ ']' :: rest)
    exact readBefore_moreElements (ih (by simp only [Phrase.budget]; omega) hends)
      (ihs (by simp only [Phrase.budget]; omega) hrest)
  | member hbefore hkey hafter h ih =>
    have helement := @ih budget (by simp only [Phrase.budget]; omega) rest hrest
    exact readBefore_member hbefore hkey hafter helement
  | lastMember h ih =>
    obtain ⟨b, rfl⟩ := Nat.exists_eq_add_one.2 (show 0 < budget by omega)
    have hends := ends_cons (Or.inr (Or.inr rfl)) rest
    exact readBefore_lastMember (ih (by simp only [Phrase.budget]; omega) hends)
  | @moreMembers cs ds m ms h hs ih ihs =>
    obtain ⟨b, rfl⟩ := Nat.exists_eq_add_one.2 (show 0 < budget by omega)
    have hends := ends_cons (Or.inl rfl) (ds ++ '}' :: rest)
    exact readBefore_moreMembers (ih (by simp only [Phrase.budget]; omega) hends)
      (ihs (by simp only [Phrase.budget]; omega) hrest)

/-- A text that spells a value, with blanks around it or without, is read as this value. -/
theorem parse_of_spells {text : String} {j : Json} (h : Spells text.toList (.element j)) :
    parse text = some j := by
  have hends : Numeral.Ends [] := by intro c hc; cases hc
  have hbefore : (Phrase.element j).ReadBefore (2 * text.toList.length + 2) text.toList [] :=
    h.readBefore (by simp [Phrase.budget]) hends
  obtain ⟨left, hread, hleft⟩ := hbefore
  rw [List.append_nil] at hread
  have hnil : skipBlanks left = [] := hleft
  simp [parse, readChars, hread, hnil]

end DiagnosticLog.Json
