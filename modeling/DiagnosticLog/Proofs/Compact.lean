import DiagnosticLog.Json.Printer
import DiagnosticLog.Proofs.Reading
import DiagnosticLog.Proofs.Writing

/-!
Compact text spells its value. The text of every value whose numbers have nothing but digits in
their fractions and exponents is in the grammar (`WellFormed.spells_print`), so it is read as the
value that it was made from (`parse_compact`). The induction is on the value: the items of an array
are joined by commas, and so are the members of an object.
-/

namespace DiagnosticLog.Json

namespace Numeral

/-- The fraction is a run of digits or missing, and so is the exponent behind its sign. -/
structure WellFormed (n : Numeral) : Prop where
  fraction : n.fraction = [] ∨ Digits n.fraction
  exponent : n.exponent = [] ∨ Digits n.exponent ∨ ∃ ds, n.exponent = '-' :: ds ∧ Digits ds

theorem wellFormed_ofNat (n : Nat) : (ofNat n).WellFormed := ⟨Or.inl rfl, Or.inl rfl⟩

theorem WellFormed.spells_print {n : Numeral} (h : n.WellFormed) : n.Spells n.print := by
  obtain ⟨negative, whole, fraction, exponent⟩ := n
  obtain ⟨hfraction, hexponent⟩ := h
  have hpoint : SpellsFraction (if fraction = [] then [] else '.' :: fraction) fraction := by
    rcases hfraction with rfl | hdigits
    · exact .none
    · rw [if_neg hdigits.1]
      exact .point hdigits
  have hmark : SpellsExponent (if exponent = [] then [] else 'e' :: exponent) exponent := by
    rcases hexponent with rfl | hdigits | ⟨ds, rfl, hdigits⟩
    · exact .none
    · rw [if_neg hdigits.1]
      exact .bare (Or.inl rfl) hdigits
    · rw [if_neg (by simp)]
      exact .minus (Or.inl rfl) hdigits
  simpa [print, signText] using Spells.parts negative whole hpoint hmark

end Numeral

/-- All numbers in the value are well-formed. -/
inductive WellFormed : Json → Prop
  | null : WellFormed null
  | bool (b : Bool) : WellFormed (bool b)
  | number {n : Numeral} (h : n.WellFormed) : WellFormed (number n)
  | string (s : String) : WellFormed (string s)
  | array {items : List Json} (h : ∀ j ∈ items, WellFormed j) : WellFormed (array items)
  | object {members : List (String × Json)} (h : ∀ m ∈ members, WellFormed m.2) :
      WellFormed (object members)

theorem wellFormed_word (n : UInt32) : (word n).WellFormed :=
  .number (Numeral.wellFormed_ofNat n.toNat)

theorem spellsString_quoted (s : String) : SpellsString (quoted s) s :=
  .quotes (spellsChars_escape escapes_compactEscapes faithful_compactEscapes s.toList)

/-- The text of a member, which is its key and its value. -/
def printMember (m : String × Json) : List Char := quoted m.1 ++ ':' :: print m.2

theorem print_object_cons (m : String × Json) (members : List (String × Json)) :
    print (object (m :: members)) = '{' :: (printMember m ++ printMembers members) := by
  simp [print, printMember]

theorem printMembers_cons (m : String × Json) (members : List (String × Json)) :
    printMembers (m :: members) = ',' :: (printMember m ++ printMembers members) := by
  simp [printMembers, printMember]

theorem print_append_printItems (item : Json) (items : List Json) :
    print item ++ printItems items = [','].intercalate ((item :: items).map print) ++ [']'] := by
  induction items generalizing item with
  | nil => simp [printItems]
  | cons next items ih => simp [printItems, ih next]

theorem printMember_append_printMembers (m : String × Json) (members : List (String × Json)) :
    printMember m ++ printMembers members =
      [','].intercalate ((m :: members).map printMember) ++ ['}'] := by
  induction members generalizing m with
  | nil => simp [printMembers]
  | cons next members ih => simp [printMembers_cons, ih next]

theorem spells_print_array {items : List Json} (h : ∀ j ∈ items, Spells (print j) (.value j)) :
    Spells (print (array items)) (.value (array items)) := by
  cases items with
  | nil => exact .emptyArray blanks_nil
  | cons item items =>
    have hitems : List.Forall₂ (fun cs j => Spells cs (.element j)) ((item :: items).map print)
        (item :: items) :=
      List.forall₂_map_left_iff.2 (List.forall₂_same.2 fun j hj => (h j hj).toElement)
    have helements := spells_join .lastElement .moreElements (fun _ => trivial) blanks_nil hitems
      (List.cons_ne_nil item items)
    rw [print, print_append_printItems]
    exact .array helements

theorem spells_print_object {members : List (String × Json)}
    (h : ∀ m ∈ members, Spells (print m.2) (.value m.2)) :
    Spells (print (object members)) (.value (object members)) := by
  cases members with
  | nil => exact .emptyObject blanks_nil
  | cons m members =>
    have hmembers : List.Forall₂ (fun cs m => Spells cs (.member m))
        ((m :: members).map printMember) (m :: members) := by
      refine List.forall₂_map_left_iff.2 (List.forall₂_same.2 fun m hm => ?_)
      exact .member blanks_nil (spellsString_quoted m.1) blanks_nil (h m hm).toElement
    have hjoined := spells_join .lastMember .moreMembers (fun _ => trivial) blanks_nil hmembers
      (List.cons_ne_nil m members)
    rw [print_object_cons, printMember_append_printMembers]
    exact .object hjoined

/-- The text of a value spells it. -/
theorem WellFormed.spells_print {j : Json} (h : j.WellFormed) : Spells (print j) (.value j) := by
  induction h with
  | null => exact .nullText
  | bool b =>
    cases b with
    | true => exact .trueText
    | false => exact .falseText
  | number h => exact .number h.spells_print
  | string s => exact .string (spellsString_quoted s)
  | array h ih => exact spells_print_array ih
  | object h ih => exact spells_print_object ih

theorem spells_compact {j : Json} (h : j.WellFormed) : Spells j.compact.toList (.element j) := by
  rw [compact, String.toList_ofList]
  exact h.spells_print.toElement

theorem parse_compact {j : Json} (h : j.WellFormed) : parse j.compact = some j :=
  parse_of_spells (spells_compact h)

end DiagnosticLog.Json
