import DiagnosticLog.Document
import DiagnosticLog.Proofs.Reading
import DiagnosticLog.Proofs.Writing

/-!
What a document says. However the messages of an array are split into calls, a fresh writer puts
down one JSON text, which spells the array of their rows and is read as that array
(`writeArray_spells_rows`). In it a row is the object of its ten fields, whose keys and tags are
written out here apart from those of the writer. The writer is made for a single array: once it has
written an item, the first item of a later array has a comma in front, and such an array is no JSON
text.
-/

namespace DiagnosticLog

namespace Row

/-- The tag that the host expects for a kind. -/
def kindTag : Kind → String
  | .syntactic => "SYNTAX"
  | .grammatical => "GRAMMAR"
  | .translating => "TRANSLATION"
  | .symbolic => "SYMBOLIC"
  | .runtime => "SIMULATION"
  | .scripting => "SCRIPTING"

/-- The tag that the host expects for a severity. -/
def severityTag : Severity → String
  | .error => "ERROR"
  | .warning => "WARNING"
  | .notification => "NOTIFICATION"

/-- A row as the host expects it. -/
def toHostJson (r : Row) : Json :=
  .object
    [("id", .word r.id),
      ("kind", .string (kindTag r.kind)),
      ("severity", .string (severityTag r.severity)),
      ("message", .string r.message),
      ("file", .string r.file),
      ("read_only", .bool r.readOnly),
      ("start_line", .word r.startLine),
      ("start_col", .word r.startColumn),
      ("end_line", .word r.endLine),
      ("end_col", .word r.endColumn)]

/-- The values of the fields in the order of the keys, as they are written for the host. -/
def hostValues (r : Row) : List Json :=
  [.word r.id, .string r.kind.hostLabel, .string r.severity.hostLabel, .string r.message,
    .string r.file, .bool r.readOnly, .word r.startLine, .word r.startColumn, .word r.endLine,
    .word r.endColumn]

theorem kindTag_eq (k : Kind) : kindTag k = k.hostLabel := by
  cases k <;> rfl

theorem severityTag_eq (s : Severity) : severityTag s = s.hostLabel := by
  cases s <;> rfl

theorem toHostJson_eq (r : Row) : r.toHostJson = .object (keys.zip r.hostValues) := by
  rw [toHostJson, kindTag_eq, severityTag_eq]
  rfl

end Row

namespace Document

/-- A call to a writer between the start and the end of an array. -/
inductive Call
  | emit (m : Message)
  | emitAll (ms : List Message)
  | flush

namespace Call

/-- The messages that the call asks to write. -/
def messages : Call → List Message
  | emit m => [m]
  | emitAll ms => ms
  | flush => []

def perform : Call → Document → Document
  | emit m, d => d.emit m
  | emitAll ms, d => d.emitAll ms
  | flush, d => d.flush

end Call

def messagesOf (calls : List Call) : List Message := calls.flatMap Call.messages

/-- Writes one array: its start, what the calls write, and its end. -/
def writeArray (calls : List Call) (d : Document) : Document :=
  (calls.foldl (fun d call => call.perform d) d.start).finish

/-- Writes arrays one after another. -/
def writeArrays (batches : List (List Call)) (d : Document) : Document :=
  batches.foldl (fun d calls => d.writeArray calls) d

/-- The items of an array, where `first` tells whether no item was written before. -/
def itemsText : Bool → List Message → String
  | _, [] => ""
  | first, m :: ms =>
    (if first then "" else ",\n") ++ item (Row.ofMessage m) ++ itemsText false ms

def arrayText (first : Bool) (ms : List Message) : String := "[\n" ++ itemsText first ms ++ "\n]\n"

section Text

theorem emitAll_eq (ms : List Message) (d : Document) :
    d.emitAll ms =
      { d with first := d.first && ms.isEmpty, text := d.text ++ itemsText d.first ms } := by
  induction ms generalizing d with
  | nil => simp [emitAll, itemsText]
  | cons m ms ih =>
    have hstep : d.emitAll (m :: ms) = (d.emit m).emitAll ms := rfl
    rw [hstep, ih]
    cases hfirst : d.first <;> simp [emit, write, itemsText, hfirst, String.append_assoc]

theorem itemsText_append (first : Bool) (ms ns : List Message) :
    itemsText first (ms ++ ns) = itemsText first ms ++ itemsText (first && ms.isEmpty) ns := by
  induction ms generalizing first with
  | nil => simp [itemsText]
  | cons m ms ih => simp [itemsText, ih, String.append_assoc]

/-- The calls write what their messages written at once do, whatever the splitting is. -/
theorem text_calls (calls : List Call) (d : Document) :
    (calls.foldl (fun d call => call.perform d) d).text =
        d.text ++ itemsText d.first (messagesOf calls) ∧
      (calls.foldl (fun d call => call.perform d) d).first =
        (d.first && (messagesOf calls).isEmpty) := by
  induction calls generalizing d with
  | nil => simp [messagesOf, itemsText]
  | cons call calls ih =>
    have hcall : (call.perform d).text = d.text ++ itemsText d.first call.messages ∧
        (call.perform d).first = (d.first && call.messages.isEmpty) := by
      cases call with
      | emit m =>
        have hone : d.emit m = d.emitAll [m] := rfl
        simp [Call.perform, Call.messages, hone, emitAll_eq]
      | emitAll ms => simp [Call.perform, Call.messages, emitAll_eq]
      | flush => simp [Call.perform, Call.messages, flush, itemsText]
    obtain ⟨htext, hfirst⟩ := ih (call.perform d)
    have hsplit : messagesOf (call :: calls) = call.messages ++ messagesOf calls := rfl
    have hempty : (call.messages ++ messagesOf calls).isEmpty =
        (call.messages.isEmpty && (messagesOf calls).isEmpty) := by
      cases call.messages <;> rfl
    rw [List.foldl_cons, htext, hfirst, hcall.1, hcall.2, hsplit, itemsText_append]
    simp [String.append_assoc, Bool.and_assoc, hempty]

theorem text_writeArray (calls : List Call) (d : Document) :
    (d.writeArray calls).text = d.text ++ arrayText d.first (messagesOf calls) := by
  have htext := (text_calls calls d.start).1
  simp only [writeArray, finish, write, htext, arrayText]
  simp [start, write, String.append_assoc]

theorem first_writeArray (calls : List Call) (d : Document) :
    (d.writeArray calls).first = (d.first && (messagesOf calls).isEmpty) :=
  (text_calls calls d.start).2

end Text

section Items

open Json

theorem spells_quoted (s : String) : Spells (quoted s).toList (.value (.string s)) := by
  have hchars := spellsChars_escape escapes_documentEscapes faithful_documentEscapes s.toList
  simpa [quoted] using Spells.string (.quotes hchars)

theorem spells_word (n : UInt32) : Spells n.toNat.repr.toList (.value (.word n)) := by
  rw [Nat.toList_repr]
  exact spells_nat n.toNat

theorem spells_bool (b : Bool) :
    Spells (if b then "true" else "false").toList (.value (.bool b)) := by
  cases b with
  | true => exact .trueText
  | false => exact .falseText

theorem spells_valueTexts (r : Row) :
    List.Forall₂ (fun (text : String) j => Spells text.toList (.value j)) (valueTexts r)
      r.hostValues :=
  .cons (spells_word r.id) <| .cons (spells_quoted _) <| .cons (spells_quoted _) <|
    .cons (spells_quoted r.message) <| .cons (spells_quoted r.file) <|
    .cons (spells_bool r.readOnly) <| .cons (spells_word r.startLine) <|
    .cons (spells_word r.startColumn) <| .cons (spells_word r.endLine) <|
    .cons (spells_word r.endColumn) .nil

theorem spells_memberLine {key value : String} {j : Json}
    (hkey : ∀ c ∈ key.toList, 0x20 ≤ c.toNat ∧ c ≠ '"' ∧ c ≠ '\\')
    (h : Spells value.toList (.value j)) :
    Spells (memberLine key value).toList (.member (key, j)) := by
  have hindent : Blanks [' ', ' ', ' ', ' '] := by simp [Blanks]
  have hspace : Blanks [' '] := by simp [Blanks]
  have hmember := Spells.member hindent (.quotes (spellsChars_self hkey)) blanks_nil
    (h.toElement.padBefore trivial hspace)
  simpa [memberLine] using hmember

theorem spells_memberLines {keys texts : List String} {values : List Json}
    (hkeys : ∀ key ∈ keys, ∀ c ∈ key.toList, 0x20 ≤ c.toNat ∧ c ≠ '"' ∧ c ≠ '\\')
    (h : List.Forall₂ (fun (text : String) j => Spells text.toList (.value j)) texts values) :
    List.Forall₂ (fun cs m => Spells cs (.member m))
      ((List.zipWith memberLine keys texts).map String.toList) (keys.zip values) := by
  induction h generalizing keys with
  | nil => simp
  | cons hvalue hvalues ih =>
    cases keys with
    | nil => simp
    | cons key keys =>
      refine .cons (spells_memberLine (hkeys key List.mem_cons_self) hvalue) (ih ?_)
      exact fun k hk => hkeys k (List.mem_cons_of_mem key hk)

/-- An item spells its row. -/
theorem spells_item (r : Row) : Spells (item r).toList (.element r.toHostJson) := by
  have hkeys : ∀ key ∈ Row.keys, ∀ c ∈ key.toList, 0x20 ≤ c.toNat ∧ c ≠ '"' ∧ c ≠ '\\' := by
    simp [Row.keys]
  have hmembers := spells_join .lastMember .moreMembers (fun _ => trivial) blanks_lineEnd
    (spells_memberLines hkeys (spells_valueTexts r)) (by simp [Row.keys, Row.hostValues])
  have hindent : Blanks ['\n', ' ', ' '] := by simp [Blanks]
  have hobject := Spells.object
    ((hmembers.padBefore trivial blanks_lineEnd).padAfter trivial hindent)
  have hspace : Blanks [' ', ' '] := by simp [Blanks]
  simpa [item, Row.toHostJson_eq] using hobject.toElement.padBefore trivial hspace

theorem itemsText_false (m : Message) (ms : List Message) :
    itemsText false (m :: ms) = ",\n" ++ itemsText true (m :: ms) := by
  simp [itemsText, String.append_assoc]

theorem itemsText_true (ms : List Message) :
    itemsText true ms = ",\n".intercalate (ms.map fun m => item (Row.ofMessage m)) := by
  induction ms with
  | nil => simp [itemsText]
  | cons m ms ih =>
    cases ms with
    | nil => simp [itemsText]
    | cons n ms =>
      have hstep : itemsText true (m :: n :: ms) =
          item (Row.ofMessage m) ++ (",\n" ++ itemsText true (n :: ms)) := by
        rw [← itemsText_false]
        simp [itemsText]
      simp [hstep, ih, String.append_assoc]

theorem toList_itemsText (ms : List Message) :
    (itemsText true ms).toList =
      [',', '\n'].intercalate (ms.map fun m => (item (Row.ofMessage m)).toList) := by
  simp [itemsText_true, Function.comp_def]

/-- The document of a fresh writer is joined from the items. -/
theorem ofMessages_eq (ms : List Message) :
    ofMessages ms =
      "[\n" ++ ",\n".intercalate (ms.map fun m => item (Row.ofMessage m)) ++ "\n]\n" := by
  simp [ofMessages, finish, write, emitAll_eq, start, blank, ← itemsText_true]

/-- The array of the rows of these messages, as the host knows them. -/
def rowsOf (ms : List Message) : Json := .array (ms.map fun m => (Row.ofMessage m).toHostJson)

theorem spells_arrayText (ms : List Message) :
    Spells (arrayText true ms).toList (.element (rowsOf ms)) := by
  have hvalue : Spells ('[' :: ('\n' :: (itemsText true ms).toList ++ ['\n'] ++ [']']))
      (.value (rowsOf ms)) := by
    cases ms with
    | nil => exact .emptyArray (by simp [Blanks, itemsText])
    | cons m ms =>
      have hitems : Spells (itemsText true (m :: ms)).toList
          (.elements ((m :: ms).map fun m => (Row.ofMessage m).toHostJson)) := by
        rw [toList_itemsText]
        refine spells_join .lastElement .moreElements (fun _ => trivial) blanks_lineEnd ?_ (by simp)
        exact List.forall₂_map_left_iff.2 (List.forall₂_map_right_iff.2
          (List.forall₂_same.2 fun m _ => spells_item (Row.ofMessage m)))
      exact .array ((hitems.padBefore trivial blanks_lineEnd).padAfter trivial blanks_lineEnd)
  simpa [arrayText] using hvalue.toElement.padAfter trivial blanks_lineEnd

end Items

/-- However an array is split into calls, its text spells the rows of the messages, and is read as
the array of these rows. -/
theorem writeArray_spells_rows (calls : List Call) :
    let text := (blank.writeArray calls).text
    Json.Spells text.toList (.element (rowsOf (messagesOf calls))) ∧
      Json.parse text = some (rowsOf (messagesOf calls)) := by
  have htext : (blank.writeArray calls).text = arrayText true (messagesOf calls) := by
    simp [text_writeArray, blank]
  have hspells := spells_arrayText (messagesOf calls)
  rw [htext]
  exact ⟨hspells, Json.parse_of_spells hspells⟩

/-- The texts that one writer adds array by array, where `first` tells whether no item was written
before. -/
def arrayTexts : Bool → List (List Call) → List String
  | _, [] => []
  | first, calls :: rest =>
    arrayText first (messagesOf calls) :: arrayTexts (first && (messagesOf calls).isEmpty) rest

/-- The document that a fresh writer makes of the calls. -/
def freshText (calls : List Call) : String := (blank.writeArray calls).text

theorem freshText_eq (calls : List Call) : freshText calls = arrayText true (messagesOf calls) := by
  simp [freshText, text_writeArray, blank]

theorem text_writeArrays (batches : List (List Call)) (d : Document) :
    (d.writeArrays batches).text = d.text ++ String.join (arrayTexts d.first batches) := by
  induction batches generalizing d with
  | nil => simp [writeArrays, arrayTexts]
  | cons calls batches ih =>
    have hstep : d.writeArrays (calls :: batches) = (d.writeArray calls).writeArrays batches := rfl
    rw [hstep, ih, text_writeArray, first_writeArray]
    simp [arrayTexts, String.append_assoc]

theorem first_writeArrays (batches : List (List Call)) (d : Document) :
    (d.writeArrays batches).first = (d.first && (messagesOf batches.flatten).isEmpty) := by
  induction batches generalizing d with
  | nil => simp [writeArrays, messagesOf]
  | cons calls batches ih =>
    have hstep : d.writeArrays (calls :: batches) = (d.writeArray calls).writeArrays batches := rfl
    have hempty : (messagesOf (calls :: batches).flatten).isEmpty =
        ((messagesOf calls).isEmpty && (messagesOf batches.flatten).isEmpty) := by
      rw [messagesOf, List.flatten_cons, List.flatMap_append]
      cases h : calls.flatMap Call.messages <;> simp [messagesOf, h]
    rw [hstep, ih, first_writeArray, hempty, Bool.and_assoc]

/-- The text of an array with items that is written after other items starts with a comma. -/
theorem arrayText_false {ms : List Message} (h : ms ≠ []) :
    arrayText false ms = "[\n" ++ (",\n" ++ (itemsText true ms ++ "\n]\n")) := by
  obtain ⟨m, rest, rfl⟩ := List.exists_cons_of_ne_nil h
  simp [arrayText, itemsText_false, String.append_assoc]

theorem arrayText_of_fresh {first : Bool} {ms : List Message} (h : first = true ∨ ms = []) :
    arrayText first ms = arrayText true ms := by
  rcases h with rfl | rfl
  · rfl
  · simp [arrayText, itemsText]

theorem readValue_comma (budget : Nat) (rest : List Char) :
    Json.readValue budget (',' :: rest) = none := by
  cases budget with
  | zero => rfl
  | succ b =>
    simp [Json.readValue, Json.skipBlanks, Json.isBlank, Json.Numeral.read, Json.Numeral.readSign,
      Json.Numeral.readWhole, Json.Numeral.readDigits]

theorem parse_arrayText_false {ms : List Message} (h : ms ≠ []) :
    Json.parse (arrayText false ms) = none := by
  rw [arrayText_false h]
  simp [Json.parse, Json.readChars, Json.readValue, Json.skipBlanks, Json.isBlank, Json.readItems,
    readValue_comma]

/-- With a comma in front, the text of an array is another one than without. -/
theorem arrayText_false_append_ne {ms : List Message} (h : ms ≠ []) (s t : String) :
    arrayText false ms ++ s ≠ arrayText true ms ++ t := by
  obtain ⟨m, rest, rfl⟩ := List.exists_cons_of_ne_nil h
  intro heq
  have hlists := congrArg String.toList heq
  simp [arrayText, itemsText, item] at hlists

/-- No two of the arrays have items. -/
def OneFilled (batches : List (List Call)) : Prop :=
  batches.Pairwise fun earlier later => messagesOf earlier = [] ∨ messagesOf later = []

theorem join_arrayTexts_eq_iff (first : Bool) (batches : List (List Call)) :
    String.join (arrayTexts first batches) = String.join (batches.map freshText) ↔
      OneFilled batches ∧ (first = false → ∀ calls ∈ batches, messagesOf calls = []) := by
  induction batches generalizing first with
  | nil => simp [arrayTexts, OneFilled]
  | cons calls batches ih =>
    by_cases hfresh : first = true ∨ messagesOf calls = []
    · have hrest := ih (first && (messagesOf calls).isEmpty)
      simp only [arrayTexts, arrayText_of_fresh hfresh, List.map_cons, freshText_eq,
        String.join_cons, String.append_right_inj] at hrest ⊢
      rw [hrest]
      simp only [OneFilled, List.pairwise_cons, List.forall_mem_cons]
      rcases hfresh with rfl | hempty
      · by_cases hempty : messagesOf calls = []
        · simp [hempty]
        · simp [hempty, and_comm]
      · simp [hempty]
    · simp only [not_or, Bool.not_eq_true] at hfresh
      obtain ⟨rfl, hitems⟩ := hfresh
      simp only [arrayTexts, List.map_cons, freshText_eq, String.join_cons]
      refine iff_of_false (arrayText_false_append_ne hitems _ _) fun h => ?_
      exact hitems (h.2 (by simp) calls List.mem_cons_self)

/-- The text of an array is JSON text exactly if it is the document of a fresh writer, that is, if
no item was written before or it has no item itself. -/
theorem arrayText_fresh_iff (first : Bool) (ms : List Message) :
    (arrayText first ms = arrayText true ms ↔ first = true ∨ ms = []) ∧
      ((∃ j, Json.Spells (arrayText first ms).toList (.element j)) ↔ first = true ∨ ms = []) := by
  by_cases hfresh : first = true ∨ ms = []
  · have htext := arrayText_of_fresh hfresh
    refine ⟨iff_of_true htext hfresh, iff_of_true ⟨rowsOf ms, ?_⟩ hfresh⟩
    rw [htext]
    exact spells_arrayText ms
  · have hreused := hfresh
    simp only [not_or, Bool.not_eq_true] at hreused
    obtain ⟨rfl, hitems⟩ := hreused
    refine ⟨iff_of_false (fun heq => ?_) hfresh, iff_of_false ?_ hfresh⟩
    · exact arrayText_false_append_ne hitems "" "" (by rw [heq])
    · rintro ⟨j, hspells⟩
      have hparse := Json.parse_of_spells hspells
      rw [parse_arrayText_false hitems] at hparse
      cases hparse

/-- What arrays written by the same writer come to. Together they are the documents of fresh
writers exactly if no two of them have items. The text of each one is the document of a fresh
writer, and JSON text at all, exactly if there were no items before it or it has none. -/
theorem writeArrays_fresh_iff (batches : List (List Call)) :
    ((blank.writeArrays batches).text = String.join (batches.map freshText) ↔
      OneFilled batches) ∧
    ∀ k : Fin batches.length, ∃ added,
      (blank.writeArrays (batches.take (k + 1))).text =
        (blank.writeArrays (batches.take k)).text ++ added ∧
      (added = freshText batches[k] ↔
        messagesOf (batches.take k).flatten = [] ∨ messagesOf batches[k] = []) ∧
      ((∃ j, Json.Spells added.toList (.element j)) ↔
        messagesOf (batches.take k).flatten = [] ∨ messagesOf batches[k] = []) := by
  refine ⟨by simp [text_writeArrays, blank, join_arrayTexts_eq_iff], fun k => ?_⟩
  have hstep : blank.writeArrays (batches.take (k + 1)) =
      (blank.writeArrays (batches.take k)).writeArray batches[k] := by
    rw [List.take_succ_eq_append_getElem k.isLt, writeArrays, List.foldl_append]
    rfl
  refine ⟨arrayText (messagesOf (batches.take k).flatten).isEmpty (messagesOf batches[k]), ?_, ?_⟩
  · rw [hstep, text_writeArray, first_writeArrays]
    rfl
  · rw [freshText_eq, ← List.isEmpty_iff (l := messagesOf (batches.take k).flatten)]
    exact arrayText_fresh_iff _ _

/-- So a writer cannot be used for a second array: two arrays of one message each are enough. -/
theorem writer_not_reusable :
    ¬ ∀ batches, (blank.writeArrays batches).text = String.join (batches.map freshText) := by
  intro h
  let m : Message := ⟨0, .syntactic, .error, "a", [], none⟩
  have htwo := h [[.emit m], [.emit m]]
  rw [text_writeArrays, blank, String.empty_append, join_arrayTexts_eq_iff] at htwo
  simp [OneFilled, messagesOf, Call.messages] at htwo

end Document

end DiagnosticLog
