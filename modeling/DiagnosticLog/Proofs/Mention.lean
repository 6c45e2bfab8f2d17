import DiagnosticLog.Operation

/-!
How a reported message mentions the component in focus. The mention is put in front of the template,
so the name is read as a part of the template. A name in which no `%` has a mark behind it comes out
as it is, and the template after it gets the same tokens as it would without a component. A
placeholder in the name takes tokens like any other, and its sequential placeholders take theirs
before the template gets any (`Focus.shortText_message`). So a name is mentioned as it is in every
message exactly if it has no placeholder (`mention_verbatim_iff`).
-/

namespace DiagnosticLog

namespace Template

/-- No `%` is followed by `s` or by a digit from 1 to 9. -/
def Plain (cs : List Char) : Prop :=
  ∀ before mark after, cs = before ++ '%' :: mark :: after →
    mark ≠ 's' ∧ ¬('1' ≤ mark ∧ mark ≤ '9')

theorem ofMark?_eq_none_iff {c : Char} :
    Piece.ofMark? c = none ↔ c ≠ 's' ∧ ¬('1' ≤ c ∧ c ≤ '9') := by
  unfold Piece.ofMark?
  split
  · simp_all
  · split <;> simp_all

theorem ofChars_cons_of_ne {c : Char} (h : c ≠ '%') (cs : List Char) :
    ofChars (c :: cs) = .literal c :: ofChars cs := by
  cases cs <;> simp [ofChars, h]

/-- Text without a `%` is read as it is, whatever comes after it. -/
theorem ofChars_append_of_notMem {cs : List Char} (h : '%' ∉ cs) (rest : List Char) :
    ofChars (cs ++ rest) = cs.map .literal ++ ofChars rest := by
  induction cs with
  | nil => rfl
  | cons c cs ih =>
    obtain ⟨hc, hcs⟩ := List.ne_and_not_mem_of_not_mem_cons h
    rw [List.cons_append, ofChars_cons_of_ne hc.symm, ih hcs, List.map_cons, List.cons_append]

theorem ofChars_placeholder {mark : Char} {p : Piece} (h : Piece.ofMark? mark = some p)
    (cs : List Char) : ofChars ('%' :: mark :: cs) = p :: ofChars cs := by
  simp [ofChars, h]

/-- A text can be read in two parts, unless the second begins with a mark. -/
theorem ofChars_append (cs : List Char) {rest : List Char}
    (h : ∀ c ∈ rest.head?, Piece.ofMark? c = none) :
    ofChars (cs ++ rest) = ofChars cs ++ ofChars rest := by
  fun_induction ofChars cs with
  | case1 => rfl
  | case2 c =>
    cases rest with
    | nil => rfl
    | cons d rest =>
      have hmark : Piece.ofMark? d = none := h d rfl
      simp [ofChars, hmark]
  | case3 d cs p hp ih => simp [ofChars, hp, ih]
  | case4 d cs hp ih => simpa [ofChars, hp] using ih
  | case5 c d cs hc ih => simpa [ofChars, hc] using ih

theorem Plain.tail {c : Char} {cs : List Char} (h : Plain (c :: cs)) : Plain cs := by
  intro before mark after hcs
  exact h (c :: before) mark after (by rw [hcs, List.cons_append])

theorem ofChars_of_plain {cs : List Char} (h : Plain cs) : ofChars cs = cs.map .literal := by
  fun_induction ofChars cs with
  | case1 => rfl
  | case2 c => rfl
  | case3 d cs p hp ih =>
    have hmark : Piece.ofMark? d = none := ofMark?_eq_none_iff.2 (h [] d cs rfl)
    cases hmark.symm.trans hp
  | case4 d cs hp ih => rw [ih h.tail, List.map_cons (a := '%')]
  | case5 c d cs hc ih => rw [ih h.tail, List.map_cons (a := c)]

theorem expandFrom_append (tokens : List String) (used : Nat) (t u : Template) :
    expandFrom tokens used (t ++ u) =
      expandFrom tokens used t ++ expandFrom tokens (used + t.count .next) u := by
  fun_induction expandFrom tokens used t with
  | case1 used => rfl
  | case2 used c t ih => simp [expandFrom, ih]
  | case3 used t ih =>
    have hcount : used + 1 + t.count .next = used + (Piece.next :: t).count .next := by
      rw [List.count_cons_self]
      omega
    simp [expandFrom, ih, hcount]
  | case4 used n t ih => simp [expandFrom, ih]

theorem expandFrom_literals (tokens : List String) (used : Nat) (cs : List Char) :
    expandFrom tokens used (cs.map .literal) = cs := by
  induction cs with
  | nil => rfl
  | cons c cs ih => rw [List.map_cons, expandFrom, ih]

theorem count_next_literals (cs : List Char) : (cs.map Piece.literal).count .next = 0 := by
  simp [List.count_eq_zero]

theorem length_fill_le {tokens : List String} (h : ∀ token ∈ tokens, token = "") (n : Nat)
    (p : Piece) : (fill tokens n p).length ≤ p.source.length := by
  unfold fill
  split
  · rename_i token htoken
    rw [h token (List.mem_of_getElem? htoken)]
    exact Nat.zero_le _
  · exact Nat.le_refl _

/-- Empty tokens never make a template longer than its text. -/
theorem length_expandFrom_le {tokens : List String} (h : ∀ token ∈ tokens, token = "")
    (used : Nat) (t : Template) : (expandFrom tokens used t).length ≤ t.source.length := by
  fun_induction expandFrom tokens used t with
  | case1 used => exact Nat.le_refl _
  | case2 used c t ih => simpa [source, Piece.source] using ih
  | case3 used t ih =>
    have hfill := length_fill_le h used .next
    simp only [source, List.flatMap_cons, List.length_append] at ih ⊢
    omega
  | case4 used n t ih =>
    have hfill := length_fill_le h n (.position n)
    simp only [source, List.flatMap_cons, List.length_append] at ih ⊢
    omega

theorem exists_expandFrom_cons {mark : Char} {p : Piece} (h : Piece.ofMark? mark = some p)
    (used : Nat) : ∃ n used', ∀ tokens t,
      expandFrom tokens used (p :: t) = fill tokens n p ++ expandFrom tokens used' t := by
  cases p with
  | literal c =>
    have hsource := Piece.source_of_ofMark? h
    cases hsource
  | next => exact ⟨used, used + 1, fun tokens t => rfl⟩
  | position n => exact ⟨n, used, fun tokens t => rfl⟩

/-- With the right tokens, all of them empty, a text that has a placeholder becomes shorter. -/
theorem exists_length_expandFrom_lt {mark : Char} {p : Piece} (h : Piece.ofMark? mark = some p)
    (before after : List Char) :
    ∃ tokens, (expandFrom tokens 0 (ofChars (before ++ '%' :: mark :: after))).length <
      (before ++ '%' :: mark :: after).length := by
  have hsplit : ofChars (before ++ '%' :: mark :: after) =
      ofChars before ++ p :: ofChars after := by
    rw [ofChars_append before (by simp [Piece.ofMark?]), ofChars_placeholder h]
  obtain ⟨n, used, hcons⟩ := exists_expandFrom_cons h (0 + (ofChars before).count .next)
  have hempty : ∀ token ∈ List.replicate (n + 1) "", token = "" := fun token htoken =>
    List.eq_of_mem_replicate htoken
  have hfill : fill (List.replicate (n + 1) "") n p = [] := by simp [fill]
  have hbefore := length_expandFrom_le hempty 0 (ofChars before)
  have hafter := length_expandFrom_le hempty used (ofChars after)
  rw [source_ofChars] at hbefore hafter
  refine ⟨List.replicate (n + 1) "", ?_⟩
  rw [hsplit, expandFrom_append, hcons, hfill]
  simp only [List.length_append, List.length_cons, List.nil_append]
  omega

end Template

namespace Focus

/-- The template of a mention is made of the templates of its parts. -/
theorem ofString_annotate {f : Focus} (hname : f.name ≠ "") (text : String) :
    Template.ofString (f.annotate text) =
      "Variable ".toList.map .literal ++ (Template.ofString f.name ++
        (": ".toList.map .literal ++ Template.ofString text)) := by
  have hvariable : '%' ∉ "Variable ".toList := by decide
  have hcolon : '%' ∉ ": ".toList := by decide
  have hboundary : ∀ c ∈ (": ".toList ++ text.toList).head?, Piece.ofMark? c = none := by
    simp [Piece.ofMark?]
  simp only [Template.ofString, annotate, if_neg hname, String.toList_append, List.append_assoc]
  rw [Template.ofChars_append_of_notMem hvariable, Template.ofChars_append _ hboundary,
    Template.ofChars_append_of_notMem hcolon]

/-- The name of the component is expanded like the template it stands in front of, and takes the
first of the tokens. -/
theorem shortText_message {f : Focus} (hname : f.name ≠ "") (d : Draft) :
    (f.message d).shortText =
      "Variable " ++ (Template.ofString f.name).expand d.tokens ++ ": " ++
        String.ofList (Template.expandFrom d.tokens
          ((Template.ofString f.name).count .next) (Template.ofString d.text)) := by
  calc (f.message d).shortText
      = (Template.ofString (f.annotate d.text)).expand d.tokens := rfl
    _ = _ := by
      rw [ofString_annotate hname, Template.expand, Template.expandFrom_append,
        Template.expandFrom_append, Template.expandFrom_append]
      simp only [Template.expandFrom_literals, Template.count_next_literals, Nat.zero_add,
        Nat.add_zero, String.ofList_append, String.ofList_toList, String.append_assoc,
        Template.expand]

theorem shortText_message_nowhere (d : Draft) :
    (nowhere.message d).shortText = (Template.ofString d.text).expand d.tokens := rfl

/-- A name without a placeholder comes out as it is and takes no tokens. -/
theorem shortText_message_of_plain {f : Focus} (hname : f.name ≠ "")
    (h : Template.Plain f.name.toList) (d : Draft) :
    (f.message d).shortText =
      "Variable " ++ f.name ++ ": " ++ (nowhere.message d).shortText := by
  have hread : Template.ofString f.name = f.name.toList.map .literal := Template.ofChars_of_plain h
  rw [shortText_message hname, shortText_message_nowhere, hread, Template.count_next_literals,
    Template.expand, Template.expandFrom_literals, String.ofList_toList, Template.expand]

/-- A name with a placeholder is not mentioned as it is in a draft that has no text and brings the
right tokens. -/
theorem exists_shortText_message_ne {f : Focus} (hname : f.name ≠ "") {before after : List Char}
    {mark : Char} {p : Piece} (hmark : Piece.ofMark? mark = some p)
    (h : f.name.toList = before ++ '%' :: mark :: after) :
    ∃ d, (f.message d).shortText ≠
      "Variable " ++ f.name ++ ": " ++ (nowhere.message d).shortText := by
  obtain ⟨tokens, hshort⟩ := Template.exists_length_expandFrom_lt hmark before after
  rw [← h] at hshort
  refine ⟨⟨0, .syntactic, .error, "", tokens⟩, fun heq => ?_⟩
  rw [shortText_message hname, shortText_message_nowhere] at heq
  have hlength := congrArg (fun text => text.toList.length) heq
  simp only [Template.expand, Template.ofString, String.toList_append, List.length_append,
    String.toList_ofList] at hlength hshort
  simp [Template.ofChars, Template.expandFrom] at hlength
  omega

end Focus

namespace Store

/-- Reporting the draft stores one message, and this is its short text. -/
def Reports (d : Draft) (text : String) (s : Store) : Prop :=
  ∃ m, (s.perform (.report d)).result = .ok (.nothing, { s with log := s.log.push m }) ∧
    m.shortText = text

theorem reports_iff {s : Store} {d : Draft} {text : String} :
    s.Reports d text ↔ (s.focus.message d).shortText = text := by
  constructor
  · rintro ⟨m, hresult, hm⟩
    have hpush : s.log.push (s.focus.message d) = s.log.push m :=
      congrArg Store.log (Prod.mk.inj (Except.ok.inj hresult)).2
    have hmessage : s.focus.message d = m :=
      (List.cons.inj (congrArg Log.newestFirst hpush)).1
    rw [hmessage, hm]
  · intro h
    exact ⟨s.focus.message d, rfl, h⟩

/-- With a component in focus, a reported message mentions the name of the component as the template
that it is; the text after it is expanded with the tokens that are left. The mention shows the name
as it is in all messages, with the text as it would be without a component, exactly if the name has
no placeholder. -/
theorem mention_verbatim_iff (s : Store) (hname : s.focus.name ≠ "") :
    ((∀ d, s.Reports d
        ("Variable " ++ s.focus.name ++ ": " ++ (Focus.nowhere.message d).shortText)) ↔
      Template.Plain s.focus.name.toList) ∧
    ∀ d, s.Reports d
      ("Variable " ++ (Template.ofString s.focus.name).expand d.tokens ++ ": " ++
        String.ofList (Template.expandFrom d.tokens
          ((Template.ofString s.focus.name).count .next) (Template.ofString d.text))) := by
  refine ⟨⟨fun h before mark after hcs => ?_, fun h d => ?_⟩, fun d => ?_⟩
  · cases hmark : Piece.ofMark? mark with
    | none => exact Template.ofMark?_eq_none_iff.1 hmark
    | some p =>
      obtain ⟨d, hd⟩ := Focus.exists_shortText_message_ne hname hmark hcs
      exact absurd (reports_iff.1 (h d)) hd
  · exact reports_iff.2 (Focus.shortText_message_of_plain hname h d)
  · exact reports_iff.2 (Focus.shortText_message hname d)

/-- A store on which a component is in focus whose name is a percent sign. It stands in front of the
colon, which is no mark. -/
def onPercentSign : Store := ⟨.empty, .empty, ⟨"%", none⟩, .quiet⟩

theorem mention_verbatim_percent_sign :
    onPercentSign.focus.name ≠ "" ∧ Template.Plain onPercentSign.focus.name.toList ∧
    ∀ d, onPercentSign.Reports d ("Variable %: " ++ (Focus.nowhere.message d).shortText) := by
  have hplain : Template.Plain onPercentSign.focus.name.toList := by
    intro before mark after h
    have hlength := congrArg List.length h
    simp only [onPercentSign, List.length_append, List.length_cons] at hlength
    have hone : "%".toList.length = 1 := by decide
    omega
  exact ⟨by decide, hplain, (mention_verbatim_iff onPercentSign (by decide)).1.2 hplain⟩

/-- A component of this name is not mentioned by it, and takes the token that is meant for the
text. -/
theorem mention_not_always_verbatim :
    ¬ ∀ s : Store, s.focus.name ≠ "" → ∀ d, s.Reports d
      ("Variable " ++ s.focus.name ++ ": " ++ (Focus.nowhere.message d).shortText) := by
  intro h
  have hreports := h ⟨.empty, .empty, ⟨"%s", none⟩, .quiet⟩ (by decide)
    ⟨0, .syntactic, .error, "a", ["t"]⟩
  rw [reports_iff] at hreports
  revert hreports
  decide

end Store

end DiagnosticLog
