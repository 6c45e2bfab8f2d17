import DiagnosticLog.Message

/-!
The location is a part of what identifies a message. A location is written in front of a message
without any escaping, and a path may contain every character that separates the parts. But what
comes after the path has no separators of its own, so the parts can be told apart from the right:
the written form determines the location, down to the spelling of the path
(`Location.render_injective`). Hence the full text decides whether two messages are equal, and the
comparison of paths by components never does (`Message.same_iff`).
-/

namespace DiagnosticLog

/-- A list can be split in one way only at the last of its separators. -/
theorem append_cons_inj_of_notMem_right {α : Type} {c : α} {as bs us vs : List α} (hu : c ∉ us)
    (hv : c ∉ vs) (h : as ++ c :: us = bs ++ c :: vs) : as = bs ∧ us = vs := by
  induction as generalizing bs with
  | nil =>
    cases bs with
    | nil => exact ⟨rfl, List.tail_eq_of_cons_eq h⟩
    | cons b bs =>
      obtain ⟨-, rfl⟩ := List.cons.inj h
      exact absurd (List.mem_append_right bs List.mem_cons_self) hu
  | cons a as ih =>
    cases bs with
    | nil =>
      obtain ⟨-, rfl⟩ := List.cons.inj h
      exact absurd (List.mem_append_right as List.mem_cons_self) hv
    | cons b bs =>
      obtain ⟨rfl, hrest⟩ := List.cons.inj h
      exact (ih hrest).imp_left (congrArg (List.cons a))

/-- Two texts joined by a separator that their second parts do not contain are equal in both
parts. -/
theorem append_separator_inj {separator : String} {c : Char} (hseparator : separator.toList = [c])
    {a b u v : String} (hu : c ∉ u.toList) (hv : c ∉ v.toList)
    (h : a ++ separator ++ u = b ++ separator ++ v) : a = b ∧ u = v := by
  have hlist := congrArg String.toList h
  simp only [String.toList_append, hseparator, List.append_assoc, List.singleton_append] at hlist
  obtain ⟨hfirst, hsecond⟩ := append_cons_inj_of_notMem_right hu hv hlist
  exact ⟨String.toList_inj.1 hfirst, String.toList_inj.1 hsecond⟩

theorem notMem_repr {c : Char} (hc : c.isDigit = false) (n : Nat) : c ∉ n.repr.toList := by
  intro hmem
  rw [Nat.toList_repr] at hmem
  have hdigit := Nat.isDigit_of_mem_toDigits (by decide) (by decide) hmem
  rw [hc] at hdigit
  cases hdigit

theorem eq_of_repr_toNat_eq {a b : UInt32} (h : a.toNat.repr = b.toNat.repr) : a = b := by
  have hvalue := congrArg (fun text => Nat.ofDigitChars 10 text.toList 0) h
  simp only [Nat.toList_repr, Nat.ofDigitChars_ten_toDigits] at hvalue
  exact UInt32.toNat_inj.1 hvalue

attribute [ext] Path

namespace Location

theorem notMem_access (readOnly : Bool) : ':' ∉ (access readOnly).toList := by
  cases readOnly <;> decide

theorem access_injective {a b : Bool} (h : access a = access b) : a = b := by
  revert h
  cases a <;> cases b <;> decide

/-- The written form of a location determines all its parts, which are told apart from the
right. -/
theorem render_injective {l k : Location} (h : l.render = k.render) : l = k := by
  have hcolon : ":".toList = [':'] := rfl
  have hdash : "-".toList = ['-'] := rfl
  have hnoColon := notMem_repr (c := ':') (by decide)
  have hnoDash := notMem_repr (c := '-') (by decide)
  obtain ⟨h, haccess⟩ := append_separator_inj hcolon (notMem_access _) (notMem_access _) h
  obtain ⟨h, hendColumn⟩ := append_separator_inj hcolon (hnoColon _) (hnoColon _) h
  obtain ⟨h, hendLine⟩ := append_separator_inj hdash (hnoDash _) (hnoDash _) h
  obtain ⟨h, hstartColumn⟩ := append_separator_inj hcolon (hnoColon _) (hnoColon _) h
  obtain ⟨hfile, hstartLine⟩ := append_separator_inj hcolon (hnoColon _) (hnoColon _) h
  cases l
  cases k
  simp only [mk.injEq]
  exact ⟨Path.ext hfile, access_injective haccess, eq_of_repr_toNat_eq hstartLine,
    eq_of_repr_toNat_eq hstartColumn, eq_of_repr_toNat_eq hendLine, eq_of_repr_toNat_eq hendColumn⟩

/-- Two locations with the same parts, the paths spelled in the same way. -/
def SameParts (l k : Location) : Prop :=
  l.file.text = k.file.text ∧ l.readOnly = k.readOnly ∧ l.startLine = k.startLine ∧
    l.startColumn = k.startColumn ∧ l.endLine = k.endLine ∧ l.endColumn = k.endColumn

theorem sameParts_iff {l k : Location} : l.SameParts k ↔ l = k := by
  obtain ⟨⟨text⟩, readOnly, startLine, startColumn, endLine, endColumn⟩ := l
  obtain ⟨⟨text'⟩, readOnly', startLine', startColumn', endLine', endColumn'⟩ := k
  simp [SameParts]

end Location

namespace Message

theorem place_injective {p q : Option Location} (h : place p = place q) : p = q := by
  cases p with
  | none =>
    cases q with
    | none => rfl
    | some k =>
      have hlist := congrArg String.toList h
      simp [place, String.toList_append] at hlist
  | some l =>
    cases q with
    | none =>
      have hlist := congrArg String.toList h
      simp [place, String.toList_append] at hlist
    | some k =>
      have hlist := congrArg String.toList h
      simp only [place, String.toList_append, List.append_assoc] at hlist
      have hrender := List.append_cancel_right (List.append_cancel_left hlist)
      rw [Location.render_injective (String.toList_inj.1 hrender)]

/-- Of two messages with one short text the full texts are equal exactly if the locations are. -/
theorem fullText_eq_iff {m n : Message} (h : m.shortText = n.shortText) :
    m.fullText = n.fullText ↔ m.location = n.location := by
  constructor
  · intro hfull
    have hlist := congrArg String.toList hfull
    simp only [fullText, h, String.toList_append] at hlist
    exact place_injective (String.toList_inj.1 (List.append_cancel_right hlist))
  · intro hlocation
    rw [fullText, fullText, hlocation, h]

/-- Messages are equal if they agree in everything but the location and in the full text. -/
theorem same_iff {m n : Message} :
    m.same n = true ↔ m.id = n.id ∧ m.kind = n.kind ∧ m.severity = n.severity ∧
      m.tokens = n.tokens ∧ m.shortText = n.shortText ∧ m.fullText = n.fullText := by
  simp only [same, Bool.and_eq_true, beq_iff_eq]
  constructor
  · rintro ⟨⟨⟨⟨⟨⟨hid, hkind⟩, hseverity⟩, hshort⟩, hfull⟩, htokens⟩, -⟩
    exact ⟨hid, hkind, hseverity, htokens, hshort, hfull⟩
  · rintro ⟨hid, hkind, hseverity, htokens, hshort, hfull⟩
    rw [(fullText_eq_iff hshort).1 hfull]
    exact ⟨⟨⟨⟨⟨⟨hid, hkind⟩, hseverity⟩, hshort⟩, hfull⟩, htokens⟩, sameLocation_refl _⟩

/-- Whatever the paths are, two messages with one short text have one full text exactly if both have
no location, or both have locations with the same parts. So messages are equal exactly if they agree
in the full text and in all parts but the location, and locations with paths that are spelled
differently make them unequal, also if the paths are the same by their components. -/
theorem location_part_of_identity (m n : Message) :
    (m.shortText = n.shortText → (m.fullText = n.fullText ↔
      (m.location = none ∧ n.location = none) ∨
      ∃ l k, m.location = some l ∧ n.location = some k ∧ l.SameParts k)) ∧
    (m.same n = true ↔ m.id = n.id ∧ m.kind = n.kind ∧ m.severity = n.severity ∧
      m.tokens = n.tokens ∧ m.shortText = n.shortText ∧ m.fullText = n.fullText) ∧
    ∀ l k, m.location = some l → n.location = some k → l.same k = true →
      l.file.text ≠ k.file.text → m.same n = false := by
  refine ⟨fun hshort => ?_, same_iff, fun l k hl hk _ hspelling => ?_⟩
  · rw [fullText_eq_iff hshort]
    cases hm : m.location with
    | none => cases n.location <;> simp
    | some l => cases n.location <;> simp [Location.sameParts_iff]
  · rw [← Bool.not_eq_true, same_iff]
    rintro ⟨-, -, -, -, hshort, hfull⟩
    have hlocation := (fullText_eq_iff hshort).1 hfull
    rw [hl, hk, Option.some.injEq] at hlocation
    exact hspelling (by rw [hlocation])

/-- A message in a file whose path has a colon and a number at its end. -/
def slashed : Message :=
  ⟨0, .syntactic, .error, "a", [], some ⟨⟨"x/y:1"⟩, false, 2, 3, 4, 5⟩⟩

/-- The same message with another spelling of the path. -/
def doublySlashed : Message :=
  ⟨0, .syntactic, .error, "a", [], some ⟨⟨"x//y:1"⟩, false, 2, 3, 4, 5⟩⟩

theorem location_part_of_identity_slashes :
    slashed.shortText = doublySlashed.shortText ∧
    sameLocation slashed.location doublySlashed.location = true ∧
    slashed.fullText ≠ doublySlashed.fullText ∧ slashed.same doublySlashed = false := by
  have hspelling : "x/y:1" ≠ "x//y:1" := by decide
  refine ⟨rfl, by decide, fun hfull => ?_, ?_⟩
  · rcases ((location_part_of_identity slashed doublySlashed).1 rfl).1 hfull with
      ⟨hnone, -⟩ | ⟨l, k, hl, hk, hparts⟩
    · cases hnone
    · cases hl
      cases hk
      exact hspelling hparts.1
  · exact (location_part_of_identity slashed doublySlashed).2.2 _ _ rfl rfl (by decide) hspelling

end Message

end DiagnosticLog
