import DiagnosticLog.Proofs.Echo

/-!
Whether the full text of a message can be told from its row. A row shows a location only by its
coordinates, so a location whose coordinates are all zero looks like none, while the full text shows
every location that the message has. A message that is reported on the component in focus never has
such a location, because the focus drops it (`focus_settled_of_reachable`); but one that is reported
at a location of its own may, and so may one that is pushed. The full text is what the row tells
exactly if the message has no such location (`Message.fullText_eq_row_iff`).
-/

namespace DiagnosticLog

namespace Row

def hasCoordinates (r : Row) : Bool :=
  r.startLine != 0 || r.startColumn != 0 || r.endLine != 0 || r.endColumn != 0

/-- The location in brackets, as far as the row has it. -/
def place (r : Row) : String :=
  "[" ++ (r.file ++ ":" ++ r.startLine.toNat.repr ++ ":" ++ r.startColumn.toNat.repr ++ "-" ++
    r.endLine.toNat.repr ++ ":" ++ r.endColumn.toNat.repr ++ ":" ++
    if r.readOnly then "readonly" else "writable") ++ "] "

/-- The full text that the row tells: zeros stand for no location. -/
def fullText (r : Row) : String := if r.hasCoordinates then r.place ++ r.message else r.message

theorem ofMessage_of_location {m : Message} {l : Location} (h : m.location = some l) :
    ofMessage m = ⟨m.id, m.kind, m.severity, m.shortText, l.file.text, l.readOnly, l.startLine,
      l.startColumn, l.endLine, l.endColumn⟩ := by
  rw [ofMessage, h]
  rfl

end Row

namespace Message

theorem fullText_of_location {m : Message} {l : Location} (h : m.location = some l) :
    m.fullText = (Row.ofMessage m).place ++ (Row.ofMessage m).message := by
  rw [fullText, h, Row.ofMessage_of_location h]
  rfl

theorem fullText_ne_shortText {m : Message} {l : Location} (h : m.location = some l) :
    m.fullText ≠ m.shortText := by
  intro heq
  have hlength := congrArg (fun text => text.toList.length) heq
  simp only [fullText, place, h, String.toList_append, List.length_append] at hlength
  have hbracket : 0 < "[".toList.length := by decide
  omega

/-- The row tells the full text exactly if the message does not have a location without
coordinates. -/
theorem fullText_eq_row_iff (m : Message) :
    m.fullText = (Row.ofMessage m).fullText ↔
      ∀ l, m.location = some l → l.hasCoordinates = true := by
  have hmessage : (Row.ofMessage m).message = m.shortText := rfl
  cases h : m.location with
  | none =>
    have hrow : (Row.ofMessage m).hasCoordinates = false := by
      simp [Row.hasCoordinates, Row.ofMessage, h]
    simp [Row.fullText, hrow, fullText_of_no_location h, hmessage]
  | some l =>
    have hrow : (Row.ofMessage m).hasCoordinates = l.hasCoordinates := by
      rw [Row.ofMessage_of_location h]
      rfl
    cases hl : l.hasCoordinates with
    | true => simp [Row.fullText, hrow, hl, fullText_of_location h]
    | false => simp [Row.fullText, hrow, hl, hmessage, fullText_ne_shortText h]

end Message

namespace Focus

/-- The focus keeps a location only if it has coordinates. -/
def Settled (f : Focus) : Prop := ∀ l, f.location = some l → l.hasCoordinates = true

theorem settled_on (name : String) (location : Location) : (on name location).Settled := by
  intro l hl
  obtain ⟨rfl, hcoordinates⟩ := location_on.1 hl
  exact hcoordinates

end Focus

/-- The location that the operation itself gives to the message that it stores. -/
def Operation.ownLocation? : Operation → Option Location
  | reportAt _ l => some l
  | push m => m.location
  | _ => none

namespace Store

theorem settled_after {v : Voice} (h : v.focus.Settled) (op : Operation) :
    (v.after op).focus.Settled := by
  cases op with
  | focusOn name location => exact Focus.settled_on name location
  | _ => exact h

theorem focus_settled_of_reachable {settings : Settings} {s : Store}
    (h : Machine.Reachable perform (.new settings) s) : s.focus.Settled := by
  induction h with
  | start => exact fun l hl => by cases hl
  | @step op s s' a hs hperform ih =>
    have hfocus : s'.focus = (s.voice.after op).focus :=
      congrArg Voice.focus (lines_perform hperform).2
    rw [hfocus]
    exact settled_after (v := s.voice) ih op

theorem perform_of_pushed {s : Store} {op : Operation} {m : Message}
    (h : op.pushed? s.focus = some m) :
    (s.perform op).result = .ok (.nothing, { s with log := s.log.push m }) := by
  cases op with
  | report d | reportAt d location | push m' =>
    obtain rfl := Option.some.inj h
    rfl
  | _ => cases h

/-- A stored message has a location without coordinates exactly if the operation itself gives it
one. -/
theorem hasCoordinates_of_pushed_iff {s : Store} (hs : s.focus.Settled) {op : Operation}
    {m : Message} (h : op.pushed? s.focus = some m) :
    (∀ l, m.location = some l → l.hasCoordinates = true) ↔
      ∀ l, op.ownLocation? = some l → l.hasCoordinates = true := by
  cases op with
  | report d =>
    obtain rfl := Option.some.inj h
    exact iff_of_true hs fun l hl => by cases hl
  | reportAt d location | push m' =>
    obtain rfl := Option.some.inj h
    rfl
  | _ => cases h

theorem location_of_pushed {s : Store} {op : Operation} {m : Message} {l : Location}
    (h : op.pushed? s.focus = some m) (hl : op.ownLocation? = some l) : m.location = some l := by
  cases op with
  | reportAt d location | push m' =>
    obtain rfl := Option.some.inj h
    exact hl
  | _ => cases hl

/-- Storing a message always succeeds, and the full text of the message is what its row tells
exactly if the operation does not itself give it a location without coordinates. So it is when a
draft is reported on the component in focus. Any location that the operation gives is shown by the
full text, also one that the row does not show. -/
theorem row_tells_fullText_iff {settings : Settings} {s : Store}
    (hs : Machine.Reachable perform (.new settings) s) {op : Operation} {m : Message}
    (hop : op.pushed? s.focus = some m) :
    (s.perform op).result = .ok (.nothing, { s with log := s.log.push m }) ∧
    (m.fullText = (Row.ofMessage m).fullText ↔
      ∀ l, op.ownLocation? = some l → l.hasCoordinates = true) ∧
    ∀ l, op.ownLocation? = some l →
      m.fullText = (Row.ofMessage m).place ++ (Row.ofMessage m).message := by
  refine ⟨perform_of_pushed hop, ?_, fun l hl => ?_⟩
  · rw [m.fullText_eq_row_iff]
    exact hasCoordinates_of_pushed_iff (focus_settled_of_reachable hs) hop
  · exact Message.fullText_of_location (location_of_pushed hop hl)

/-- A store on which a component with a location is in focus. -/
def onPlace : Store := ⟨.empty, .empty, .on "x" ⟨⟨"f"⟩, true, 0, 0, 0, 7⟩, .quiet⟩

theorem row_tells_fullText_on_place :
    let m := onPlace.focus.message ⟨0, .syntactic, .error, "a", []⟩
    Machine.Reachable perform (.new .quiet) onPlace ∧
    (Operation.report ⟨0, .syntactic, .error, "a", []⟩).pushed? onPlace.focus = some m ∧
    m.fullText = (Row.ofMessage m).fullText ∧
    (Row.ofMessage m).fullText = "[f:0:0-0:7:readonly] Variable x: a" := by
  intro m
  have hfocus : (perform (.focusOn "x" ⟨⟨"f"⟩, true, 0, 0, 0, 7⟩) (.new .quiet)).result =
      .ok (.focus onPlace.focus, onPlace) := rfl
  have hreachable : Machine.Reachable perform (.new .quiet) onPlace := .step .start hfocus
  have hpushed : (Operation.report ⟨0, .syntactic, .error, "a", []⟩).pushed? onPlace.focus =
      some m := rfl
  have htells := (row_tells_fullText_iff hreachable hpushed).2.1
  exact ⟨hreachable, hpushed, htells.2 (fun l hl => by cases hl), by decide⟩

/-- Every message that a store records has the full text that is told of its row. -/
def ToldByRows (tell : Row → String) : Prop :=
  ∀ (settings : Settings) (s : Store), Machine.Reachable perform (.new settings) s →
    ∀ (op : Operation) (m : Message), op.pushed? s.focus = some m →
      m.fullText = tell (Row.ofMessage m)

/-- A location without coordinates in a file without a name. -/
def noPlace : Location := ⟨⟨""⟩, false, 0, 0, 0, 0⟩

/-- A message reported at such a location has it in its full text, and has the row of the same
message without a location. So the row does not tell the full text, in this way or in any other. -/
theorem row_not_always_tells_fullText :
    ¬ ToldByRows Row.fullText ∧ ¬ ∃ tell, ToldByRows tell := by
  have hnone : ¬ ∃ tell, ToldByRows tell := by
    rintro ⟨tell, htell⟩
    have hplaced := htell .quiet (.new .quiet) .start
      (.reportAt ⟨0, .syntactic, .error, "a", []⟩ noPlace) _ rfl
    have hunplaced := htell .quiet (.new .quiet) .start
      (.report ⟨0, .syntactic, .error, "a", []⟩) _ rfl
    have hsame := hplaced.trans hunplaced.symm
    revert hsame
    decide
  exact ⟨fun h => hnone ⟨Row.fullText, h⟩, hnone⟩

end Store

end DiagnosticLog
