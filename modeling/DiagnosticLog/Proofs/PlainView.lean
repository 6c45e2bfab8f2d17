import DiagnosticLog.Plain
import DiagnosticLog.Proofs.Arrays
import DiagnosticLog.Proofs.Runs
import DiagnosticLog.Proofs.Steps

/-!
A store behaves like a plain store. Groups of repeated messages leave the log one after another,
but nobody who uses the store can tell: seen without its events and as a bare list of messages, it
is the plain store, in every run and at every point of it. This includes the violations and the
reports on them.
-/

namespace DiagnosticLog

/-- What a plain store puts out as well: the lines, but not the events. -/
def Output.visible? : Output → Option Output
  | line text => some (line text)
  | event _ => none

theorem Output.filterMap_visible?_map_line (lines : List String) :
    (lines.map line).filterMap visible? = lines.map line := by
  induction lines with
  | nil => rfl
  | cons text rest ih => simp [visible?, ih]

/-- A computation that succeeds without a line is seen as its value alone. -/
theorem Effect.view_of_silent {β γ : Type} {e : Effect Output β} {b : β} (f : β → γ)
    (hlines : e.outputs.filterMap Output.line? = []) (hresult : e.result = .ok b) :
    e.view Output.visible? f = .done (f b) := by
  have hvisible : e.outputs.filterMap Output.visible? = [] := by
    rw [List.filterMap_eq_nil_iff] at hlines ⊢
    intro o ho
    cases o with
    | line text => cases hlines _ ho
    | event e => rfl
  rw [view, hvisible, hresult]
  rfl

/-- A plain store hands over what a store does. -/
theorem DrainForm.present_eq_handOver (form : DrainForm) (ms : List Message) :
    form.present ms = Plain.handOver ms form := by
  cases form with
  | document => exact congrArg Answer.text (Document.ofMessages_eq ms)
  | errorTexts =>
    have herrors : ms.filter Message.isError = ms.filter fun m => m.severity = .error := by
      refine List.filter_congr fun m _ => ?_
      rw [Message.isError, Bool.eq_iff_iff, Severity.isError_iff, decide_eq_true_iff]
    rw [DrainForm.present, herrors]
    rfl
  | messages | rows | allTexts => rfl

namespace Store

def plain (s : Store) : Plain :=
  { messages := s.log.messages
    checkpoints := s.checkpoints.innermostFirst
    lastCommitted := s.checkpoints.lastCommitted
    focus := s.focus
    echo := s.settings.echo }

theorem view_push (m : Message) (s : Store) :
    ((s.push m).andThen fun s => .done (Answer.nothing, s)).view Output.visible?
      (Prod.map id plain) = s.plain.push m := by
  cases hecho : s.settings.echo <;>
    simp [push, Effect.andThen, Effect.view, Effect.done, echoLines, hecho, Output.visible?,
      Plain.push, plain, Except.map]

theorem view_fail (f : Answer × Store → Answer × Plain) (violation : Violation) (s : Store) :
    (s.fail violation).view Output.visible? f = s.plain.fail violation := by
  rw [fail, Effect.view_fail, List.filterMap_cons, Output.filterMap_visible?_map_line]
  rfl

theorem plain_closeTop (how : Closing) (cp : Checkpoint) (outer : List Checkpoint) (s : Store) :
    Prod.map id plain (s.closeTop how cp outer) = s.plain.closeTop how cp outer := by
  cases how <;> simp [closeTop, Plain.closeTop, plain, Log.above, fullTexts]

theorem view_close (how : Closing) (name : String) (s : Store) :
    (s.close how name).view Output.visible? (Prod.map id plain) = s.plain.close how name := by
  cases hopen : s.checkpoints.innermostFirst with
  | nil =>
    have hnone : s.checkpoints.expectTop name = .error .noneOpen := by
      simp [Checkpoints.expectTop, hopen]
    rw [close_of_mismatch hnone, view_fail]
    simp [Plain.close, plain, hopen, Violation.ofMismatch]
  | cons cp outer =>
    by_cases hname : cp.id = name
    · subst hname
      rw [Effect.view_of_silent _ (close_lines hopen how) (close_result hopen how),
        plain_closeTop]
      simp [Plain.close, plain, hopen]
    · have hother : s.checkpoints.expectTop name = .error (.other cp.id) := by
        simp [Checkpoints.expectTop, hopen, hname]
      rw [close_of_mismatch hother, view_fail]
      simp [Plain.close, plain, hopen, hname, Violation.ofMismatch]

theorem emptyLog_lines (how : Emptying) (s : Store) :
    (s.emptyLog how).outputs.filterMap Output.line? = [] := by
  rw [emptyLog_eq, List.filterMap_append, unwind_lines, List.append_nil, emptyingWarning]
  split <;> rfl

theorem view_emptyLog (how : Emptying) (answer : List Message → Answer) (s : Store) :
    ((s.emptyLog how).andThen fun r => .done (answer r.1, r.2)).view Output.visible?
      (Prod.map id plain) = .done (answer s.log.messages, { s.plain with messages := [] }) := by
  have hresult : (s.emptyLog how).result = .ok (s.log.messages, { s with log := s.log.cut 0 }) := by
    rw [emptyLog_eq]
  rw [Effect.andThen_of_ok hresult]
  refine (Effect.view_of_silent _ ?_ rfl).trans ?_
  · simpa [Effect.done] using emptyLog_lines how s
  · simp [plain]

/-- Seen as a plain store, a store performs each operation as a plain store does. -/
theorem view_perform (op : Operation) (s : Store) :
    (s.perform op).view Output.visible? (Prod.map id plain) = s.plain.perform op := by
  cases op with
  | report d => exact view_push (s.focus.message d) s
  | reportAt d location => exact view_push (Message.ofDraft d (some location)) s
  | push m => exact view_push m s
  | close how name => exact view_close how name s
  | drain form =>
    rw [Plain.perform, ← form.present_eq_handOver]
    exact view_emptyLog .drain form.present s
  | clear => exact view_emptyLog .clear (fun _ => .nothing) s
  | openCheckpoint name =>
    have hdepth : s.log.length = s.plain.messages.length := (Log.length_messages s.log).symm
    change Effect.done (Answer.nothing, plain { s with
      checkpoints := s.checkpoints.push name s.log.length }) = _
    rw [hdepth]
    rfl
  | focusOn _ _ | currentFocus | setEcho _ | isInnermost _ | peek | changeEnvironment _
  | reenter => rfl

end Store

/-- No run tells a store from a plain store: the replies, the lines, the states and the violation,
if there is one, are the same at every step, and so are the number of messages and of errors. -/
theorem view_run_plain {α : Type} (settings : Settings) (p : Program α) (place : List Nat)
    (n : Nat) :
    (p.run Store.perform place n (.new settings)).view
        (Happening.view Output.visible? Store.plain) Store.plain =
      p.run Plain.perform place n (.new settings) ∧
    ∀ s ∈ (p.run Store.perform place n (.new settings)).states,
      s.log.length = s.plain.messages.length ∧
      s.log.errorCount = s.plain.messages.countP Message.isError := by
  constructor
  · exact Program.view_run Store.view_perform p place n (.new settings)
  · intro s hs
    have hcounted := Store.counted_of_reachable (p.reachable_of_mem_states hs)
    exact ⟨(Log.length_messages s.log).symm, hcounted⟩

end DiagnosticLog
