import DiagnosticLog.Proofs.Flattening
import DiagnosticLog.Proofs.Steps

/-!
Misuse of the checkpoints. Whether a checkpoint can be closed is decided by its name before anything
else happens: the call goes through exactly if the innermost checkpoint bears the name, and
otherwise all that comes of it is the report on the store as it was. Nothing else can go wrong. In
particular an empty log is never popped, because unwinding stops in time.
-/

namespace DiagnosticLog

namespace Checkpoints

/-- The violation of a call that closes a checkpoint by a name that the innermost one does not
bear. -/
def misuse (how : Closing) (id : String) (c : Checkpoints) : Violation :=
  match c.top? with
  | none => .noCheckpoint how id
  | some cp => .notInnermost how id cp.id

theorem isTop_iff {c : Checkpoints} {id : String} :
    c.isTop id = true ↔ ∃ cp outer, c.innermostFirst = cp :: outer ∧ cp.id = id := by
  cases h : c.innermostFirst <;> simp [isTop, top?, h]

theorem expectTop_of_not_isTop {c : Checkpoints} {id : String} (h : c.isTop id = false)
    (how : Closing) :
    ∃ mismatch, c.expectTop id = .error mismatch ∧
      Violation.ofMismatch how id mismatch = c.misuse how id := by
  cases hopen : c.innermostFirst with
  | nil =>
    refine ⟨.noneOpen, by simp [expectTop, hopen], ?_⟩
    simp [misuse, top?, hopen, Violation.ofMismatch]
  | cons cp outer =>
    have hother : cp.id ≠ id := by
      simpa [isTop, top?, hopen] using h
    refine ⟨.other cp.id, by simp [expectTop, hopen, hother], ?_⟩
    simp [misuse, top?, hopen, Violation.ofMismatch]

theorem misuse_ne_emptyLog (how : Closing) (id : String) (c : Checkpoints) :
    c.misuse how id ≠ .emptyLog := by
  rw [misuse]
  split <;> simp

end Checkpoints

namespace Store

/-- What goes out at a violation: the event, and the report on the store as it is. -/
def violationOutputs (v : Violation) (s : Store) : List Output :=
  .event (.violated v s.checkpoints.length) ::
    (Dump.lines v s.checkpoints.innermostFirst s.log.messages).map .line

theorem lines_violationOutputs (v : Violation) (s : Store) :
    (s.violationOutputs v).filterMap Output.line? =
      Dump.lines v s.checkpoints.innermostFirst s.log.messages := by
  simp [violationOutputs, List.filterMap_cons, Output.line?, List.filterMap_map, Function.comp_def]

theorem isInnermost_iff {s : Store} {id : String} :
    (s.perform (.isInnermost id)).result = .ok (.flag true, s) ↔ s.checkpoints.isTop id = true := by
  simp [perform, Effect.pure_eq, Effect.done]

/-- Where the innermost checkpoint bears another name, or there is none, closing does nothing but
report the store. -/
theorem close_of_not_isTop {s : Store} {id : String} (h : s.checkpoints.isTop id = false)
    (how : Closing) :
    s.close how id = ⟨s.violationOutputs (s.checkpoints.misuse how id),
      .error (s.checkpoints.misuse how id)⟩ := by
  obtain ⟨mismatch, hmismatch, hviolation⟩ := Checkpoints.expectTop_of_not_isTop h how
  rw [close_of_mismatch hmismatch, hviolation]
  rfl

theorem close_isOk_iff {s : Store} {how : Closing} {id : String} :
    (∃ r, (s.close how id).result = .ok r) ↔ s.checkpoints.isTop id = true := by
  rw [Checkpoints.isTop_iff]
  constructor
  · rintro ⟨r, hr⟩
    obtain ⟨cp, outer, htop, hid, -⟩ := top_of_close hr
    exact ⟨cp, outer, htop, hid⟩
  · rintro ⟨cp, outer, htop, rfl⟩
    exact ⟨_, close_result htop how⟩

/-- An operation fails only where it closes a checkpoint by a wrong name. -/
theorem misuse_of_perform_error {s : Store} {op : Operation} {v : Violation}
    (h : (s.perform op).result = .error v) :
    ∃ how id, op = .close how id ∧ s.checkpoints.isTop id = false ∧
      v = s.checkpoints.misuse how id := by
  cases op with
  | close how id =>
    cases htop : s.checkpoints.isTop id with
    | true =>
      have hok : ∃ r, (s.close how id).result = .ok r := close_isOk_iff.2 htop
      obtain ⟨r, hr⟩ := hok
      cases h.symm.trans hr
    | false =>
      rw [perform, close_of_not_isTop htop] at h
      exact ⟨how, id, rfl, htop, (Except.error.inj h).symm⟩
  | drain form | clear =>
    rw [perform, emptyLog_eq] at h
    cases h
  | report d | reportAt d location | push m | openCheckpoint id | focusOn _ _ | currentFocus
  | setEcho _ | isInnermost _ | peek | changeEnvironment _ | reenter => cases h

end Store

/-- A checkpoint can be closed under a name, in any way, exactly if this is known to be the name of
the innermost one; otherwise the call comes to the violation that tells how it was closed, the name,
and the name of the innermost checkpoint if there is one, and to the report on the unchanged store.
No operation ever pops an empty log, and a run that fails, in whatever speculation, does so by such
a call on a store that it has come to. -/
theorem misuse_reported_unchanged {α : Type} (s : Store) :
    (∀ how id,
      ((∃ r, (s.perform (.close how id)).result = .ok r) ↔
        (s.perform (.isInnermost id)).result = .ok (.flag true, s)) ∧
      ((s.perform (.isInnermost id)).result ≠ .ok (.flag true, s) →
        (s.perform (.close how id)).result = .error (s.checkpoints.misuse how id) ∧
        (s.perform (.close how id)).outputs =
          s.violationOutputs (s.checkpoints.misuse how id) ∧
        (s.perform (.close how id)).outputs.filterMap Output.line? =
          Dump.lines (s.checkpoints.misuse how id) s.checkpoints.innermostFirst
            s.log.messages)) ∧
    (∀ op, (s.perform op).result ≠ .error .emptyLog) ∧
    ∀ (p : Program α) (place : List Nat) (n : Nat) (v : Violation),
      (p.run Store.perform place n s).result = .error v →
      v ≠ .emptyLog ∧ ∃ t how id before, Machine.Reachable Store.perform s t ∧
        t.checkpoints.isTop id = false ∧ v = t.checkpoints.misuse how id ∧
        (p.run Store.perform place n s).outputs.filterMap Happening.output? =
          before ++ t.violationOutputs v := by
  refine ⟨fun how id => ⟨?_, fun hnot => ?_⟩, fun op hop => ?_, fun p place n v hv => ?_⟩
  · rw [Store.isInnermost_iff]
    exact Store.close_isOk_iff
  · rw [Ne, Store.isInnermost_iff, Bool.not_eq_true] at hnot
    rw [Store.perform, Store.close_of_not_isTop hnot how]
    exact ⟨rfl, rfl, Store.lines_violationOutputs _ s⟩
  · obtain ⟨how, id, -, -, hv⟩ := Store.misuse_of_perform_error hop
    exact s.checkpoints.misuse_ne_emptyLog how id hv.symm
  · obtain ⟨op, t, before, ht, hfail, hout⟩ := p.exists_of_run_error hv
    obtain ⟨how, id, rfl, htop, rfl⟩ := Store.misuse_of_perform_error hfail
    rw [Store.perform, Store.close_of_not_isTop htop how] at hout
    exact ⟨t.checkpoints.misuse_ne_emptyLog how id, t, how, id, before, ht, htop, rfl, hout⟩

end DiagnosticLog
