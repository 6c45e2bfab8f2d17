import DiagnosticLog.Proofs.Ledger

/-!
What closing a checkpoint does to the messages, told by the numbers of their pushes. Rolling back is
safe: whatever it takes off was pushed after the checkpoint was opened. It is not always complete. A
checkpoint remembers only a depth, and once the log has been emptied under it, that depth covers
messages that came later; they stay behind up to the depth.
-/

namespace DiagnosticLog

/-- An error message that has nothing but its text. -/
def Message.bare (text : String) : Message := ⟨0, .syntactic, .error, text, [], none⟩

theorem Record.removed_of_append {r : Record} {rest : List (Nat × Message)}
    (h : r.before = r.after ++ rest) : r.removed = rest := by
  rw [removed, h, List.drop_left]

namespace Ledger

variable {l : Ledger}

/-- Committing leaves the numbered messages as they are. -/
theorem Consistent.stored_commit (h : l.Consistent) (cp : Checkpoint) (outer : List Checkpoint) :
    (l.follow (.close .commit cp.id) (l.store.closeTop .commit cp outer).2).stored = l.stored :=
  congrArg (List.zip · l.store.log.messages) (take_numbers h.aligned)

/-- Rolling back keeps the oldest messages, as many as the depth of the checkpoint, and each keeps
its number. -/
theorem Consistent.stored_rollBack (h : l.Consistent) {how : Closing} (hhow : how ≠ .commit)
    (cp : Checkpoint) (outer : List Checkpoint) :
    (l.follow (.close how cp.id) (l.store.closeTop how cp outer).2).stored =
      l.stored.take cp.depth := by
  have hlog := Store.log_closeTop_of_ne_commit hhow cp outer l.store
  have hnumbers : l.numbers.take (l.store.log.cut cp.depth).length =
      l.numbers.take cp.depth := by
    rw [Log.length_cut, ← h.aligned, List.take_eq_take_iff]
    omega
  calc
    _ = (l.numbers.take (l.store.closeTop how cp outer).2.log.length).zip
          (l.store.closeTop how cp outer).2.log.messages := rfl
    _ = (l.numbers.take cp.depth).zip (l.store.log.messages.take cp.depth) := by
        rw [hlog, hnumbers, Log.messages_cut]
    _ = l.stored.take cp.depth := List.take_zipWith.symm

/-- The record of a closed checkpoint tells how it was opened, and the messages that it still has
are the oldest of those before. -/
theorem Consistent.record_close (h : l.Consistent) {how : Closing} {id : String} {after : Store}
    (hstep : l.store.Step (.close how id) after) (answer : Answer) :
    ∃ o ∈ l.openings, o.checkpoint.id = id ∧
      l.record (.close how id) answer after =
        ⟨.close how id, answer, some o, l.stored,
          if how = .commit then l.stored else l.stored.take o.checkpoint.depth⟩ := by
  cases hstep with
  | close how cp outer htop =>
    obtain ⟨o, rest, hopenings, rfl, -⟩ := h.opening_of_top htop
    refine ⟨o, hopenings ▸ List.mem_cons_self, rfl, ?_⟩
    have hopening : l.closing? (.close how o.checkpoint.id) = some o := by
      simp [closing?, hopenings]
    rw [record, hopening]
    by_cases hhow : how = .commit
    · subst hhow
      rw [h.stored_commit, if_pos rfl]
    · rw [h.stored_rollBack hhow, if_neg hhow]
  | push hop => cases hop
  | empty hop => cases hop
  | passive hop => cases hop

end Ledger

namespace Opening

variable {l : Ledger} {o : Opening}

/-- What lies above the depth of a checkpoint was pushed after it was opened. -/
theorem pushes_le_of_mem_drop (hl : l.Consistent) (ho : o ∈ l.openings) {x : Nat × Message}
    (hx : x ∈ l.stored.drop o.checkpoint.depth) : o.pushes ≤ x.1 := by
  have hseparates := hl.separates o ho
  cases hemptied : o.emptied with
  | false => exact hseparates.after hemptied x.1 (Ledger.fst_mem_drop hl.aligned hx)
  | true =>
    exact hseparates.after_emptied hemptied x.1
      (List.mem_of_mem_drop (Ledger.fst_mem_drop hl.aligned hx))

/-- What lies below the depth of a checkpoint was pushed before it was opened, unless the log was
emptied since. -/
theorem lt_pushes_iff_of_mem_take (hl : l.Consistent) (ho : o ∈ l.openings) {x : Nat × Message}
    (hx : x ∈ l.stored.take o.checkpoint.depth) : x.1 < o.pushes ↔ o.emptied = false := by
  have hseparates := hl.separates o ho
  have hmem := Ledger.fst_mem_take hl.aligned hx
  cases hemptied : o.emptied with
  | false => exact iff_of_true (hseparates.before hemptied x.1 hmem) rfl
  | true =>
    have hle := hseparates.after_emptied hemptied x.1 (List.mem_of_mem_take hmem)
    simp only [Bool.true_eq_false, iff_false]
    omega

end Opening

/-- At every point of every run: a checkpoint that was closed took off only messages that were
pushed after it was opened, from the newest end, and none at all if it was committed. -/
theorem closing_removes_later {α : Type} (settings : Settings) (p : Program α) (place : List Nat)
    (n : Nat) {l : Ledger}
    (hl : l ∈ (p.run Ledger.perform place n (.of (.new settings))).states) {r : Record}
    (hr : r ∈ l.records) {how : Closing} {id : String} (hop : r.operation = .close how id) :
    ∃ o, r.opening = some o ∧ o.checkpoint.id = id ∧ r.before = r.after ++ r.removed ∧
      (∀ x ∈ r.removed, o.pushes ≤ x.1) ∧ (how = .commit → r.removed = []) := by
  obtain ⟨k, op, answer, after, hk, hstep, rfl⟩ := Ledger.exists_record_eq settings p place n hl hr
  obtain rfl : op = .close how id := hop
  obtain ⟨o, ho, hid, hrecord⟩ := hk.record_close hstep answer
  rw [hrecord]
  refine ⟨o, rfl, hid, ?_⟩
  by_cases hhow : how = .commit
  · simp [Record.removed, hhow]
  · simp only [hhow, if_false]
    have hbefore := (List.take_append_drop o.checkpoint.depth k.stored).symm
    rw [Record.removed_of_append hbefore]
    refine ⟨hbefore, fun x hx => ?_, False.elim⟩
    exact Opening.pushes_le_of_mem_drop hk ho hx

/-- A program that drains the log under an open checkpoint and then fails a speculation of the same
name, in which a third one is committed. -/
def retried : Program Unit :=
  .step (.push (.bare "a")) <| .step (.openCheckpoint "c") <| .step (.push (.bare "a")) <|
    .step (.drain .allTexts) <| .step (.push (.bare "b")) <|
      .speculate "c" none
        (.step (.push (.bare "b")) <| .step (.openCheckpoint "c") <|
          .step (.push (.bare "d")) <| .step (.close .commit "c") .done) <|
        .step (.close .rollBackPrinting "c") .done

theorem failed_speculation_removes_later :
    ∃ l ∈ (retried.run Ledger.perform [] 0 (.of (.new .quiet))).states, ∃ r ∈ l.records,
      r.operation = .close .rollBack "c" ∧ r.removed = [(3, .bare "b"), (4, .bare "d")] ∧
      ∃ o, r.opening = some o ∧ o.checkpoint.id = "c" ∧ r.before = r.after ++ r.removed ∧
        (∀ x ∈ r.removed, o.pushes ≤ x.1) ∧ (Closing.rollBack = .commit → r.removed = []) := by
  have hrun : ∃ l ∈ (retried.run Ledger.perform [] 0 (.of (.new .quiet))).states,
      ∃ r ∈ l.records, r.operation = .close .rollBack "c" ∧
        r.removed = [(3, .bare "b"), (4, .bare "d")] := by
    decide +kernel
  obtain ⟨l, hl, r, hr, hop, hremoved⟩ := hrun
  exact ⟨l, hl, r, hr, hop, hremoved, closing_removes_later .quiet retried [] 0 hl hr hop⟩

/-- At every point of every run: a checkpoint that was rolled back has left a message behind that
was pushed after it was opened if and only if the log had been emptied since, the checkpoint had
been opened above other messages, and there were messages again. -/
theorem later_kept_iff {α : Type} (settings : Settings) (p : Program α) (place : List Nat)
    (n : Nat) {l : Ledger}
    (hl : l ∈ (p.run Ledger.perform place n (.of (.new settings))).states) {r : Record}
    (hr : r ∈ l.records) {how : Closing} {id : String} (hop : r.operation = .close how id)
    (hhow : how ≠ .commit) :
    ∃ o, r.opening = some o ∧ o.checkpoint.id = id ∧
      ((∃ x ∈ r.after, o.pushes ≤ x.1) ↔
        o.emptied = true ∧ 0 < o.checkpoint.depth ∧ r.before ≠ []) := by
  obtain ⟨k, op, answer, after, hk, hstep, rfl⟩ := Ledger.exists_record_eq settings p place n hl hr
  obtain rfl : op = .close how id := hop
  obtain ⟨o, ho, hid, hrecord⟩ := hk.record_close hstep answer
  rw [hrecord]
  refine ⟨o, rfl, hid, ?_⟩
  simp only [hhow, if_false]
  constructor
  · rintro ⟨x, hx, hle⟩
    have hlater : ¬ x.1 < o.pushes := by omega
    rw [Opening.lt_pushes_iff_of_mem_take hk ho hx, Bool.not_eq_false] at hlater
    refine ⟨hlater, Nat.pos_of_ne_zero fun hzero => ?_, fun hnil => ?_⟩
    · simp [hzero] at hx
    · simp [hnil] at hx
  · rintro ⟨hemptied, hdepth, hbefore⟩
    obtain ⟨x, rest, hx⟩ := List.exists_cons_of_ne_nil hbefore
    have hmem : x ∈ k.stored.take o.checkpoint.depth := by
      obtain ⟨d, hd⟩ := Nat.exists_eq_succ_of_ne_zero (Nat.pos_iff_ne_zero.1 hdepth)
      simp [hx, hd]
    have hnot : ¬ x.1 < o.pushes := by
      simp [Opening.lt_pushes_iff_of_mem_take hk ho hmem, hemptied]
    exact ⟨x, hmem, Nat.le_of_not_lt hnot⟩

/-- A program that clears the log under an open checkpoint before it rolls back. -/
def leftover : Program Unit :=
  .step (.push (.bare "a")) <| .step (.openCheckpoint "c") <| .step .clear <|
    .step (.push (.bare "b")) <| .step (.close .rollBack "c") .done

theorem leftover_is_kept :
    ∃ l ∈ (leftover.run Ledger.perform [] 0 (.of (.new .quiet))).states, ∃ r ∈ l.records,
      r.operation = .close .rollBack "c" ∧ Closing.rollBack ≠ .commit ∧
      r.after = [(1, .bare "b")] ∧
      ∃ o, r.opening = some o ∧ o.checkpoint.id = "c" ∧
        ((∃ x ∈ r.after, o.pushes ≤ x.1) ↔
          o.emptied = true ∧ 0 < o.checkpoint.depth ∧ r.before ≠ []) := by
  have hrun : ∃ l ∈ (leftover.run Ledger.perform [] 0 (.of (.new .quiet))).states,
      ∃ r ∈ l.records, r.operation = .close .rollBack "c" ∧ r.after = [(1, .bare "b")] := by
    decide +kernel
  obtain ⟨l, hl, r, hr, hop, hafter⟩ := hrun
  have hhow : Closing.rollBack ≠ .commit := by decide
  exact ⟨l, hl, r, hr, hop, hhow, hafter, later_kept_iff .quiet leftover [] 0 hl hr hop hhow⟩

/-- So rolling back does not always discard all that came after the checkpoint was opened. -/
theorem rollBack_not_complete :
    ¬ ∀ (settings : Settings) (p : Program Unit) (place : List Nat) (n : Nat) (l : Ledger),
      l ∈ (p.run Ledger.perform place n (.of (.new settings))).states →
      ∀ r ∈ l.records, ∀ how id, r.operation = .close how id → how ≠ .commit →
      ∀ o, r.opening = some o → ∀ x ∈ r.after, x.1 < o.pushes := by
  intro hcomplete
  have hrun : ∃ l ∈ (leftover.run Ledger.perform [] 0 (.of (.new .quiet))).states,
      ∃ r ∈ l.records, r.operation = .close .rollBack "c" ∧ r.after = [(1, .bare "b")] ∧
        r.opening = some ⟨⟨"c", 1⟩, 1, true⟩ := by
    decide +kernel
  obtain ⟨l, hl, r, hr, hop, hafter, hopening⟩ := hrun
  have hlater := hcomplete .quiet leftover [] 0 l hl r hr .rollBack "c" hop (by decide) _ hopening
  rw [hafter] at hlater
  exact Nat.lt_irrefl 1 (hlater (1, .bare "b") List.mem_cons_self)

end DiagnosticLog
