import DiagnosticLog.Proofs.RollBack
import DiagnosticLog.Proofs.Flattening

/-!
The depths of the open checkpoints. A checkpoint is fresh as long as the log has not been emptied
since it was opened. The fresh ones are the innermost ones, each at least as deep as those around
it, and none deeper than the log is high. So a fresh checkpoint can be rolled back to: whatever is
done with those inside it, exactly the messages that it was opened above are left. A checkpoint
that is not fresh may have any depth.
-/

namespace DiagnosticLog

/-- Closes the checkpoint in this way. -/
def Opening.closeBy (how : Closing) (o : Opening) : Operation := .close how o.checkpoint.id

/-- Once an opening is stale, those further out are. -/
theorem Opening.filter_append_filter {os : List Opening} (h : os.Pairwise Within) :
    os.filter (fun o => !o.emptied) ++ os.filter Opening.emptied = os := by
  induction os with
  | nil => rfl
  | cons o rest ih =>
    obtain ⟨hwithin, hrest⟩ := List.pairwise_cons.1 h
    cases hemptied : o.emptied with
    | false => simpa [hemptied] using ih hrest
    | true =>
      have hstale : ∀ q ∈ rest, q.emptied = true := by
        intro q hq
        cases hfresh : q.emptied with
        | true => rfl
        | false => exact absurd (hwithin q hq hfresh).1 (by simp [hemptied])
      have hnone : rest.filter (fun o => !o.emptied) = [] := by
        simpa using hstale
      simp [hemptied, hnone, List.filter_eq_self.2 hstale]

namespace Ledger

/-- The openings since which the log has not been emptied, innermost first. -/
def fresh (l : Ledger) : List Opening := l.openings.filter fun o => !o.emptied

/-- The openings since which the log has been emptied, innermost first. -/
def stale (l : Ledger) : List Opening := l.openings.filter Opening.emptied

variable {l : Ledger}

theorem mem_fresh {o : Opening} : o ∈ l.fresh ↔ o ∈ l.openings ∧ o.emptied = false := by
  simp [fresh]

theorem consistent_of_reachable {settings : Settings}
    (h : Machine.Reachable perform (.of (.new settings)) l) : l.Consistent := by
  induction h with
  | start => exact consistent_of_new settings
  | step hs hperform ih =>
    obtain ⟨hstep, henter⟩ := step_of_perform_ledger hperform
    rw [henter]
    exact (ih.step hstep).enter _

theorem Consistent.fresh_append_stale (h : l.Consistent) : l.fresh ++ l.stale = l.openings :=
  Opening.filter_append_filter h.nested

theorem Consistent.pairwise_fresh (h : l.Consistent) :
    l.fresh.Pairwise fun inner outer => outer.checkpoint.depth ≤ inner.checkpoint.depth := by
  refine (h.nested.filter _).imp_of_mem fun _ houter hwithin => ?_
  exact (hwithin (mem_fresh.1 houter).2).2

theorem Consistent.depth_le (h : l.Consistent) {o : Opening} (ho : o ∈ l.fresh) :
    o.checkpoint.depth ≤ l.store.log.length := by
  obtain ⟨hmem, hfresh⟩ := mem_fresh.1 ho
  have hle := (h.separates o hmem).depth_le hfresh
  rw [h.aligned] at hle
  exact hle

/-- Rolling back a fresh checkpoint, after those inside it have been closed in whatever ways, leaves
as many messages as it is deep. -/
theorem Consistent.exists_rollBack (h : l.Consistent) {inner outer : List Opening} {o : Opening}
    (hopen : l.openings = inner ++ o :: outer) (hfresh : o.emptied = false) {hows : List Closing}
    (hlen : hows.length = inner.length) {how : Closing} (hhow : how ≠ .commit) :
    ∃ t, (Machine.performAll Store.perform
          (List.zipWith Opening.closeBy hows inner ++ [o.closeBy how]) l.store).result = .ok t ∧
      t.log.messages = l.store.log.messages.take o.checkpoint.depth ∧
      t.log.length = o.checkpoint.depth := by
  induction inner generalizing l hows with
  | nil =>
    obtain rfl : hows = [] := List.length_eq_zero_iff.1 hlen
    have htop : l.store.checkpoints.innermostFirst =
        o.checkpoint :: outer.map Opening.checkpoint := by
      rw [← h.openings, hopen]
      rfl
    have hdepth := h.depth_le (mem_fresh.2 ⟨hopen ▸ List.mem_cons_self, hfresh⟩)
    have hlog := Store.log_closeTop_of_ne_commit hhow o.checkpoint
      (outer.map Opening.checkpoint) l.store
    refine ⟨_, Effect.result_andThen_eq_ok_iff.2 ⟨_, Store.close_result htop how, rfl⟩, ?_, ?_⟩
    · rw [hlog, Log.messages_cut]
    · rw [hlog, Log.length_cut, Nat.min_eq_left hdepth]
  | cons first inner ih =>
    obtain ⟨hfirst, hows, rfl⟩ := List.exists_cons_of_length_eq_add_one hlen
    have htop : l.store.checkpoints.innermostFirst =
        first.checkpoint :: (inner ++ o :: outer).map Opening.checkpoint := by
      rw [← h.openings, hopen]
      rfl
    have hwithin : o.checkpoint.depth ≤ first.checkpoint.depth := by
      have hnested := hopen ▸ h.nested
      exact ((List.pairwise_cons.1 hnested).1 o (by simp) hfresh).2
    -- Closing the innermost checkpoint cuts no deeper than `o`, and what is left is consistent.
    obtain ⟨d, hd, hlog⟩ := Store.exists_log_closeTop_eq_cut hfirst first.checkpoint
      ((inner ++ o :: outer).map Opening.checkpoint) l.store
    have hclosed := h.close hfirst htop
    obtain ⟨t, ht, hmessages, hlength⟩ :=
      ih hclosed (by rw [hopen]; rfl) (Nat.succ.inj hlen)
    refine ⟨t, ?_, ?_, hlength⟩
    · exact Effect.result_andThen_eq_ok_iff.2 ⟨_, Store.close_result htop hfirst, ht⟩
    · rw [hmessages]
      simp only [hlog, Log.messages_cut, List.take_take]
      rw [Nat.min_eq_left (Nat.le_trans hwithin hd)]

/-- In every state that operations lead to: the checkpoints that were opened since the log was last
emptied are the innermost ones, their depths do not decrease inwards, and none exceeds the number of
messages. Rolling back any of them, once those inside it are closed, leaves as many messages as it
is deep. -/
theorem fresh_depths_nested (settings : Settings)
    (hl : Machine.Reachable perform (.of (.new settings)) l) :
    l.store.checkpoints.innermostFirst = (l.fresh ++ l.stale).map Opening.checkpoint ∧
    (l.fresh.Pairwise fun inner outer => outer.checkpoint.depth ≤ inner.checkpoint.depth) ∧
    (∀ o ∈ l.fresh, o.checkpoint.depth ≤ l.store.log.length) ∧
    ∀ inner o outer, l.fresh = inner ++ o :: outer →
      ∀ hows : List Closing, hows.length = inner.length → ∀ how, how ≠ .commit →
      ∃ t, (Machine.performAll Store.perform
            (List.zipWith Opening.closeBy hows inner ++ [o.closeBy how]) l.store).result = .ok t ∧
        t.log.messages = l.store.log.messages.take o.checkpoint.depth ∧
        t.log.length = o.checkpoint.depth := by
  have h := consistent_of_reachable hl
  have hsplit := h.fresh_append_stale
  refine ⟨by rw [hsplit, h.openings], h.pairwise_fresh, fun o ho => h.depth_le ho, ?_⟩
  intro inner o outer hfresh hows hlen how hhow
  have hopen : l.openings = inner ++ o :: (outer ++ l.stale) := by
    rw [← hsplit, hfresh]
    simp
  have ho : o ∈ l.fresh := by simp [hfresh]
  exact h.exists_rollBack hopen (mem_fresh.1 ho).2 hlen hhow

end Ledger

/-- A program that clears the log under an open checkpoint and opens two more of the same name, with
repeated messages between them. -/
def reopening : Program Unit :=
  .step (.push (.bare "a")) <| .step (.push (.bare "a")) <| .step (.openCheckpoint "c") <|
    .step .clear <| .step (.push (.bare "b")) <| .step (.openCheckpoint "c") <|
      .step (.push (.bare "b")) <| .step (.openCheckpoint "c") <| .step (.push (.bare "b")) .done

theorem fresh_depths_reopening :
    ∃ l, Machine.Reachable Ledger.perform (.of (.new .quiet)) l ∧
      l.fresh.map Opening.checkpoint = [⟨"c", 2⟩, ⟨"c", 1⟩] ∧
      l.stale.map Opening.checkpoint = [⟨"c", 2⟩] ∧
      l.store.checkpoints.innermostFirst = (l.fresh ++ l.stale).map Opening.checkpoint ∧
      (l.fresh.Pairwise fun inner outer => outer.checkpoint.depth ≤ inner.checkpoint.depth) ∧
      (∀ o ∈ l.fresh, o.checkpoint.depth ≤ l.store.log.length) ∧
      ∀ inner o outer, l.fresh = inner ++ o :: outer →
        ∀ hows : List Closing, hows.length = inner.length → ∀ how, how ≠ .commit →
        ∃ t, (Machine.performAll Store.perform
              (List.zipWith Opening.closeBy hows inner ++ [o.closeBy how])
              l.store).result = .ok t ∧
          t.log.messages = l.store.log.messages.take o.checkpoint.depth ∧
          t.log.length = o.checkpoint.depth := by
  have hrun : ∃ l ∈ (reopening.run Ledger.perform [] 0 (.of (.new .quiet))).states,
      l.fresh.map Opening.checkpoint = [⟨"c", 2⟩, ⟨"c", 1⟩] ∧
      l.stale.map Opening.checkpoint = [⟨"c", 2⟩] := by
    decide +kernel
  obtain ⟨l, hmem, hfresh, hstale⟩ := hrun
  have hl := reopening.reachable_of_mem_states hmem
  exact ⟨l, hl, hfresh, hstale, Ledger.fresh_depths_nested .quiet hl⟩

end DiagnosticLog
