import DiagnosticLog.Proofs.Runs
import DiagnosticLog.Proofs.Unwinding

/-!
What one operation does to the messages and the checkpoints of a store. It stores a message, opens
a checkpoint, closes the innermost one, empties the log, or leaves both alone (`step_of_perform`).
Closing succeeds exactly on the innermost checkpoint and then cuts the log at its depth, unless it
commits (`close_result`).
-/

namespace DiagnosticLog

namespace Operation

/-- The message that the operation stores, if it stores one. -/
def pushed? (f : Focus) : Operation → Option Message
  | report d => some (f.message d)
  | reportAt d location => some (Message.ofDraft d (some location))
  | push m => some m
  | _ => none

/-- Whether the operation takes all messages off the log. -/
def empties : Operation → Bool
  | drain _ | clear => true
  | _ => false

/-- Whether the operation concerns neither the messages nor the checkpoints, or only looks at
them. -/
def isPassive : Operation → Bool
  | focusOn .. | currentFocus | setEcho _ | isInnermost _ | peek | changeEnvironment _ | reenter =>
    true
  | _ => false

end Operation

namespace Store

/-- Closes the innermost checkpoint, which is `cp` in front of `outer`. -/
def closeTop (how : Closing) (cp : Checkpoint) (outer : List Checkpoint) (s : Store) :
    Answer × Store :=
  match how with
  | .commit => (.nothing, { s with checkpoints := ⟨outer, cp.id⟩ })
  | .rollBack =>
    (.nothing, { s with
      log := s.log.cut cp.depth
      checkpoints := ⟨outer, s.checkpoints.lastCommitted⟩ })
  | .rollBackPrinting =>
    (.text (fullTexts (s.log.above cp.depth)), { s with
      log := s.log.cut cp.depth
      checkpoints := ⟨outer, s.checkpoints.lastCommitted⟩ })

@[simp] theorem innermostFirst_closeTop (how : Closing) (cp : Checkpoint)
    (outer : List Checkpoint) (s : Store) :
    (s.closeTop how cp outer).2.checkpoints.innermostFirst = outer := by
  cases how <;> rfl

theorem log_closeTop_of_ne_commit {how : Closing} (h : how ≠ .commit) (cp : Checkpoint)
    (outer : List Checkpoint) (s : Store) :
    (s.closeTop how cp outer).2.log = s.log.cut cp.depth := by
  cases how with
  | commit => exact absurd rfl h
  | rollBack | rollBackPrinting => rfl

/-- Closing a checkpoint cuts the log, nowhere below its depth. A commit cuts nothing. -/
theorem exists_log_closeTop_eq_cut (how : Closing) (cp : Checkpoint) (outer : List Checkpoint)
    (s : Store) : ∃ d, cp.depth ≤ d ∧ (s.closeTop how cp outer).2.log = s.log.cut d := by
  by_cases hhow : how = .commit
  · subst hhow
    have hcut : s.log.cut (cp.depth + s.log.length) = s.log :=
      Log.cut_of_length_le (by omega)
    exact ⟨cp.depth + s.log.length, by omega, hcut.symm⟩
  · exact ⟨cp.depth, Nat.le_refl _, log_closeTop_of_ne_commit hhow cp outer s⟩

theorem requireTop_of_top {s : Store} {cp : Checkpoint} {outer : List Checkpoint}
    (h : s.checkpoints.innermostFirst = cp :: outer) (how : Closing) :
    s.requireTop how cp.id = .done cp := by
  simp [requireTop, Checkpoints.expectTop, h]

theorem top_of_requireTop {s : Store} {how : Closing} {id : String} {cp : Checkpoint}
    (h : (s.requireTop how id).result = .ok cp) :
    cp.id = id ∧ ∃ outer, s.checkpoints.innermostFirst = cp :: outer := by
  cases hopen : s.checkpoints.innermostFirst with
  | nil => simp [requireTop, Checkpoints.expectTop, hopen, fail, Effect.fail] at h
  | cons top outer =>
    by_cases hid : top.id = id
    · simp only [requireTop, Checkpoints.expectTop, hopen, hid, if_true, Effect.done,
        Except.ok.injEq] at h
      subst h
      exact ⟨hid, outer, rfl⟩
    · simp [requireTop, Checkpoints.expectTop, hopen, hid, fail, Effect.fail] at h

theorem rollBack_eq {s : Store} {cp : Checkpoint} {outer : List Checkpoint}
    (h : s.checkpoints.innermostFirst = cp :: outer) (how : Closing) :
    s.rollBack how cp.id =
      ⟨(s.unwind (some cp.depth)).outputs ++
          [.event (.rolledBack cp.id (s.log.newestAbove cp.depth).length)],
        .ok (s.log.above cp.depth, { s with
          log := s.log.cut cp.depth
          checkpoints := ⟨outer, s.checkpoints.lastCommitted⟩ })⟩ := by
  have hunwind := unwind_result (some cp.depth) s
  rw [rollBack, requireTop_of_top h, Effect.bind_eq, Effect.done_andThen, Effect.bind_eq,
    Effect.andThen_of_ok hunwind]
  simp [Effect.bind_eq, Effect.pure_eq, Effect.done, Checkpoints.pop, h, Log.reverse_newestAbove]

theorem commit_eq {s : Store} {cp : Checkpoint} {outer : List Checkpoint}
    (h : s.checkpoints.innermostFirst = cp :: outer) :
    s.commit cp.id =
      ⟨[.event (.committed cp.id s.log.length)],
        .ok { s with checkpoints := ⟨outer, cp.id⟩ }⟩ := by
  rw [commit, requireTop_of_top h, Effect.bind_eq, Effect.done_andThen]
  simp [Effect.bind_eq, Effect.pure_eq, Effect.done, Checkpoints.commit, h]

theorem emptyLog_eq (how : Emptying) (s : Store) :
    s.emptyLog how =
      ⟨s.emptyingWarning how ++ (s.unwind none).outputs,
        .ok (s.log.messages, { s with log := s.log.cut 0 })⟩ := by
  have hunwind := unwind_result none s
  rw [emptyLog, Effect.bind_eq, Effect.put_andThen, Effect.bind_eq, Effect.andThen_of_ok hunwind]
  simp [Effect.pure_eq, Effect.done, Log.reverse_newestAbove, Log.above]

theorem close_result {s : Store} {cp : Checkpoint} {outer : List Checkpoint}
    (h : s.checkpoints.innermostFirst = cp :: outer) (how : Closing) :
    (s.close how cp.id).result = .ok (s.closeTop how cp outer) := by
  cases how with
  | commit => simp [close, commit_eq h, Effect.bind_eq, Effect.andThen, pure, Effect.done, closeTop]
  | rollBack | rollBackPrinting =>
    simp [close, rollBack_eq h, Effect.bind_eq, Effect.andThen, pure, Effect.done, closeTop]

/-- Closing the innermost checkpoint writes no lines. -/
theorem close_lines {s : Store} {cp : Checkpoint} {outer : List Checkpoint}
    (h : s.checkpoints.innermostFirst = cp :: outer) (how : Closing) :
    (s.close how cp.id).outputs.filterMap Output.line? = [] := by
  have hunwind := unwind_lines (some cp.depth) s
  cases how with
  | commit =>
    simp [close, commit_eq h, Effect.bind_eq, Effect.andThen, Effect.pure_eq, Effect.done,
      Output.line?]
  | rollBack | rollBackPrinting =>
    simp only [close, rollBack_eq h, Effect.bind_eq, Effect.andThen, Effect.pure_eq, Effect.done]
    rw [List.filterMap_append, List.filterMap_append, hunwind]
    rfl

theorem close_of_mismatch {s : Store} {id : String} {mismatch : TopMismatch}
    (h : s.checkpoints.expectTop id = .error mismatch) (how : Closing) :
    s.close how id = s.fail (.ofMismatch how id mismatch) := by
  have hreq : s.requireTop how id = s.fail (.ofMismatch how id mismatch) := by
    simp [requireTop, h]
  cases how with
  | commit => rw [close, commit, hreq]; rfl
  | rollBack => rw [close, rollBack, hreq]; rfl
  | rollBackPrinting => rw [close, rollBack, hreq]; rfl

theorem top_of_close {s : Store} {how : Closing} {id : String} {r : Answer × Store}
    (h : (s.close how id).result = .ok r) :
    ∃ cp outer, s.checkpoints.innermostFirst = cp :: outer ∧ cp.id = id ∧
      r = s.closeTop how cp outer := by
  have hreq : ∃ cp, (s.requireTop how id).result = .ok cp := by
    cases how with
    | commit | rollBack | rollBackPrinting =>
      obtain ⟨t, ht, -⟩ := Effect.result_andThen_eq_ok_iff.1 h
      obtain ⟨cp, hcp, -⟩ := Effect.result_andThen_eq_ok_iff.1 ht
      exact ⟨cp, hcp⟩
  obtain ⟨cp, hcp⟩ := hreq
  obtain ⟨rfl, outer, htop⟩ := top_of_requireTop hcp
  rw [close_result htop, Except.ok.injEq] at h
  exact ⟨cp, outer, htop, rfl, h.symm⟩

/-- What a completed operation does to the messages and the checkpoints of a store. -/
inductive Step (s : Store) : Operation → Store → Prop
  | push {op : Operation} {m : Message} (hop : op.pushed? s.focus = some m) :
      Step s op { s with log := s.log.push m }
  | openCheckpoint (id : String) :
      Step s (.openCheckpoint id)
        { s with checkpoints := s.checkpoints.push id s.log.length }
  | close (how : Closing) (cp : Checkpoint) (outer : List Checkpoint)
      (htop : s.checkpoints.innermostFirst = cp :: outer) :
      Step s (.close how cp.id) (s.closeTop how cp outer).2
  | empty {op : Operation} (hop : op.empties = true) : Step s op { s with log := s.log.cut 0 }
  | passive {op : Operation} {s' : Store} (hop : op.isPassive = true) (hlog : s'.log = s.log)
      (hopen : s'.checkpoints = s.checkpoints) : Step s op s'

theorem Step.counted {s s' : Store} {op : Operation} (h : s.Step op s') (hs : s.log.Counted) :
    s'.log.Counted := by
  cases h with
  | push hop => exact Log.counted_push hs _
  | openCheckpoint id => exact hs
  | close how cp outer htop =>
    obtain ⟨d, -, hlog⟩ := exists_log_closeTop_eq_cut how cp outer s
    rw [hlog]
    exact Log.counted_cut hs d
  | empty hop => exact Log.counted_cut hs 0
  | passive hop hlog hopen => exact hlog ▸ hs

theorem step_of_perform {op : Operation} {s s' : Store} {a : Answer}
    (h : (s.perform op).result = .ok (a, s')) : s.Step op s' := by
  cases op with
  | report d | reportAt d location | push m =>
    obtain ⟨-, rfl⟩ := Prod.mk.inj (Except.ok.inj h)
    exact .push rfl
  | openCheckpoint id =>
    obtain ⟨-, rfl⟩ := Prod.mk.inj (Except.ok.inj h)
    exact .openCheckpoint id
  | close how id =>
    obtain ⟨cp, outer, htop, rfl, hr⟩ := top_of_close h
    rw [show s' = (s.closeTop how cp outer).2 from congrArg Prod.snd hr]
    exact .close how cp outer htop
  | drain form | clear =>
    rw [perform, emptyLog_eq] at h
    obtain ⟨-, rfl⟩ := Prod.mk.inj (Except.ok.inj h)
    exact .empty rfl
  | focusOn _ _ | currentFocus | setEcho _ | isInnermost _ | peek | changeEnvironment _
  | reenter =>
    obtain ⟨-, rfl⟩ := Prod.mk.inj (Except.ok.inj h)
    exact .passive rfl rfl rfl

theorem counted_of_reachable {settings : Settings} {s : Store}
    (h : Machine.Reachable perform (.new settings) s) : s.log.Counted := by
  induction h with
  | start => exact Log.counted_empty
  | step hs hperform ih => exact (step_of_perform hperform).counted ih

end Store

end DiagnosticLog
