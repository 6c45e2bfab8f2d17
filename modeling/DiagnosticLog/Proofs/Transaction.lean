import DiagnosticLog.Proofs.RollBack

/-!
A checkpoint makes a transaction of what comes after it. As long as the log is not emptied and the
checkpoint is not closed, everything that was there when it was opened lies beneath it untouched:
the messages, the checkpoints further out, even those whose depth has become stale. Rolling back
then restores the store, and printing tells exactly the messages that came in between and are still
stored.
-/

namespace DiagnosticLog

/-- The checkpoint that was opened on a store under this name is open still, and beneath it lies
what was in that store. -/
structure Beneath (id : String) (s : Store) (l : Ledger) : Prop where
  aligned : l.numbers.length = l.store.log.length
  pushes_le : s.log.length ≤ l.pushes
  separates : Opening.Separates ⟨⟨id, s.log.length⟩, s.log.length, false⟩ l.numbers
  messages : l.store.log.messages.take s.log.length = s.log.messages
  checkpoints : ∃ inner, l.store.checkpoints.innermostFirst =
    inner ++ ⟨id, s.log.length⟩ :: s.checkpoints.innermostFirst ∧
    ∀ cp ∈ inner, s.log.length ≤ cp.depth
  counted : l.store.log.Counted

namespace Beneath

variable {id : String} {s : Store} {l : Ledger}

/-- The store that a checkpoint has just been opened on lies beneath it. -/
theorem opened (hs : s.log.Counted) (id : String) :
    Beneath id s (.of { s with checkpoints := s.checkpoints.push id s.log.length }) where
  aligned := by simp [Ledger.of]
  pushes_le := Nat.le_refl _
  separates := Opening.separates_new id List.length_range.symm fun n hn => List.mem_range.1 hn
  messages := by rw [← Log.length_messages]; exact List.take_length
  checkpoints := ⟨[], rfl, fun cp hcp => by cases hcp⟩
  counted := hs

theorem length_le (h : Beneath id s l) : s.log.length ≤ l.store.log.length := by
  have hle := h.separates.depth_le rfl
  rw [h.aligned] at hle
  exact hle

theorem push (h : Beneath id s l) (m : Message) :
    Beneath id s { l with
      store := { l.store with log := l.store.log.push m }
      numbers := l.numbers ++ [l.pushes]
      pushes := l.pushes + 1 } where
  aligned := by simp [h.aligned]
  pushes_le := Nat.le_succ_of_le h.pushes_le
  separates := h.separates.append h.pushes_le
  messages := by
    rw [Log.messages_push, List.take_append_of_le_length]
    · exact h.messages
    · rw [Log.length_messages]
      exact h.length_le
  checkpoints := h.checkpoints
  counted := Log.counted_push h.counted m

theorem openCheckpoint (h : Beneath id s l) (name : String) :
    Beneath id s { l with
      store := { l.store with
        checkpoints := l.store.checkpoints.push name l.store.log.length }
      openings := ⟨⟨name, l.store.log.length⟩, l.pushes, false⟩ :: l.openings } where
  aligned := h.aligned
  pushes_le := h.pushes_le
  separates := h.separates
  messages := h.messages
  checkpoints := by
    obtain ⟨inner, hopen, hdeep⟩ := h.checkpoints
    refine ⟨⟨name, l.store.log.length⟩ :: inner, by simp [Checkpoints.push, hopen], ?_⟩
    intro cp hcp
    rcases List.mem_cons.1 hcp with rfl | hcp
    · exact h.length_le
    · exact hdeep cp hcp
  counted := h.counted

/-- A close that leaves the checkpoint open closes one further in, which is at least as deep. -/
theorem close (h : Beneath id s l) (how : Closing) {cp : Checkpoint} {outer : List Checkpoint}
    (htop : l.store.checkpoints.innermostFirst = cp :: outer)
    (hlen : s.checkpoints.length + 1 ≤ outer.length) :
    Beneath id s { l with
      store := (l.store.closeTop how cp outer).2
      numbers := l.numbers.take (l.store.closeTop how cp outer).2.log.length
      openings := l.openings.tail } := by
  obtain ⟨inner, hopen, hdeep⟩ := h.checkpoints
  have hrest : ∃ rest, inner = cp :: rest ∧
      outer = rest ++ ⟨id, s.log.length⟩ :: s.checkpoints.innermostFirst := by
    rw [htop] at hopen
    cases inner with
    | nil =>
      have houter : outer = s.checkpoints.innermostFirst := (List.cons.inj hopen).2
      simp only [houter, Checkpoints.length] at hlen
      omega
    | cons first rest =>
      obtain ⟨rfl, houter⟩ := List.cons.inj hopen
      exact ⟨rest, rfl, houter⟩
  obtain ⟨rest, rfl, houter⟩ := hrest
  have hinner : ∃ inner, (l.store.closeTop how cp outer).2.checkpoints.innermostFirst =
      inner ++ ⟨id, s.log.length⟩ :: s.checkpoints.innermostFirst ∧
      ∀ cp ∈ inner, s.log.length ≤ cp.depth :=
    ⟨rest, by rw [Store.innermostFirst_closeTop, houter],
      fun q hq => hdeep q (List.mem_cons_of_mem cp hq)⟩
  obtain ⟨d, hd, hlog⟩ := Store.exists_log_closeTop_eq_cut how cp outer l.store
  have hdepth : s.log.length ≤ cp.depth := hdeep cp List.mem_cons_self
  have hle := h.length_le
  rw [hlog, Log.length_cut]
  refine ⟨?_, h.pushes_le, h.separates.take fun _ => ?_, ?_, hinner, ?_⟩
  · rw [hlog, List.length_take, h.aligned, Log.length_cut]
    omega
  · change s.log.length ≤ _
    omega
  · rw [hlog, Log.messages_cut, List.take_take, Nat.min_eq_left (Nat.le_trans hdepth hd)]
    exact h.messages
  · rw [hlog]
    exact Log.counted_cut h.counted d

theorem passive (h : Beneath id s l) {after : Store} (hlog : after.log = l.store.log)
    (hopen : after.checkpoints = l.store.checkpoints) :
    Beneath id s { l with store := after } where
  aligned := by rw [hlog]; exact h.aligned
  pushes_le := h.pushes_le
  separates := h.separates
  messages := by rw [hlog]; exact h.messages
  checkpoints := by rw [hopen]; exact h.checkpoints
  counted := by rw [hlog]; exact h.counted

/-- What lies beneath the checkpoint is out of reach of an operation that neither empties the log
nor closes the checkpoint. -/
theorem step (h : Beneath id s l) {op : Operation} {after : Store}
    (hstep : l.store.Step op after) (hop : op.empties = false)
    (hlen : s.checkpoints.length + 1 ≤ after.checkpoints.length) :
    Beneath id s (l.follow op after) := by
  cases hstep with
  | push hpush =>
    rw [Ledger.follow_of_pushed hpush]
    exact h.push _
  | openCheckpoint name => exact h.openCheckpoint name
  | close how cp outer htop =>
    simp only [Checkpoints.length, Store.innermostFirst_closeTop] at hlen
    exact h.close how htop hlen
  | empty hempties => cases hop.symm.trans hempties
  | passive hpassive hlog hopen =>
    rw [Ledger.follow_of_isPassive hpassive]
    exact h.passive hlog hopen

theorem enter {op : Operation} {after : Store} (h : Beneath id s (l.follow op after))
    (answer : Answer) : Beneath id s (l.enter op answer after) :=
  ⟨h.aligned, h.pushes_le, h.separates, h.messages, h.checkpoints, h.counted⟩

/-- The runs that leave what lies beneath the checkpoint alone: those that never empty the log, as
long as the checkpoint stays open. -/
theorem keeps (id : String) (s : Store) :
    Machine.Keeps Ledger.perform (fun op => op.empties = false)
      (fun l => s.checkpoints.length + 1 ≤ l.store.checkpoints.length) (Beneath id s) where
  opens _ := rfl
  closes _ _ := rfl
  perform := by
    intro op l answer l' hop hl hperform hlen
    obtain ⟨hstep, henter⟩ := Ledger.step_of_perform_ledger hperform
    rw [henter]
    exact (hl.step hstep hop hlen).enter answer
  inside := by
    intro name l answer l' hl hperform
    obtain ⟨inner, hopen, -⟩ := hl.checkpoints
    obtain ⟨-, rfl⟩ := Prod.mk.inj (Except.ok.inj hperform)
    have hlen := congrArg List.length hopen
    rw [List.length_append, List.length_cons] at hlen
    change s.checkpoints.innermostFirst.length + 1 ≤ l.store.checkpoints.innermostFirst.length + 1
    omega

/-- The checkpoint is the innermost one if no other has stayed open further in. -/
theorem top_of_length (h : Beneath id s l)
    (hlen : l.store.checkpoints.length = s.checkpoints.length + 1) :
    l.store.checkpoints.innermostFirst =
      ⟨id, s.log.length⟩ :: s.checkpoints.innermostFirst := by
  obtain ⟨inner, hopen, -⟩ := h.checkpoints
  have hcount := congrArg List.length hopen
  rw [List.length_append, List.length_cons] at hcount
  have hinner : inner = [] := by
    apply List.length_eq_zero_iff.1
    simp only [Checkpoints.length] at hlen
    omega
  rw [hopen, hinner, List.nil_append]

/-- The messages above the checkpoint are those that were pushed since it was opened. -/
theorem storedSince_eq (h : Beneath id s l) :
    l.storedSince s.log.length = l.store.log.above s.log.length := by
  have hbelow : (l.stored.take s.log.length).filter (fun x => s.log.length ≤ x.1) = [] := by
    rw [List.filter_eq_nil_iff]
    intro x hx
    have hlt := h.separates.before rfl x.1 (Ledger.fst_mem_take h.aligned hx)
    simpa using hlt
  have habove : (l.stored.drop s.log.length).filter (fun x => s.log.length ≤ x.1) =
      l.stored.drop s.log.length := by
    rw [List.filter_eq_self]
    intro x hx
    have hle := h.separates.after rfl x.1 (Ledger.fst_mem_drop h.aligned hx)
    simpa using hle
  rw [Ledger.storedSince, ← List.take_append_drop s.log.length l.stored, List.filter_append, hbelow,
    habove, List.nil_append, List.map_drop, Ledger.map_snd_stored h.aligned]
  rfl

/-- Cutting the log at the checkpoint restores it, with its error count. -/
theorem cut_eq (h : Beneath id s l) (hs : s.log.Counted) :
    l.store.log.cut s.log.length = s.log := by
  have hmessages : (l.store.log.cut s.log.length).messages = s.log.messages := by
    rw [Log.messages_cut, h.messages]
  have hcount : (l.store.log.cut s.log.length).errorCount = s.log.errorCount := by
    rw [Log.counted_cut h.counted, hmessages, ← hs]
  exact Log.ext (List.reverse_inj.1 hmessages) hcount

end Beneath

/-- Let a checkpoint be opened on a store that operations can lead to, and let a run that never
empties the log leave it open at every point and end with no other one open inside. Then it can be
rolled back, and the messages, the error count and the open checkpoints are as they were; the text
that printing gives tells the messages that the run has pushed and that are still stored. -/
theorem rollBack_restores {α : Type} (settings : Settings) {s : Store}
    (hs : Machine.Reachable Store.perform (.new settings) s) (id : String) {s₁ : Store}
    {a : Answer} (hopened : (s.perform (.openCheckpoint id)).result = .ok (a, s₁))
    (p : Program α) (hp : p.Uses fun op => op.empties = false) (place : List Nat) (n : Nat)
    {t : Store} (hrun : (p.run Store.perform place n s₁).result = .ok t)
    (hopen : ∀ u ∈ (p.run Store.perform place n s₁).states,
      s.checkpoints.length + 1 ≤ u.checkpoints.length)
    (hend : t.checkpoints.length = s.checkpoints.length + 1) :
    ∃ (u : Store) (l : Ledger),
      (p.run Ledger.perform place n (.of s₁)).result = .ok l ∧ l.store = t ∧
      (t.perform (.close .rollBack id)).result = .ok (.nothing, u) ∧
      (t.perform (.close .rollBackPrinting id)).result =
        .ok (.text ("\n".intercalate
          ((l.storedSince (Ledger.of s₁).pushes).map Message.fullText)), u) ∧
      u.log.messages = s.log.messages ∧ u.log.errorCount = s.log.errorCount ∧
      u.checkpoints.innermostFirst = s.checkpoints.innermostFirst := by
  have hcounted := Store.counted_of_reachable hs
  obtain ⟨-, rfl⟩ := Prod.mk.inj (Except.ok.inj hopened)
  obtain ⟨l, hl, hstates, rfl⟩ := Ledger.exists_run_eq (.of _) hrun
  have hbeneath : Beneath id s l := by
    refine ((Beneath.keeps id s).run hp (Beneath.opened hcounted id) fun k hk => ?_).2 l hl
    exact hopen k.store (hstates k hk)
  have htop := hbeneath.top_of_length hend
  have hcut := hbeneath.cut_eq hcounted
  have hprinted := hbeneath.storedSince_eq
  refine ⟨{ l.store with
    log := s.log
    checkpoints := ⟨s.checkpoints.innermostFirst, l.store.checkpoints.lastCommitted⟩ }, l, hl, rfl,
    ?_, ?_, rfl, rfl, rfl⟩
  · have hclose := Store.close_result htop .rollBack
    rw [Store.closeTop, hcut] at hclose
    exact hclose
  · have hclose := Store.close_result htop .rollBackPrinting
    rw [Store.closeTop, hcut, ← hprinted] at hclose
    exact hclose

/-- A store whose only open checkpoint was opened above messages that have been cleared since. -/
def stale : Store := ⟨⟨[.bare "b"], 1⟩, ⟨[⟨"old", 2⟩], ""⟩, .nowhere, .quiet⟩

/-- A program that leads to this store. -/
def staling : Program Unit :=
  .step (.push (.bare "a")) <| .step (.push (.bare "a")) <| .step (.openCheckpoint "old") <|
    .step .clear <| .step (.push (.bare "b")) .done

/-- A program that repeats a message, fails a speculation and completes another one. -/
def trial : Program Unit :=
  .step (.push (.bare "b")) <|
    .speculate "old" none
      (.step (.push (.bare "b")) <| .step (.openCheckpoint "old") <| .step (.push (.bare "d")) <|
        .step (.close .commit "old") .done) <|
      .speculate "new" (some ()) (.step (.push (.bare "a")) .done) .done

/-- The stale store with a checkpoint of the same name opened on it. -/
def reopened : Store := ⟨⟨[.bare "b"], 1⟩, ⟨[⟨"old", 1⟩, ⟨"old", 2⟩], ""⟩, .nowhere, .quiet⟩

/-- The store that the program leads to from there. -/
def tried : Store :=
  ⟨⟨[.bare "a", .bare "b", .bare "b"], 3⟩, ⟨[⟨"old", 1⟩, ⟨"old", 2⟩], "new"⟩, .nowhere, .quiet⟩

theorem rollBack_restores_stale :
    Machine.Reachable Store.perform (.new .quiet) stale ∧
    (stale.perform (.openCheckpoint "old")).result = .ok (.nothing, reopened) ∧
    trial.Uses (fun op => op.empties = false) ∧
    (trial.run Store.perform [] 0 reopened).result = .ok tried ∧
    (∀ u ∈ (trial.run Store.perform [] 0 reopened).states,
      stale.checkpoints.length + 1 ≤ u.checkpoints.length) ∧
    ∃ (u : Store) (l : Ledger),
      (trial.run Ledger.perform [] 0 (.of reopened)).result = .ok l ∧ l.store = tried ∧
      l.storedSince (Ledger.of reopened).pushes = [.bare "b", .bare "a"] ∧
      (tried.perform (.close .rollBack "old")).result = .ok (.nothing, u) ∧
      (tried.perform (.close .rollBackPrinting "old")).result = .ok (.text "b\na", u) ∧
      u.log.messages = [.bare "b"] ∧ u.log.errorCount = 1 ∧
      u.checkpoints.innermostFirst = [⟨"old", 2⟩] := by
  have hmem : stale ∈ (staling.run Store.perform [] 0 (.new .quiet)).states := by
    decide +kernel
  have hstale := staling.reachable_of_mem_states hmem
  have hopened : (stale.perform (.openCheckpoint "old")).result = .ok (.nothing, reopened) := rfl
  have huses : trial.Uses fun op => op.empties = false := by
    simp [trial, Program.Uses, Operation.empties]
  have hrun : (trial.run Store.perform [] 0 reopened).result = .ok tried := by
    apply Effect.result_of_toOption
    decide +kernel
  have hopen : ∀ u ∈ (trial.run Store.perform [] 0 reopened).states,
      stale.checkpoints.length + 1 ≤ u.checkpoints.length := by
    decide +kernel
  have hsince : (trial.run Ledger.perform [] 0 (.of reopened)).result.toOption.map
      (fun l => l.storedSince (Ledger.of reopened).pushes) = some [.bare "b", .bare "a"] := by
    decide +kernel
  obtain ⟨u, l, hl, hstore, hrolled, hprinted, hrestored⟩ :=
    rollBack_restores .quiet hstale "old" hopened trial huses [] 0 hrun hopen rfl
  rw [hl] at hsince
  have hlist : l.storedSince (Ledger.of reopened).pushes = [.bare "b", .bare "a"] :=
    Option.some.inj hsince
  have htext : "\n".intercalate (([.bare "b", .bare "a"] : List Message).map Message.fullText) =
      "b\na" := by decide
  rw [hlist, htext] at hprinted
  exact ⟨hstale, hopened, huses, hrun, hopen, u, l, hl, hstore, hlist, hrolled, hprinted, hrestored⟩

end DiagnosticLog
