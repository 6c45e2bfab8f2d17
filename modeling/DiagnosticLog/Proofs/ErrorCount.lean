import DiagnosticLog.Proofs.Transaction

/-!
The error count is right at every moment. Popping a group and unwinding a log are loops that take
off one message at a time and count down as they go (`sheds_pop`, `sheds_unwind`), so the count has
to be right in the middle of a loop as well, and an error must never come off when it stands at
zero. One removal keeps it right, hence every sequence of removals does, wherever a floor stops it
and whatever severities meet in a group.
-/

namespace DiagnosticLog

theorem Message.isError_iff {m : Message} : m.isError = true ↔ m.severity = .error :=
  Severity.isError_iff

namespace Log

/-- These messages come off the log one by one, the newest first, and leave the other. -/
inductive Sheds : Log → List Message → Log → Prop
  | nil (l : Log) : Sheds l [] l
  | cons {l k left : Log} {m : Message} {ms : List Message} (h : l.popOne = some (m, k))
      (hmore : Sheds k ms left) : Sheds l (m :: ms) left

/-- A log that comes between two others when messages come off one by one. -/
def Between (l left k : Log) : Prop := ∃ gone more, l.Sheds gone k ∧ k.Sheds more left

/-- The logs that pushes and pops, with any floors, can lead to. -/
inductive Reachable : Log → Prop
  | empty : Reachable .empty
  | push {l : Log} (hl : Reachable l) (m : Message) : Reachable (l.push m)
  | pop {l left : Log} {floor : Option Nat} {removed : List Message} (hl : Reachable l)
      (h : l.pop floor = some (removed, left)) : Reachable left

/-- The error count is the number of stored errors. It is not zero when an error is about to come
off, and it tells whether there is one. -/
structure TellsErrors (l : Log) : Prop where
  count : l.errorCount = l.messages.countP fun m => m.severity = .error
  pos_of_popOne : ∀ m k, l.popOne = some (m, k) → m.severity = .error → 0 < l.errorCount
  pos_iff : 0 < l.errorCount ↔ ∃ m ∈ l.messages, m.severity = .error

theorem Sheds.append {l k left : Log} {ms ns : List Message} (h : l.Sheds ms k)
    (hmore : k.Sheds ns left) : l.Sheds (ms ++ ns) left := by
  induction h with
  | nil l => exact hmore
  | cons hone _ ih => exact .cons hone (ih hmore)

/-- What one removal counts down is there, and the count is right again after it. -/
theorem Counted.popOne {l k : Log} {m : Message} (hl : l.Counted) (h : l.popOne = some (m, k)) :
    weight m ≤ l.errorCount ∧ k.Counted := by
  obtain ⟨ms, errors⟩ := l
  cases ms with
  | nil => cases h
  | cons first rest =>
    obtain ⟨rfl, rfl⟩ := Prod.mk.inj (Option.some.inj h)
    simp only [Counted, messages, List.countP_reverse, List.countP_cons] at hl ⊢
    simp only [weight]
    omega

theorem Counted.sheds {l left : Log} {ms : List Message} (hl : l.Counted)
    (h : l.Sheds ms left) : left.Counted := by
  induction h with
  | nil l => exact hl
  | cons hone _ ih => exact ih (hl.popOne hone).2

theorem Counted.between {l left k : Log} (hl : l.Counted) (h : l.Between left k) : k.Counted := by
  obtain ⟨gone, more, hgone, -⟩ := h
  exact hl.sheds hgone

theorem Counted.tellsErrors {l : Log} (hl : l.Counted) : l.TellsErrors where
  count := by
    rw [hl]
    refine List.countP_congr fun m _ => ?_
    rw [Message.isError_iff, decide_eq_true_iff]
  pos_of_popOne m k h hm := by
    have hweight := (hl.popOne h).1
    rw [weight, if_pos (Message.isError_iff.2 hm)] at hweight
    exact hweight
  pos_iff := by
    rw [hl, List.countP_pos_iff]
    simp only [Message.isError_iff]

/-- Taking a run of equal messages off takes them off one by one. -/
theorem sheds_popRun (text : String) (floor : Nat) (ms : List Message) (errors : Nat) :
    Sheds ⟨ms, errors⟩ (popRun text floor ms errors).1 (popRun text floor ms errors).2 := by
  induction ms generalizing errors with
  | nil => exact .nil _
  | cons m rest ih =>
    simp only [popRun]
    split
    · exact .cons rfl (ih (errors - weight m))
    · exact .nil _

theorem sheds_pop {floor : Option Nat} {l left : Log} {removed : List Message}
    (h : l.pop floor = some (removed, left)) : l.Sheds removed left := by
  obtain ⟨m, rest, more, hnewest, rfl, hrun⟩ := exists_popRun_of_pop h
  have hone : l.popOne = some (m, ⟨rest, l.errorCount - weight m⟩) := by rw [popOne, hnewest]
  have hmore := sheds_popRun m.fullText (floor.getD 0) rest (l.errorCount - weight m)
  rw [hrun] at hmore
  exact .cons hone hmore

theorem Reachable.counted {l : Log} (h : l.Reachable) : l.Counted := by
  induction h with
  | empty => exact counted_empty
  | push hl m ih => exact counted_push ih m
  | pop hl hpop ih => exact ih.sheds (sheds_pop hpop)

end Log

namespace Store

/-- Unwinding takes messages off one by one, group after group. -/
theorem sheds_unwind {floor : Option Nat} {s t : Store} {removed : List Message}
    (h : (s.unwind floor).result = .ok (removed, t)) : s.log.Sheds removed t.log := by
  fun_induction unwind floor s generalizing removed t with
  | case1 s hfloor hpop => cases h
  | case2 s hfloor group left hpop hless ih =>
    obtain ⟨-, -, h⟩ := Effect.result_andThen_eq_ok_iff.1 h
    obtain ⟨⟨more, u⟩, hmore, h⟩ := Effect.result_andThen_eq_ok_iff.1 h
    obtain ⟨rfl, rfl⟩ := Prod.mk.inj (Except.ok.inj h)
    exact (Log.sheds_pop hpop).append (ih hmore)
  | case3 s hfloor =>
    obtain ⟨rfl, rfl⟩ := Prod.mk.inj (Except.ok.inj h)
    exact .nil _

/-- An operation pushes one message or takes messages off one by one, if it touches the log at
all. -/
theorem sheds_of_perform {op : Operation} {s s' : Store} {a : Answer}
    (h : (s.perform op).result = .ok (a, s')) :
    (∃ m, s'.log = s.log.push m) ∨ ∃ removed, s.log.Sheds removed s'.log := by
  have hcut : ∀ d, s.log.Sheds (s.log.newestAbove d) (s.log.cut d) := fun d =>
    sheds_unwind (unwind_result (some d) s)
  cases step_of_perform h with
  | push hop => exact Or.inl ⟨_, rfl⟩
  | openCheckpoint id => exact Or.inr ⟨[], .nil _⟩
  | close how cp outer htop =>
    obtain ⟨d, -, hlog⟩ := exists_log_closeTop_eq_cut how cp outer s
    exact Or.inr ⟨_, hlog ▸ hcut d⟩
  | empty hop => exact Or.inr ⟨_, hcut 0⟩
  | passive hop hlog hopen => exact Or.inr ⟨[], hlog ▸ .nil _⟩

end Store

/-- The error count tells the errors in every log that pushes and pops lead to and in the log of
every store that operations lead to, and also between any two removals inside a pop or inside an
operation. -/
theorem errorCount_tells_throughout :
    (∀ l, Log.Reachable l → l.TellsErrors ∧
      ∀ floor removed left, l.pop floor = some (removed, left) →
        l.Sheds removed left ∧ ∀ k, l.Between left k → k.TellsErrors) ∧
    ∀ settings s, Machine.Reachable Store.perform (.new settings) s → s.log.TellsErrors ∧
      ∀ op a s', (s.perform op).result = .ok (a, s') →
        ((∃ m, s'.log = s.log.push m) ∨ ∃ removed, s.log.Sheds removed s'.log) ∧
        ∀ k, s.log.Between s'.log k → k.TellsErrors := by
  constructor
  · intro l hl
    refine ⟨hl.counted.tellsErrors, fun floor removed left hpop => ⟨Log.sheds_pop hpop, ?_⟩⟩
    exact fun k hk => (hl.counted.between hk).tellsErrors
  · intro settings s hs
    have hcounted := Store.counted_of_reachable hs
    refine ⟨hcounted.tellsErrors, fun op a s' hperform => ⟨Store.sheds_of_perform hperform, ?_⟩⟩
    exact fun k hk => (hcounted.between hk).tellsErrors

/-- A store in which a group of one text has a warning below an error and reaches down to an error
below the open checkpoint. -/
def mixed : Store :=
  ⟨⟨[.bare "a", { Message.bare "a" with severity := .warning }, .bare "a"], 2⟩, ⟨[⟨"c", 1⟩], ""⟩,
    .nowhere, .quiet⟩

/-- A program that leads to this store. -/
def mixing : Program Unit :=
  .step (.push (.bare "a")) <| .step (.openCheckpoint "c") <|
    .step (.push { Message.bare "a" with severity := .warning }) <|
      .step (.push (.bare "a")) .done

/-- What is left of it when the checkpoint has been rolled back. -/
def unmixed : Store := ⟨⟨[.bare "a"], 1⟩, ⟨[], ""⟩, .nowhere, .quiet⟩

theorem errorCount_tells_in_group :
    Machine.Reachable Store.perform (.new .quiet) mixed ∧
    (mixed.perform (.close .rollBack "c")).result = .ok (.nothing, unmixed) ∧
    ∃ k, mixed.log.Between unmixed.log k ∧ k.length = 2 ∧ k.errorCount = 1 ∧ k.TellsErrors := by
  have hmem : mixed ∈ (mixing.run Store.perform [] 0 (.new .quiet)).states := by
    decide +kernel
  have hmixed := mixing.reachable_of_mem_states hmem
  have hclose : (mixed.perform (.close .rollBack "c")).result = .ok (.nothing, unmixed) := by
    apply Effect.result_of_toOption
    decide +kernel
  have hbetween : mixed.log.Between unmixed.log
      ⟨[{ Message.bare "a" with severity := .warning }, .bare "a"], 1⟩ :=
    ⟨_, _, .cons rfl (.nil _), .cons rfl (.nil _)⟩
  have htells := ((errorCount_tells_throughout.2 .quiet mixed hmixed).2 _ _ _ hclose).2 _ hbetween
  exact ⟨hmixed, hclose, _, hbetween, rfl, rfl, htells⟩

end DiagnosticLog
