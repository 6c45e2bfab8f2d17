import DiagnosticLog.Proofs.Transaction

/-!
What speculations mean. A program that only pushes messages and speculates, to any depth and under
any names, never fails, whatever store it starts on. It stores its messages after those that were
there, without the messages of the speculations that have no outcome, and leaves the open
checkpoints as they were. A commit is remembered even where its speculation is discarded by one
around it: the last commit is that of the speculation with an outcome that finished last.
-/

namespace DiagnosticLog

/-- A speculation that has finished: where it stands in its program, its name and its outcome. -/
structure Attempt (α : Type) where
  place : List Nat
  id : String
  outcome : Option α

/-- The name that the attempt commits, if it has an outcome. -/
def Attempt.committed? {α : Type} (a : Attempt α) : Option String := a.outcome.map fun _ => a.id

namespace Program

variable {α : Type}

/-- The speculations of a program in the order in which they finish. -/
def attempts (place : List Nat) : Nat → Program α → List (Attempt α)
  | _, done => []
  | n, step _ rest => rest.attempts place (n + 1)
  | n, speculate id outcome body rest =>
    body.attempts (place ++ [n]) 0 ++ ⟨place ++ [n], id, outcome⟩ :: rest.attempts place (n + 1)

/-- The messages that a program pushes, in order, without those in speculations that have no
outcome. -/
def kept : Program α → List Message
  | done => []
  | step (.push m) rest => m :: rest.kept
  | step _ rest => rest.kept
  | speculate _ none _ rest => rest.kept
  | speculate _ (some _) body rest => body.kept ++ rest.kept

end Program

section Outcomes

variable {α β γ σ : Type} {m : Machine σ}

/-- The place and the outcome of a speculation, if this is where it finishes. -/
def Happening.outcome? : Happening α σ → Option (List Nat × Option α)
  | finished place (.outcome value) _ => some (place, value)
  | _ => none

/-- The outcomes that a run records, each with the place of its speculation. -/
def Effect.outcomes (e : Effect (Happening α σ) β) : List (List Nat × Option α) :=
  e.outputs.filterMap Happening.outcome?

theorem Effect.outcomes_andThen {e : Effect (Happening α σ) β} {b : β} (h : e.result = .ok b)
    (k : β → Effect (Happening α σ) γ) :
    (e.andThen k).outcomes = e.outcomes ++ (k b).outcomes :=
  filterMap_outputs_andThen Happening.outcome? h k

theorem Machine.outcomes_doing (op : Operation) (s : σ) :
    (m.doing op s : Effect (Happening α σ) (Answer × σ)).outcomes = [] := by
  simp [Effect.outcomes, doing, Effect.mapOutputs, Happening.outcome?, Function.comp_def]

/-- A speculation ends exactly if its opening, its body and its closing do. -/
theorem Machine.result_speculate_eq_ok_iff {place : List Nat} {name : String} {outcome : Option α}
    {body : σ → Effect (Happening α σ) σ} {s t : σ} :
    (m.speculate place name outcome body s).result = .ok t ↔
      ∃ a s₁ s₂ b, (m (.openCheckpoint name) s).result = .ok (a, s₁) ∧ (body s₁).result = .ok s₂ ∧
        (m (.close (Closing.ofOutcome outcome) name) s₂).result = .ok (b, t) := by
  simp only [speculate, Effect.bind_eq, Effect.result_andThen_eq_ok_iff]
  constructor
  · rintro ⟨⟨a, s₁⟩, hopened, s₂, hbody, ⟨b, s₃⟩, hclosed, hfinish⟩
    obtain rfl : s₃ = t := Except.ok.inj hfinish
    exact ⟨a, s₁, s₂, b, hopened, hbody, hclosed⟩
  · rintro ⟨a, s₁, s₂, b, hopened, hbody, hclosed⟩
    exact ⟨(a, s₁), hopened, s₂, hbody, (b, t), hclosed, rfl⟩

theorem Machine.outcomes_operate {place : List Nat} {op : Operation} {s t : σ}
    (h : (m.operate place op s : Effect (Happening α σ) σ).result = .ok t) :
    (m.operate place op s : Effect (Happening α σ) σ).outcomes = [] := by
  obtain ⟨⟨a, u⟩, hu, -⟩ := Effect.result_andThen_eq_ok_iff.1 h
  rw [operate, Effect.bind_eq, Effect.outcomes_andThen hu, outcomes_doing]
  rfl

/-- The outcome of a speculation comes after those inside it. -/
theorem Machine.outcomes_speculate {place : List Nat} {name : String} {outcome : Option α}
    {body : σ → Effect (Happening α σ) σ} {s t : σ}
    (h : (m.speculate place name outcome body s).result = .ok t) :
    ∃ s₁ s₂, (body s₁).result = .ok s₂ ∧
      (m.speculate place name outcome body s).outcomes =
        (body s₁).outcomes ++ [(place, outcome)] := by
  obtain ⟨a, s₁, s₂, b, hopened, hbody, hclosed⟩ := result_speculate_eq_ok_iff.1 h
  have hopen : (m.doing (.openCheckpoint name) s : Effect (Happening α σ) _).result =
      .ok (a, s₁) := hopened
  have hclose : (m.doing (.close (Closing.ofOutcome outcome) name) s₂ :
      Effect (Happening α σ) _).result = .ok (b, t) := hclosed
  refine ⟨s₁, s₂, hbody, ?_⟩
  simp only [speculate, Effect.bind_eq, Effect.outcomes_andThen hopen,
    Effect.outcomes_andThen hbody, Effect.outcomes_andThen hclose, outcomes_doing, List.nil_append]
  rfl

/-- A run that ends has finished every speculation of the program, each with its own outcome. -/
theorem Program.outcomes_run (p : Program α) {place : List Nat} {n : Nat} {s t : σ}
    (h : (p.run m place n s).result = .ok t) :
    (p.run m place n s).outcomes = (p.attempts place n).map fun a => (a.place, a.outcome) := by
  induction p generalizing place n s t with
  | done => rfl
  | step op rest ih =>
    obtain ⟨u, hu, ht⟩ := Effect.result_andThen_eq_ok_iff.1 h
    rw [run, Effect.bind_eq, Effect.outcomes_andThen hu, Machine.outcomes_operate hu, ih ht]
    rfl
  | speculate name outcome body rest ihBody ihRest =>
    obtain ⟨u, hu, ht⟩ := Effect.result_andThen_eq_ok_iff.1 h
    obtain ⟨s₁, s₂, hbody, hfirst⟩ := Machine.outcomes_speculate hu
    rw [run, Effect.bind_eq, Effect.outcomes_andThen hu, hfirst, ihBody hbody, ihRest ht]
    simp [attempts]

end Outcomes

namespace Log

/-- Pushes messages one after another. -/
def pushAll (ms : List Message) (l : Log) : Log := ms.foldl (fun l m => l.push m) l

theorem pushAll_cons (m : Message) (ms : List Message) (l : Log) :
    l.pushAll (m :: ms) = (l.push m).pushAll ms := rfl

theorem pushAll_append (ms ns : List Message) (l : Log) :
    l.pushAll (ms ++ ns) = (l.pushAll ms).pushAll ns := List.foldl_append

theorem newestFirst_pushAll (ms : List Message) (l : Log) :
    (l.pushAll ms).newestFirst = ms.reverse ++ l.newestFirst := by
  induction ms generalizing l with
  | nil => rfl
  | cons m ms ih => simp [pushAll_cons, ih, push]

theorem errorCount_pushAll (ms : List Message) (l : Log) :
    (l.pushAll ms).errorCount = l.errorCount + ms.countP Message.isError := by
  induction ms generalizing l with
  | nil => rfl
  | cons m ms ih =>
    rw [pushAll_cons, ih, List.countP_cons]
    simp only [push, weight]
    omega

theorem messages_pushAll (ms : List Message) (l : Log) :
    (l.pushAll ms).messages = l.messages ++ ms := by
  simp [messages, newestFirst_pushAll]

/-- Cutting a log back to the length it had takes off what has been pushed since. -/
theorem cut_pushAll (ms : List Message) (l : Log) : (l.pushAll ms).cut l.length = l := by
  have hlen : (l.pushAll ms).length - l.length = ms.length := by
    simp [length, newestFirst_pushAll]
  have habove : (l.pushAll ms).newestAbove l.length = ms.reverse := by
    simp [newestAbove, hlen, newestFirst_pushAll]
  have hmessages : ((l.pushAll ms).cut l.length).newestFirst = l.newestFirst := by
    simp [newestFirst_cut, hlen, newestFirst_pushAll]
  have hcount : ((l.pushAll ms).cut l.length).errorCount = l.errorCount := by
    simp [errorCount_cut, habove, errorCount_pushAll]
  exact Log.ext hmessages hcount

end Log

namespace Store

variable {α : Type}

/-- A speculation ends exactly if its body does and leaves a checkpoint of its name innermost, which
is then closed. -/
theorem result_speculate_eq_ok_iff {place : List Nat} {name : String} {outcome : Option α}
    {body : Store → Effect (Happening α Store) Store} {s t : Store} :
    (Machine.speculate perform place name outcome body s).result = .ok t ↔
      ∃ u cp outer,
        (body { s with checkpoints := s.checkpoints.push name s.log.length }).result = .ok u ∧
        u.checkpoints.innermostFirst = cp :: outer ∧ cp.id = name ∧
        t = (u.closeTop (Closing.ofOutcome outcome) cp outer).2 := by
  rw [Machine.result_speculate_eq_ok_iff]
  constructor
  · rintro ⟨a, s₁, u, b, hopened, hbody, hclosed⟩
    obtain ⟨-, rfl⟩ := Prod.mk.inj (Except.ok.inj hopened)
    obtain ⟨cp, outer, htop, hname, ht⟩ := top_of_close hclosed
    exact ⟨u, cp, outer, hbody, htop, hname, congrArg Prod.snd ht⟩
  · rintro ⟨u, cp, outer, hbody, htop, rfl, rfl⟩
    exact ⟨.nothing, _, u, _, rfl, hbody, close_result htop (Closing.ofOutcome outcome)⟩

/-- The store with messages pushed and, if there are any, names committed. -/
def extend (ms : List Message) (committed : List String) (s : Store) : Store :=
  { s with
    log := s.log.pushAll ms
    checkpoints := ⟨s.checkpoints.innermostFirst,
      committed.getLast?.getD s.checkpoints.lastCommitted⟩ }

theorem extend_extend (ms ns : List Message) (committed more : List String) (s : Store) :
    (s.extend ms committed).extend ns more = s.extend (ms ++ ns) (committed ++ more) := by
  simp [extend, Log.pushAll_append, List.getLast?_append]

section CloseTop

variable (name : String) (ms : List Message) (committed : List String) (s : Store)

/-- Rolling back what a checkpoint was opened for leaves the names that were committed since. -/
theorem closeTop_rollBack_extend :
    (({ s with checkpoints := s.checkpoints.push name s.log.length }.extend ms committed).closeTop
      .rollBack ⟨name, s.log.length⟩ s.checkpoints.innermostFirst).2 = s.extend [] committed := by
  simp only [closeTop, extend, Log.cut_pushAll]
  rfl

/-- Committing it leaves the messages as well, and the name is committed last. -/
theorem closeTop_commit_extend :
    (({ s with checkpoints := s.checkpoints.push name s.log.length }.extend ms committed).closeTop
      .commit ⟨name, s.log.length⟩ s.checkpoints.innermostFirst).2 =
      s.extend ms (committed ++ [name]) := by
  simp [closeTop, extend]

end CloseTop

/-- Pushes and speculations never fail, and all they do to a store is to extend it. -/
theorem result_run_pushes (p : Program α) (hp : p.Uses fun op => ∃ m, op = .push m)
    (place : List Nat) (n : Nat) (s : Store) :
    (p.run perform place n s).result =
      .ok (s.extend p.kept ((p.attempts place n).filterMap Attempt.committed?)) := by
  induction p generalizing place n s with
  | done => rfl
  | step op rest ih =>
    obtain ⟨⟨m, rfl⟩, hrest⟩ := hp
    exact ih hrest place (n + 1) { s with log := s.log.push m }
  | speculate name outcome body rest ihBody ihRest =>
    -- The body extends a store that has the new checkpoint on top, so closing finds it there.
    have hinside := ihBody hp.1 (place ++ [n]) 0
      { s with checkpoints := s.checkpoints.push name s.log.length }
    have hfirst : (Machine.speculate perform (place ++ [n]) name outcome
        (body.run perform (place ++ [n]) 0) s).result = _ :=
      result_speculate_eq_ok_iff.2 ⟨_, _, _, hinside, rfl, rfl, rfl⟩
    refine Effect.result_andThen_eq_ok_iff.2 ⟨_, hfirst, ?_⟩
    rw [ihRest hp.2]
    cases outcome with
    | none =>
      rw [Closing.ofOutcome, closeTop_rollBack_extend, extend_extend]
      simp [Program.kept, Program.attempts, List.filterMap_cons, Attempt.committed?]
    | some value =>
      rw [Closing.ofOutcome, closeTop_commit_extend, extend_extend]
      simp [Program.kept, Program.attempts, Attempt.committed?]

end Store

/-- A program of pushes and speculations, nested to any depth and under any names, runs to its end
on every store. Every speculation gives its own outcome. The messages stored afterwards are those
before and those that the program keeps, the open checkpoints are those before, and the last commit
is that of the speculation with an outcome that finished last, be it inside one that failed. -/
theorem nested_speculations_result {α : Type} (s : Store) (p : Program α)
    (hp : p.Uses fun op => ∃ m, op = .push m) (place : List Nat) (n : Nat) :
    ∃ t, (p.run Store.perform place n s).result = .ok t ∧
      (p.run Store.perform place n s).outcomes =
        (p.attempts place n).map (fun a => (a.place, a.outcome)) ∧
      t.log.messages = s.log.messages ++ p.kept ∧
      t.checkpoints.innermostFirst = s.checkpoints.innermostFirst ∧
      t.checkpoints.lastCommitted =
        ((p.attempts place n).filterMap Attempt.committed?).getLast?.getD
          s.checkpoints.lastCommitted := by
  have hresult := Store.result_run_pushes p hp place n s
  exact ⟨_, hresult, p.outcomes_run hresult, Log.messages_pushAll _ _, rfl, rfl⟩

/-- A program that keeps a message, then fails two speculations, each after others inside it were
committed. -/
def outdone : Program Nat :=
  .step (.push (.bare "b")) <|
    .speculate "old" none
      (.step (.push (.bare "b")) <|
        .speculate "old" (some 1) (.step (.push (.bare "a")) .done) .done) <|
      .speculate "new" (some 2) (.step (.push (.bare "b")) .done) <|
        .speculate "new" none (.speculate "last" (some 3) (.step (.push (.bare "d")) .done) .done)
          .done

theorem commit_outlives_failure :
    outdone.Uses (fun op => ∃ m, op = .push m) ∧ outdone.kept = [.bare "b", .bare "b"] ∧
    ∃ t, (outdone.run Store.perform [] 0 stale).result = .ok t ∧
      (outdone.run Store.perform [] 0 stale).outcomes =
        [([1, 1], some 1), ([1], none), ([2], some 2), ([3, 0], some 3), ([3], none)] ∧
      t.log.messages = [.bare "b", .bare "b", .bare "b"] ∧
      t.checkpoints.innermostFirst = [⟨"old", 2⟩] ∧ t.checkpoints.lastCommitted = "last" := by
  have huses : outdone.Uses fun op => ∃ m, op = .push m := by
    simp [outdone, Program.Uses]
  exact ⟨huses, rfl, nested_speculations_result stale outdone huses [] 0⟩

end DiagnosticLog
