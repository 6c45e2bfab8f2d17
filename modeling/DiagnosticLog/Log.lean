import DiagnosticLog.Message

/-!
The log of stored messages. Messages come off in groups: popping takes the newest message together
with its repetitions directly below it, that is, the messages with the same full text, and a floor
can keep a group from reaching below a depth. The number of stored errors is kept beside the
messages. Main statements: popping fails only on the empty log (`pop_eq_none_iff`), and what it
removes and what it leaves are the two parts of the log (`newestFirst_pop`).
-/

namespace DiagnosticLog

structure Log where
  newestFirst : List Message
  errorCount : Nat
  deriving DecidableEq, Repr

namespace Log

def empty : Log := ⟨[], 0⟩

def length (l : Log) : Nat := l.newestFirst.length

/-- The stored messages, oldest first. -/
def messages (l : Log) : List Message := l.newestFirst.reverse

/-- The messages stored above a depth, oldest first. -/
def above (l : Log) (depth : Nat) : List Message := l.messages.drop depth

/-- What a message adds to the number of errors. -/
def weight (m : Message) : Nat := if m.isError then 1 else 0

/-- The error count agrees with the messages. -/
def Counted (l : Log) : Prop := l.errorCount = l.messages.countP Message.isError

def push (m : Message) (l : Log) : Log := ⟨m :: l.newestFirst, l.errorCount + weight m⟩

def popOne (l : Log) : Option (Message × Log) :=
  match l.newestFirst with
  | [] => none
  | m :: rest => some (m, ⟨rest, l.errorCount - weight m⟩)

/-- Takes messages with this full text off a log, given by its messages and its error count, as
long as it is higher than the floor. -/
def popRun (text : String) (floor : Nat) : List Message → Nat → List Message × Log
  | [], errors => ([], ⟨[], errors⟩)
  | m :: rest, errors =>
    if floor < rest.length + 1 ∧ m.fullText = text then
      let (removed, left) := popRun text floor rest (errors - weight m)
      (m :: removed, left)
    else ([], ⟨m :: rest, errors⟩)

/-- Pops the newest message and its repetitions. The removed messages come newest first. Without a
floor a group may reach down to the oldest message; the newest message is removed whatever the
floor is. -/
def pop (floor : Option Nat) (l : Log) : Option (List Message × Log) :=
  match l.popOne with
  | none => none
  | some (m, rest) =>
    let (more, left) := popRun m.fullText (floor.getD 0) rest.newestFirst rest.errorCount
    some (m :: more, left)

@[simp] theorem messages_push (m : Message) (l : Log) :
    (l.push m).messages = l.messages ++ [m] := by simp [push, messages]

@[simp] theorem length_messages (l : Log) : l.messages.length = l.length := by
  simp [messages, length]

@[simp] theorem length_push (m : Message) (l : Log) : (l.push m).length = l.length + 1 := rfl

theorem counted_empty : empty.Counted := rfl

theorem counted_push {l : Log} (h : l.Counted) (m : Message) : (l.push m).Counted := by
  unfold Counted at *
  rw [messages_push, List.countP_append, ← h]
  simp [push, weight, List.countP_singleton]

theorem newestFirst_popRun (text : String) (floor : Nat) (ms : List Message) (errors : Nat) :
    (popRun text floor ms errors).1 ++ (popRun text floor ms errors).2.newestFirst = ms := by
  induction ms generalizing errors with
  | nil => rfl
  | cons m rest ih =>
    simp only [popRun]
    split
    · simpa using ih (errors - weight m)
    · rfl

theorem pop_eq_none_iff {floor : Option Nat} {l : Log} :
    l.pop floor = none ↔ l.newestFirst = [] := by
  obtain ⟨ms, errors⟩ := l
  cases ms <;> simp [pop, popOne]

theorem pop_ne_none_of_lt {floor : Option Nat} {l : Log} {n : Nat} (h : n < l.length) :
    l.pop floor ≠ none := by
  intro hnone
  rw [length, pop_eq_none_iff.1 hnone] at h
  exact Nat.not_lt_zero n h

/-- A pop takes the newest message off and goes on with the rest. -/
theorem exists_popRun_of_pop {floor : Option Nat} {l left : Log} {removed : List Message}
    (h : l.pop floor = some (removed, left)) :
    ∃ m rest more, l.newestFirst = m :: rest ∧ removed = m :: more ∧
      popRun m.fullText (floor.getD 0) rest (l.errorCount - weight m) = (more, left) := by
  obtain ⟨ms, errors⟩ := l
  cases ms with
  | nil => simp [pop, popOne] at h
  | cons m rest =>
    simp only [pop, popOne, Option.some.injEq, Prod.mk.injEq] at h
    obtain ⟨rfl, rfl⟩ := h
    exact ⟨m, rest, _, rfl, rfl, rfl⟩

theorem newestFirst_pop {floor : Option Nat} {l left : Log} {removed : List Message}
    (h : l.pop floor = some (removed, left)) :
    l.newestFirst = removed ++ left.newestFirst ∧ removed ≠ [] := by
  obtain ⟨m, rest, more, hnewest, rfl, hrun⟩ := exists_popRun_of_pop h
  have hparts := newestFirst_popRun m.fullText (floor.getD 0) rest (l.errorCount - weight m)
  rw [hrun] at hparts
  exact ⟨by rw [hnewest, ← hparts, List.cons_append], List.cons_ne_nil m more⟩

theorem length_pop {floor : Option Nat} {l left : Log} {removed : List Message}
    (h : l.pop floor = some (removed, left)) :
    l.length = removed.length + left.length := by
  simp [length, (newestFirst_pop h).1]

theorem length_lt_of_pop {floor : Option Nat} {l left : Log} {removed : List Message}
    (h : l.pop floor = some (removed, left)) : left.length < l.length := by
  have hlen := length_pop h
  have hpos := List.length_pos_iff.2 (newestFirst_pop h).2
  omega

end Log

end DiagnosticLog
