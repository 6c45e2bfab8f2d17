import DiagnosticLog.Proofs.Runs
import DiagnosticLog.Proofs.Steps

/-!
The history of a run, kept in a ledger beside the store. The ledger numbers the pushes and knows
which of them the stored messages came with; it remembers how things stood when each open
checkpoint was opened, and it records every operation with the messages before and after it. Every
operation is performed by the store itself, and the ledger only enters what has happened, so it
never influences the store (`view_run_ledger`).

A ledger is consistent if each of its openings separates the messages that were stored before it
from those stored after it: by the depth of the checkpoint, as long as the log has not been emptied
in between, and trivially from then on. Every operation keeps a ledger consistent.
-/

namespace DiagnosticLog

/-- How a checkpoint was opened: after how many pushes, and whether the log was emptied since. -/
structure Opening where
  checkpoint : Checkpoint
  pushes : Nat
  emptied : Bool
  deriving DecidableEq, Repr

/-- An operation that was performed, with the numbered messages stored before and after it, oldest
first. If it closed a checkpoint, this is the one that the opening tells of. -/
structure Record where
  operation : Operation
  answer : Answer
  opening : Option Opening
  before : List (Nat × Message)
  after : List (Nat × Message)
  deriving DecidableEq

structure Ledger where
  store : Store
  /-- The numbers of the pushes that the stored messages came with, oldest first. -/
  numbers : List Nat
  pushes : Nat
  /-- The openings of the checkpoints that were opened since the ledger began, innermost first. -/
  openings : List Opening
  records : List Record
  deriving DecidableEq

/-- The messages that the operation took off the log, oldest first. -/
def Record.removed (r : Record) : List (Nat × Message) := r.before.drop r.after.length

namespace Ledger

/-- A ledger that begins with this store. The messages in it count as the first pushes. -/
def of (s : Store) : Ledger := ⟨s, List.range s.log.length, s.log.length, [], []⟩

def stored (l : Ledger) : List (Nat × Message) := l.numbers.zip l.store.log.messages

/-- The stored messages that came after the first `n` pushes, oldest first. -/
def storedSince (n : Nat) (l : Ledger) : List Message :=
  (l.stored.filter fun x => n ≤ x.1).map Prod.snd

/-- Follows an operation that leads to this store. The log gives up messages at its newest end
only. -/
def follow (op : Operation) (after : Store) (l : Ledger) : Ledger :=
  match op with
  | .report _ | .reportAt _ _ | .push _ =>
    { l with store := after, numbers := l.numbers ++ [l.pushes], pushes := l.pushes + 1 }
  | .openCheckpoint id =>
    { l with
      store := after
      openings := ⟨⟨id, l.store.log.length⟩, l.pushes, false⟩ :: l.openings }
  | .close _ _ =>
    { l with
      store := after
      numbers := l.numbers.take after.log.length
      openings := l.openings.tail }
  | .drain _ | .clear =>
    { l with
      store := after
      numbers := l.numbers.take after.log.length
      openings := l.openings.map fun o => { o with emptied := true } }
  | _ => { l with store := after }

/-- The opening of the checkpoint that the operation closes. -/
def closing? (op : Operation) (l : Ledger) : Option Opening :=
  match op with
  | .close _ _ => l.openings.head?
  | _ => none

def record (op : Operation) (answer : Answer) (after : Store) (l : Ledger) : Record :=
  ⟨op, answer, l.closing? op, l.stored, (l.follow op after).stored⟩

/-- Follows an operation and records it. -/
def enter (op : Operation) (answer : Answer) (after : Store) (l : Ledger) : Ledger :=
  { l.follow op after with records := l.records ++ [l.record op answer after] }

def perform (op : Operation) (l : Ledger) : Effect Output (Answer × Ledger) := do
  let (answer, after) ← l.store.perform op
  return (answer, l.enter op answer after)

section Follow

variable {op : Operation} {after : Store} {l : Ledger}

theorem follow_of_pushed {f : Focus} {m : Message} (h : op.pushed? f = some m) :
    l.follow op after =
      { l with store := after, numbers := l.numbers ++ [l.pushes], pushes := l.pushes + 1 } := by
  cases op with
  | report d | reportAt d location | push m => rfl
  | _ => cases h

theorem follow_of_empties (h : op.empties = true) :
    l.follow op after =
      { l with
        store := after
        numbers := l.numbers.take after.log.length
        openings := l.openings.map fun o => { o with emptied := true } } := by
  cases op with
  | drain form | clear => rfl
  | _ => cases h

theorem follow_of_isPassive (h : op.isPassive = true) :
    l.follow op after = { l with store := after } := by
  cases op with
  | focusOn _ _ | currentFocus | setEcho _ | isInnermost _ | peek | changeEnvironment _
  | reenter => rfl
  | _ => cases h

end Follow

section Stored

variable {l : Ledger} (h : l.numbers.length = l.store.log.length)
include h

theorem map_fst_stored : l.stored.map Prod.fst = l.numbers := by
  apply List.map_fst_zip
  exact Nat.le_of_eq (h.trans (Log.length_messages l.store.log).symm)

theorem map_snd_stored : l.stored.map Prod.snd = l.store.log.messages := by
  apply List.map_snd_zip
  exact Nat.le_of_eq ((Log.length_messages l.store.log).trans h.symm)

/-- A closing that takes nothing off the log leaves the numbers as they are. -/
theorem take_numbers : l.numbers.take l.store.log.length = l.numbers :=
  List.take_of_length_le (Nat.le_of_eq h)

theorem fst_mem_take {d : Nat} {x : Nat × Message} (hx : x ∈ l.stored.take d) :
    x.1 ∈ l.numbers.take d := by
  rw [← map_fst_stored h, ← List.map_take]
  exact List.mem_map_of_mem hx

theorem fst_mem_drop {d : Nat} {x : Nat × Message} (hx : x ∈ l.stored.drop d) :
    x.1 ∈ l.numbers.drop d := by
  rw [← map_fst_stored h, ← List.map_drop]
  exact List.mem_map_of_mem hx

end Stored

@[simp] theorem store_enter (op : Operation) (answer : Answer) (after : Store) (l : Ledger) :
    (l.enter op answer after).store = after := by
  cases op <;> rfl

theorem view_perform_ledger (op : Operation) (l : Ledger) :
    (l.perform op).view some (Prod.map id store) = l.store.perform op := by
  rw [perform]
  generalize l.store.perform op = e
  obtain ⟨outputs, result⟩ := e
  cases result with
  | error v => simp [Effect.bind_eq, Effect.andThen, Effect.view, Except.map]
  | ok r =>
    simp [Effect.bind_eq, Effect.andThen, Effect.view, Except.map, Effect.pure_eq, Effect.done]

/-- A run with a ledger is the run of the store. -/
theorem view_run_ledger {α : Type} (p : Program α) (place : List Nat) (n : Nat) (l : Ledger) :
    (p.run perform place n l).view (Happening.view some store) store =
      p.run Store.perform place n l.store :=
  Program.view_run view_perform_ledger p place n l

/-- A run of the store that ends can be followed by a ledger. -/
theorem exists_run_eq {α : Type} {p : Program α} {place : List Nat} {n : Nat} (l : Ledger)
    {t : Store} (h : (p.run Store.perform place n l.store).result = .ok t) :
    ∃ k, (p.run perform place n l).result = .ok k ∧
      (∀ u ∈ (p.run perform place n l).states,
        u.store ∈ (p.run Store.perform place n l.store).states) ∧ k.store = t := by
  have hview := view_run_ledger p place n l
  rw [← hview] at h
  obtain ⟨k, hk, hstore⟩ := Effect.result_view_eq_ok h
  refine ⟨k, hk, fun u hu => ?_, hstore⟩
  rw [← hview, Effect.states_view]
  exact List.mem_map_of_mem hu

/-- A ledger that performs an operation enters a step of the store. -/
theorem step_of_perform_ledger {op : Operation} {l l' : Ledger} {a : Answer}
    (h : (l.perform op).result = .ok (a, l')) :
    l.store.Step op l'.store ∧ l' = l.enter op a l'.store := by
  obtain ⟨r, hr, hl⟩ := Effect.result_andThen_eq_ok_iff.1 h
  obtain ⟨rfl, rfl⟩ := Prod.mk.inj (Except.ok.inj hl)
  rw [store_enter]
  exact ⟨Store.step_of_perform hr, rfl⟩

end Ledger

namespace Opening

/-- The opening tells the numbers of the pushes before it from those of the pushes after it. -/
structure Separates (o : Opening) (numbers : List Nat) : Prop where
  depth_le : o.emptied = false → o.checkpoint.depth ≤ numbers.length
  before : o.emptied = false → ∀ n ∈ numbers.take o.checkpoint.depth, n < o.pushes
  after : o.emptied = false → ∀ n ∈ numbers.drop o.checkpoint.depth, o.pushes ≤ n
  after_emptied : o.emptied = true → ∀ n ∈ numbers, o.pushes ≤ n

/-- The inner of two openings is at least as deep, unless the log was emptied in between or
later. -/
def Within (inner outer : Opening) : Prop :=
  outer.emptied = false → inner.emptied = false ∧ outer.checkpoint.depth ≤ inner.checkpoint.depth

variable {o : Opening} {numbers : List Nat}

theorem separates_new (id : String) {depth pushes : Nat} (hdepth : depth = numbers.length)
    (h : ∀ n ∈ numbers, n < pushes) : Separates ⟨⟨id, depth⟩, pushes, false⟩ numbers where
  depth_le _ := Nat.le_of_eq hdepth
  before _ n hn := h n (List.mem_of_mem_take hn)
  after _ n hn := by simp [hdepth] at hn
  after_emptied hemptied := by cases hemptied

theorem separates_nil (o : Opening) : Separates { o with emptied := true } [] where
  depth_le hemptied := by cases hemptied
  before hemptied := by cases hemptied
  after hemptied := by cases hemptied
  after_emptied _ n hn := by cases hn

theorem Separates.append (h : o.Separates numbers) {n : Nat} (hn : o.pushes ≤ n) :
    o.Separates (numbers ++ [n]) where
  depth_le hfresh := by
    have hle := h.depth_le hfresh
    rw [List.length_append]
    omega
  before hfresh := by
    rw [List.take_append_of_le_length (h.depth_le hfresh)]
    exact h.before hfresh
  after hfresh := by
    intro k hk
    rw [List.drop_append_of_le_length (h.depth_le hfresh), List.mem_append] at hk
    rcases hk with hk | hk
    · exact h.after hfresh k hk
    · exact List.mem_singleton.1 hk ▸ hn
  after_emptied hemptied := by
    intro k hk
    rcases List.mem_append.1 hk with hk | hk
    · exact h.after_emptied hemptied k hk
    · exact List.mem_singleton.1 hk ▸ hn

theorem Separates.take (h : o.Separates numbers) {d : Nat}
    (hd : o.emptied = false → o.checkpoint.depth ≤ d) : o.Separates (numbers.take d) where
  depth_le hfresh := by
    have hle := h.depth_le hfresh
    have hdepth := hd hfresh
    rw [List.length_take]
    omega
  before hfresh := by
    rw [List.take_take, Nat.min_eq_left (hd hfresh)]
    exact h.before hfresh
  after hfresh := by
    intro k hk
    rw [List.drop_take] at hk
    exact h.after hfresh k (List.mem_of_mem_take hk)
  after_emptied hemptied n hn := h.after_emptied hemptied n (List.mem_of_mem_take hn)

end Opening

namespace Ledger

structure Consistent (l : Ledger) : Prop where
  aligned : l.numbers.length = l.store.log.length
  numbered : ∀ n ∈ l.numbers, n < l.pushes
  openings : l.openings.map Opening.checkpoint = l.store.checkpoints.innermostFirst
  pushes_le : ∀ o ∈ l.openings, o.pushes ≤ l.pushes
  separates : ∀ o ∈ l.openings, o.Separates l.numbers
  nested : l.openings.Pairwise Opening.Within

theorem consistent_of_new (settings : Settings) : (of (.new settings)).Consistent where
  aligned := rfl
  numbered n hn := by cases hn
  openings := rfl
  pushes_le o ho := by cases ho
  separates o ho := by cases ho
  nested := .nil

variable {l : Ledger}

theorem Consistent.push (h : l.Consistent) (m : Message) :
    Consistent { l with
      store := { l.store with log := l.store.log.push m }
      numbers := l.numbers ++ [l.pushes]
      pushes := l.pushes + 1 } where
  aligned := by simp [h.aligned]
  numbered := by
    intro n hn
    rcases List.mem_append.1 hn with hn | hn
    · exact Nat.lt_succ_of_lt (h.numbered n hn)
    · exact List.mem_singleton.1 hn ▸ Nat.lt_succ_self _
  openings := h.openings
  pushes_le o ho := Nat.le_succ_of_le (h.pushes_le o ho)
  separates o ho := (h.separates o ho).append (h.pushes_le o ho)
  nested := h.nested

theorem Consistent.openCheckpoint (h : l.Consistent) (id : String) :
    Consistent { l with
      store := { l.store with
        checkpoints := l.store.checkpoints.push id l.store.log.length }
      openings := ⟨⟨id, l.store.log.length⟩, l.pushes, false⟩ :: l.openings } where
  aligned := h.aligned
  numbered := h.numbered
  openings := by simp [Checkpoints.push, h.openings]
  pushes_le := by
    intro o ho
    rcases List.mem_cons.1 ho with rfl | ho
    · exact Nat.le_refl _
    · exact h.pushes_le o ho
  separates := by
    intro o ho
    rcases List.mem_cons.1 ho with rfl | ho
    · exact Opening.separates_new id h.aligned.symm h.numbered
    · exact h.separates o ho
  nested := by
    refine List.pairwise_cons.2 ⟨fun o ho hfresh => ⟨rfl, ?_⟩, h.nested⟩
    rw [← h.aligned]
    exact (h.separates o ho).depth_le hfresh

theorem Consistent.opening_of_top (h : l.Consistent) {cp : Checkpoint} {outer : List Checkpoint}
    (htop : l.store.checkpoints.innermostFirst = cp :: outer) :
    ∃ o rest, l.openings = o :: rest ∧ o.checkpoint = cp ∧
      rest.map Opening.checkpoint = outer := by
  have hopen := h.openings
  rw [htop, List.map_eq_cons_iff] at hopen
  obtain ⟨o, rest, hl, hcp, hrest⟩ := hopen
  exact ⟨o, rest, hl, hcp, hrest⟩

/-- The checkpoints that stay open keep their messages when the innermost one is closed. -/
theorem Consistent.close (h : l.Consistent) (how : Closing) {cp : Checkpoint}
    {outer : List Checkpoint} (htop : l.store.checkpoints.innermostFirst = cp :: outer) :
    Consistent { l with
      store := (l.store.closeTop how cp outer).2
      numbers := l.numbers.take (l.store.closeTop how cp outer).2.log.length
      openings := l.openings.tail } := by
  obtain ⟨o, rest, hopenings, rfl, hrest⟩ := h.opening_of_top htop
  obtain ⟨d, hd, hlog⟩ := Store.exists_log_closeTop_eq_cut how o.checkpoint outer l.store
  have hwithin := List.pairwise_cons.1 (hopenings ▸ h.nested)
  have hmem : ∀ q ∈ rest, q ∈ l.openings := fun q hq => hopenings ▸ List.mem_cons_of_mem o hq
  rw [hlog, Log.length_cut]
  constructor
  · rw [hlog, List.length_take, h.aligned, Log.length_cut]
    omega
  · exact fun n hn => h.numbered n (List.mem_of_mem_take hn)
  · rw [hopenings, Store.innermostFirst_closeTop]
    exact hrest
  · rw [hopenings]
    exact fun q hq => h.pushes_le q (hmem q hq)
  · intro q hq
    rw [hopenings] at hq
    refine (h.separates q (hmem q hq)).take fun hfresh => ?_
    have hle := (h.separates q (hmem q hq)).depth_le hfresh
    have hdepth := (hwithin.1 q hq hfresh).2
    rw [h.aligned] at hle
    omega
  · rw [hopenings]
    exact hwithin.2

theorem Consistent.empty (h : l.Consistent) :
    Consistent { l with
      store := { l.store with log := l.store.log.cut 0 }
      numbers := l.numbers.take (l.store.log.cut 0).length
      openings := l.openings.map fun o => { o with emptied := true } } := by
  have hnone : l.numbers.take (l.store.log.cut 0).length = [] := by simp
  constructor
  · simp
  · simp
  · simpa [Function.comp_def] using h.openings
  · intro o ho
    obtain ⟨q, hq, rfl⟩ := List.mem_map.1 ho
    exact h.pushes_le q hq
  · intro o ho
    obtain ⟨q, hq, rfl⟩ := List.mem_map.1 ho
    rw [hnone]
    exact Opening.separates_nil q
  · refine List.pairwise_map.2 (h.nested.imp fun {a b} _ hfresh => ?_)
    cases hfresh

theorem Consistent.passive (h : l.Consistent) {s : Store} (hlog : s.log = l.store.log)
    (hopen : s.checkpoints = l.store.checkpoints) : Consistent { l with store := s } where
  aligned := by rw [hlog]; exact h.aligned
  numbered := h.numbered
  openings := by rw [hopen]; exact h.openings
  pushes_le := h.pushes_le
  separates := h.separates
  nested := h.nested

theorem Consistent.enter {op : Operation} {after : Store} (h : (l.follow op after).Consistent)
    (answer : Answer) : (l.enter op answer after).Consistent :=
  ⟨h.aligned, h.numbered, h.openings, h.pushes_le, h.separates, h.nested⟩

/-- Every operation keeps a ledger consistent. -/
theorem Consistent.step (h : l.Consistent) {op : Operation} {after : Store}
    (hstep : l.store.Step op after) : (l.follow op after).Consistent := by
  cases hstep with
  | push hop =>
    rw [follow_of_pushed hop]
    exact h.push _
  | openCheckpoint id => exact h.openCheckpoint id
  | close how cp outer htop => exact h.close how htop
  | empty hop =>
    rw [follow_of_empties hop]
    exact h.empty
  | passive hop hlog hopen =>
    rw [follow_of_isPassive hop]
    exact h.passive hlog hopen

/-- Every record of a run from the empty store was made by a ledger that was consistent. -/
theorem exists_record_eq {α : Type} (settings : Settings) (p : Program α) (place : List Nat)
    (n : Nat) {l : Ledger} (hl : l ∈ (p.run perform place n (of (.new settings))).states)
    {r : Record} (hr : r ∈ l.records) :
    ∃ (k : Ledger) (op : Operation) (answer : Answer) (after : Store),
      k.Consistent ∧ k.store.Step op after ∧ r = k.record op answer after := by
  have hrun : (p.run perform place n (of (.new settings))).Throughout fun l =>
      l.Consistent ∧ ∀ r ∈ l.records, ∃ (k : Ledger) (op : Operation) (answer : Answer)
        (after : Store), k.Consistent ∧ k.store.Step op after ∧ r = k.record op answer after := by
    refine p.throughout_run ?_ ⟨consistent_of_new settings, fun r hr => by cases hr⟩
    intro op l answer l' hl hperform
    obtain ⟨hstep, henter⟩ := step_of_perform_ledger hperform
    rw [henter]
    refine ⟨(hl.1.step hstep).enter answer, fun r hr => ?_⟩
    rcases List.mem_append.1 hr with hr | hr
    · exact hl.2 r hr
    · exact ⟨l, op, answer, l'.store, hl.1, hstep, List.mem_singleton.1 hr⟩
  exact (hrun.1 l hl).2 r hr

end Ledger

end DiagnosticLog
