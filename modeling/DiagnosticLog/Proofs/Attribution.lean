import DiagnosticLog.Dump
import Mathlib.Data.Nat.PSub

/-!
Which messages the report on a violation lists, and where. A message is listed on one line at most:
that of the innermost checkpoint that it lies above. The report comes to this without looking at a
message twice. It goes from the innermost checkpoint outwards and gives to each what lies between
its depth and the lowest depth so far, so the lines tile the log from the top down to the lowest
depth (`getElem?_entriesBelow`). The depths need not be in any order, and may exceed the number of
messages.
-/

namespace DiagnosticLog

namespace Dump

/-- The line on which the message at a position is listed, counted from the innermost checkpoint. -/
def lineOf? (cps : List Checkpoint) (p : Nat) : Option Nat := cps.findIdx? fun cp => cp.depth ≤ p

/-- The messages at the positions of a kind, in their order. -/
def messagesAt (ms : List Message) (P : Nat → Bool) : List Message :=
  (ms.zipIdx.filter fun x => P x.2).map Prod.fst

theorem lineOf?_eq_some_iff {cps : List Checkpoint} {p i : Nat} :
    lineOf? cps p = some i ↔
      ∃ h : i < cps.length, cps[i].depth ≤ p ∧ ∀ j (hj : j < i), p < cps[j].depth := by
  simp [lineOf?, List.findIdx?_eq_some_iff_getElem]

theorem lineOf?_eq_none_iff {cps : List Checkpoint} {p : Nat} :
    lineOf? cps p = none ↔ ∀ cp ∈ cps, p < cp.depth := by
  simp [lineOf?, List.findIdx?_eq_none_iff]

theorem lineOf?_cons_zero {cp : Checkpoint} {outer : List Checkpoint} {p : Nat} :
    lineOf? (cp :: outer) p = some 0 ↔ cp.depth ≤ p := by
  by_cases h : cp.depth ≤ p <;> simp [lineOf?, List.findIdx?_cons, h]

theorem lineOf?_cons_succ {cp : Checkpoint} {outer : List Checkpoint} {p i : Nat} :
    lineOf? (cp :: outer) p = some (i + 1) ↔ p < cp.depth ∧ lineOf? outer p = some i := by
  by_cases h : cp.depth ≤ p
  · simp [lineOf?, List.findIdx?_cons, h, Nat.not_lt.2 h]
  · simp [lineOf?, List.findIdx?_cons, h, Nat.lt_of_not_le h]

theorem messagesAt_congr {ms : List Message} {P Q : Nat → Bool}
    (h : ∀ p < ms.length, P p = Q p) : messagesAt ms P = messagesAt ms Q := by
  refine congrArg (List.map Prod.fst) (List.filter_congr ?_)
  intro x hx
  exact h x.2 (List.snd_lt_of_mem_zipIdx hx)

theorem messagesAt_cons (m : Message) (ms : List Message) (P : Nat → Bool) :
    messagesAt (m :: ms) P =
      (if P 0 then [m] else []) ++ messagesAt ms fun p => P (p + 1) := by
  have hshift : ms.zipIdx 1 = ms.zipIdx.map fun x => (x.1, x.2 + 1) := by
    rw [List.zipIdx_succ]
  cases hP : P 0 <;>
    simp [messagesAt, List.zipIdx_cons, hshift, List.filter_map, Function.comp_def, hP]

/-- The messages from one position up to another are a slice of the log. -/
theorem take_drop_eq_messagesAt (ms : List Message) {low high : Nat} (hle : low ≤ high) :
    (ms.drop low).take (high - low) = messagesAt ms fun p => low ≤ p ∧ p < high := by
  induction ms generalizing low high with
  | nil => simp [messagesAt]
  | cons m ms ih =>
    rw [messagesAt_cons]
    cases low with
    | zero =>
      cases high with
      | zero => simp [messagesAt]
      | succ high => simpa using ih (Nat.zero_le high)
    | succ low =>
      obtain ⟨high, rfl⟩ : ∃ k, high = k + 1 := ⟨high - 1, by omega⟩
      have hle' : low ≤ high := by omega
      simpa using ih hle'

/-- Of the checkpoints that are left and the messages that are left to cover, each checkpoint gets
the messages for which it is the innermost one. -/
theorem getElem?_entriesBelow (ms : List Message) (covered : Nat) (cps : List Checkpoint)
    (i : Nat) :
    (entriesBelow ms covered cps)[i]? = cps[i]?.map fun cp =>
      ⟨cps.length - 1 - i, cp, (messagesAt ms fun p => p < covered ∧ lineOf? cps p = some i).map
        Message.shortText⟩ := by
  induction cps generalizing covered i with
  | nil => rfl
  | cons cp outer ih =>
    have hdepth : min cp.depth covered ≤ covered := Nat.min_le_right _ _
    cases i with
    | zero =>
      have hlisted : (messagesAt ms fun p => min cp.depth covered ≤ p ∧ p < covered) =
          messagesAt ms fun p => p < covered ∧ lineOf? (cp :: outer) p = some 0 := by
        refine messagesAt_congr fun p _ => decide_eq_decide.2 ?_
        rw [lineOf?_cons_zero]
        omega
      simp only [entriesBelow, take_drop_eq_messagesAt ms hdepth, hlisted]
      rfl
    | succ i =>
      have hlisted : (messagesAt ms fun p => p < min cp.depth covered ∧ lineOf? outer p = some i) =
          messagesAt ms fun p => p < covered ∧ lineOf? (cp :: outer) p = some (i + 1) := by
        refine messagesAt_congr fun p _ => decide_eq_decide.2 ?_
        rw [lineOf?_cons_succ, Nat.lt_min, and_comm (a := p < cp.depth), and_assoc]
      have hposition : outer.length - 1 - i = (cp :: outer).length - 1 - (i + 1) := by
        simp only [List.length_cons]
        omega
      simp only [entriesBelow, List.getElem?_cons_succ, ih, hlisted, hposition]

/-- The entries, where a subtraction fails if it would go below zero. -/
def checkedEntriesBelow (ms : List Message) : Nat → List Checkpoint → Option (List DumpEntry)
  | _, [] => some []
  | covered, cp :: outer => do
    let depth := min cp.depth covered
    let count ← covered.psub depth
    let entries ← checkedEntriesBelow ms depth outer
    return ⟨outer.length, cp, ((ms.drop depth).take count).map Message.shortText⟩ :: entries

/-- No subtraction goes below zero. -/
theorem checkedEntriesBelow_eq (ms : List Message) (covered : Nat) (cps : List Checkpoint) :
    checkedEntriesBelow ms covered cps = some (entriesBelow ms covered cps) := by
  induction cps generalizing covered with
  | nil => rfl
  | cons cp outer ih =>
    have hdepth : min cp.depth covered ≤ covered := Nat.min_le_right _ _
    simp [checkedEntriesBelow, entriesBelow, Nat.psub_eq_sub hdepth, ih]

theorem positionText_eq (n : Nat) :
    positionText n = String.ofList (List.replicate (5 - n.repr.length) ' ') ++ n.repr := by
  have hlength : n.repr.toList.length = n.repr.length := String.length_toList
  rw [positionText, List.leftpad, String.ofList_append, String.ofList_toList, hlength]

/-- The report has two lines of heading and one line for each checkpoint, innermost first. The line
tells the place in the stack, the name and the depth as it was recorded, and lists the messages for
which this is the innermost checkpoint that they lie above; a message that lies above none is listed
nowhere. What is left to cover never falls below the depth that is subtracted from it. -/
theorem lines_list_by_innermost (v : Violation) (cps : List Checkpoint) (ms : List Message) :
    lines v cps ms = ("protocol violation: " ++ v.message) :: "Current Stack:" ::
      (List.ofFn fun i : Fin cps.length =>
        let place := (cps.length - 1 - i).repr
        String.ofList (List.replicate (5 - place.length) ' ') ++ place ++ " " ++ cps[i].id ++
          " (depth " ++ cps[i].depth.repr ++ ")   message: " ++
          " ".intercalate ((messagesAt ms fun p => lineOf? cps p = some i.val).map
            Message.shortText)) ∧
    (∀ p i, lineOf? cps p = some i ↔
      ∃ h : i < cps.length, cps[i].depth ≤ p ∧ ∀ j (hj : j < i), p < cps[j].depth) ∧
    (∀ p, lineOf? cps p = none ↔ ∀ cp ∈ cps, p < cp.depth) ∧
    checkedEntriesBelow ms ms.length cps = some (entries cps ms) := by
  refine ⟨?_, fun p i => lineOf?_eq_some_iff, fun p => lineOf?_eq_none_iff,
    checkedEntriesBelow_eq ms ms.length cps⟩
  refine congrArg (fun rows => _ :: _ :: rows) (List.ext_getElem? fun i => ?_)
  rw [List.getElem?_map, entries, getElem?_entriesBelow]
  by_cases hi : i < cps.length
  · -- At the start all messages are left to cover, which is no condition on a position.
    have hlisted : (messagesAt ms fun p => p < ms.length ∧ lineOf? cps p = some i) =
        messagesAt ms fun p => lineOf? cps p = some i := by
      refine messagesAt_congr fun p hp => decide_eq_decide.2 ?_
      simp only [hp, true_and]
    simp only [hlisted, List.getElem?_eq_getElem hi, Option.map_some, entryLine, positionText_eq]
    simp [hi]
  · simp [hi]

/-- The depth of the checkpoint in the middle has become stale and exceeds the number of messages. -/
example : lines .emptyLog [⟨"c", 2⟩, ⟨"b", 9⟩, ⟨"a", 1⟩]
      [⟨0, .syntactic, .error, "k", [], none⟩, ⟨0, .syntactic, .error, "l", [], none⟩,
        ⟨0, .syntactic, .error, "m", [], none⟩] =
    ["protocol violation: pop called on empty diagnostic stack", "Current Stack:",
      "    2 c (depth 2)   message: m", "    1 b (depth 9)   message: ",
      "    0 a (depth 1)   message: l"] := by
  decide +kernel

end Dump

end DiagnosticLog
