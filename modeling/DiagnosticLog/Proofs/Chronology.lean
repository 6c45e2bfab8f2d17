import DiagnosticLog.Proofs.PlainView
import DiagnosticLog.Proofs.RollBack
import Mathlib.Data.List.Nodup

/-!
Where the messages go. The pushes of a run are numbered in their order, and every push is in exactly
one place: it is stored still, or one operation has taken it off (`run_chronicled`). What is stored
and what an operation takes off is in the order of the pushes, and so is every list that an
operation hands over. What a drain hands over is written out here for each form
(`Record.handedOver`). What a run pushes is told by its records alone, so the numbers that the
ledger keeps beside the messages are checked against it.
-/

namespace DiagnosticLog

/-- The numbered messages are in the order of their pushes. -/
def InOrder (list : List (Nat × Message)) : Prop := list.Pairwise fun x y => x.1 < y.1

/-- The messages that the operation stored. -/
def Record.pushed (r : Record) : List (Nat × Message) := r.after.drop r.before.length

/-- Whether the operation may take messages off. -/
def Operation.removes : Operation → Bool
  | drain _ | clear => true
  | close how _ => how != .commit
  | _ => false

/-- What a drain in this form has to hand over, told by the messages that it took off. -/
def Record.handedOver (r : Record) : DrainForm → Answer
  | .messages => .messages (r.removed.map Prod.snd)
  | .rows => .rows ((r.removed.map Prod.snd).map Row.ofMessage)
  | .document =>
    .text ("[\n" ++
      ",\n".intercalate ((r.removed.map Prod.snd).map fun m => Document.item (Row.ofMessage m)) ++
      "\n]\n")
  | .allTexts => .text ("\n".intercalate ((r.removed.map Prod.snd).map Message.fullText))
  | .errorTexts =>
    .text ("\n".intercalate
      (((r.removed.map Prod.snd).filter fun m => m.severity = .error).map Message.fullText))

/-- What the record of an operation shows. -/
structure Record.Sound (r : Record) : Prop where
  /-- An operation that reports a message stores that message, and no other stores any. -/
  pushed : ∃ f, r.pushed.map Prod.snd = (r.operation.pushed? f).toList
  /-- What was there and what has come is what stays and what has gone. -/
  moved : r.before ++ r.pushed = r.after ++ r.removed
  inOrder : InOrder r.before ∧ InOrder r.removed
  /-- Only draining, clearing and rolling back take messages off. -/
  removes : r.removed ≠ [] → r.operation.removes = true
  /-- A drain hands over what it takes off, which is all there is. -/
  drained : ∀ form, r.operation = .drain form →
    r.removed = r.before ∧ r.answer = r.handedOver form
  /-- A rollback that prints hands over the texts of what it takes off. -/
  printed : ∀ id, r.operation = .close .rollBackPrinting id →
    r.answer = .text ("\n".intercalate ((r.removed.map Prod.snd).map Message.fullText))
  peeked : r.operation = .peek → r.answer = .messages (r.before.map Prod.snd)

theorem Record.effect_of_append {r : Record} {x : Nat × Message} (h : r.after = r.before ++ [x]) :
    r.pushed = [x] ∧ r.removed = [] := by
  simp [pushed, removed, h]

theorem Record.effect_of_take {r : Record} {d : Nat} (h : r.after = r.before.take d) :
    r.pushed = [] ∧ r.removed = r.before.drop d := by
  have hlength : r.after.length ≤ r.before.length := by
    rw [h]
    exact List.length_take_le' d r.before
  constructor
  · rw [pushed, List.drop_eq_nil_of_le hlength]
  · rw [removed, h, List.length_take]
    rcases Nat.le_total d r.before.length with hle | hle
    · rw [Nat.min_eq_left hle]
    · rw [Nat.min_eq_right hle, List.drop_length, List.drop_eq_nil_of_le hle]

theorem Record.handedOver_eq (r : Record) (form : DrainForm) :
    r.handedOver form = form.present (r.removed.map Prod.snd) := by
  rw [form.present_eq_handOver]
  cases form <;> rfl

/-- Where a push can be: in the store, or among what the operation of a record took off. -/
inductive Whereabouts
  | stored
  | takenOff (record : Nat)

namespace Ledger

/-- All that was pushed, numbered in the order of the pushes. -/
def pushed (l : Ledger) : List (Nat × Message) := l.records.flatMap Record.pushed

def removed (l : Ledger) : List (Nat × Message) := l.records.flatMap Record.removed

def Holds (l : Ledger) (x : Nat × Message) : Whereabouts → Prop
  | .stored => x ∈ l.stored
  | .takenOff k => ∃ r, l.records[k]? = some r ∧ x ∈ r.removed

structure Chronicled (l : Ledger) : Prop where
  numbered : l.pushed.map Prod.fst = List.range l.pushes
  /-- Every push is in exactly one place. -/
  inOnePlace : ∀ x ∈ l.pushed, ∃! w, l.Holds x w
  /-- Nothing else is anywhere. -/
  pushed_of_holds : ∀ x w, l.Holds x w → x ∈ l.pushed
  stored : InOrder l.stored ∧ l.stored.map Prod.snd = l.store.log.messages
  records : ∀ r ∈ l.records, r.Sound

/-- What the operations have taken off and what is stored are together all that was pushed, with
nothing twice. -/
structure Balanced (l : Ledger) : Prop where
  numbered : l.pushed.map Prod.fst = List.range l.pushes
  perm : (l.removed ++ l.stored).Perm l.pushed
  inOrder : InOrder l.stored
  records : ∀ r ∈ l.records, r.Sound

variable {l : Ledger}

/-- What an operation does to the numbered messages: it puts one behind them, under the next number,
or it keeps the oldest of them, and all of them unless it is one that removes. -/
inductive Moves (l : Ledger) (op : Operation) (after : Ledger) : Prop
  | push (m : Message) (hop : op.pushed? l.store.focus = some m)
      (hstored : after.stored = l.stored ++ [(l.pushes, m)]) (hpushes : after.pushes = l.pushes + 1)
  | keep (d : Nat) (hop : op.pushed? l.store.focus = none)
      (hstored : after.stored = l.stored.take d) (hpushes : after.pushes = l.pushes)
      (hkeeps : op.removes = false → l.stored.length ≤ d)
      (hempties : op.empties = true → d = 0)

theorem moves_of_stored_eq {op : Operation} {after : Ledger}
    (hop : op.pushed? l.store.focus = none) (hstored : after.stored = l.stored)
    (hpushes : after.pushes = l.pushes) (hempties : op.empties = false) : l.Moves op after := by
  refine .keep l.stored.length hop (hstored.trans List.take_length.symm) hpushes
    (fun _ => Nat.le_refl _) fun h => ?_
  rw [h] at hempties
  cases hempties

theorem Consistent.moves (h : l.Consistent) {op : Operation} {after : Store}
    (hstep : l.store.Step op after) : l.Moves op (l.follow op after) := by
  cases hstep with
  | @push _ m hop =>
    have hlength : l.numbers.length = l.store.log.messages.length := by
      rw [h.aligned, Log.length_messages]
    refine .push m hop ?_ ?_
    · rw [follow_of_pushed hop]
      simp [stored, List.zip_append hlength]
    · rw [follow_of_pushed hop]
  | openCheckpoint id => exact moves_of_stored_eq rfl rfl rfl rfl
  | close how cp outer htop =>
    by_cases hhow : how = .commit
    · subst hhow
      exact moves_of_stored_eq rfl (h.stored_commit cp outer) rfl rfl
    · refine .keep cp.depth rfl (h.stored_rollBack hhow cp outer) rfl (fun hremoves => ?_) ?_
      · simp [Operation.removes, hhow] at hremoves
      · exact fun hempties => by cases hempties
  | empty hempties =>
    have hop : op.pushed? l.store.focus = none ∧ op.removes = true := by
      cases op with
      | drain form | clear => exact ⟨rfl, rfl⟩
      | _ => cases hempties
    refine .keep 0 hop.1 ?_ ?_ (fun hremoves => ?_) fun _ => rfl
    · rw [follow_of_empties hempties]
      simp [stored]
    · rw [follow_of_empties hempties]
    · rw [hop.2] at hremoves
      cases hremoves
  | passive hpassive hlog hopen =>
    have hop : op.pushed? l.store.focus = none ∧ op.empties = false := by
      cases op with
      | focusOn _ _ | currentFocus | setEcho _ | isInnermost _ | peek | changeEnvironment _
      | reenter => exact ⟨rfl, rfl⟩
      | _ => cases hpassive
    refine moves_of_stored_eq hop.1 ?_ ?_ hop.2
    · rw [follow_of_isPassive hpassive]
      simp [stored, hlog]
    · rw [follow_of_isPassive hpassive]

theorem store_follow (op : Operation) (after : Store) (l : Ledger) :
    (l.follow op after).store = after := by
  cases op <;> rfl

/-- An operation of a ledger is performed by its store. -/
theorem perform_store {op : Operation} {a : Answer} {l' : Ledger}
    (h : (l.perform op).result = .ok (a, l')) :
    (l.store.perform op).result = .ok (a, l'.store) := by
  rw [← view_perform_ledger, Effect.view, h]
  rfl

theorem answer_of_drain {s t : Store} {form : DrainForm} {a : Answer}
    (h : (s.perform (.drain form)).result = .ok (a, t)) : a = form.present s.log.messages := by
  rw [Store.perform, Store.emptyLog_eq] at h
  exact (Prod.mk.inj (Except.ok.inj h)).1.symm

theorem answer_of_print {s t : Store} {id : String} {a : Answer}
    (h : (s.perform (.close .rollBackPrinting id)).result = .ok (a, t)) :
    a = .text ("\n".intercalate ((s.log.messages.drop t.log.length).map Message.fullText)) := by
  obtain ⟨cp, outer, -, -, hr⟩ := Store.top_of_close h
  obtain ⟨rfl, rfl⟩ := Prod.mk.inj hr
  have habove : s.log.messages.drop (s.log.cut cp.depth).length = s.log.above cp.depth := by
    rcases Nat.le_total cp.depth s.log.length with hle | hle
    · rw [Log.length_cut, Nat.min_eq_left hle, Log.above]
    · rw [Log.length_cut, Nat.min_eq_right hle, Log.above, ← Log.length_messages,
        List.drop_length, List.drop_eq_nil_of_le (by simpa using hle)]
  exact congrArg (fun list => Answer.text (Store.fullTexts list)) habove.symm

theorem answer_of_peek {s t : Store} {a : Answer}
    (h : (s.perform .peek).result = .ok (a, t)) : a = .messages s.log.messages :=
  (Prod.mk.inj (Except.ok.inj h)).1.symm

theorem Consistent.length_stored (h : l.Consistent) : l.stored.length = l.store.log.length := by
  rw [← Log.length_messages, ← map_snd_stored h.aligned, List.length_map]

/-- What an operation takes off are the newest messages, those above the length that it leaves. -/
theorem Consistent.map_snd_removed (h : l.Consistent) {op : Operation} {after : Store}
    (hstep : l.store.Step op after) (a : Answer) :
    (l.record op a after).removed.map Prod.snd = l.store.log.messages.drop after.log.length := by
  have hlength : (l.record op a after).after.length = after.log.length :=
    (h.step hstep).length_stored.trans (by rw [store_follow])
  rw [Record.removed, hlength, List.map_drop, ← map_snd_stored h.aligned]
  rfl

/-- A record tells the truth about the operation. -/
theorem Consistent.sound_record (h : l.Consistent) (hstored : InOrder l.stored)
    {op : Operation} {a : Answer} {l' : Ledger} (hperform : (l.perform op).result = .ok (a, l')) :
    (l.record op a l'.store).Sound := by
  have hstep := (step_of_perform_ledger hperform).1
  have hanswer := perform_store hperform
  have hprinted : ∀ id, op = .close .rollBackPrinting id →
      a = .text ("\n".intercalate
        (((l.record op a l'.store).removed.map Prod.snd).map Message.fullText)) := by
    rintro id rfl
    rw [h.map_snd_removed hstep]
    exact answer_of_print hanswer
  have hpeeked : op = .peek → a = .messages (l.stored.map Prod.snd) := by
    rintro rfl
    rw [map_snd_stored h.aligned]
    exact answer_of_peek hanswer
  cases h.moves hstep with
  | push m hop hafter hpushes =>
    obtain ⟨hone, hnone⟩ := Record.effect_of_append (r := l.record op a l'.store) hafter
    constructor
    case pushed => exact ⟨l.store.focus, by rw [hone]; simp [record, hop]⟩
    case moved =>
      rw [hone, hnone, List.append_nil]
      exact hafter.symm
    case inOrder => exact ⟨hstored, by rw [hnone]; exact .nil⟩
    case removes => exact fun hne => absurd hnone hne
    case drained =>
      intro form hform
      obtain rfl : op = .drain form := hform
      cases hop
    case printed => exact hprinted
    case peeked => exact hpeeked
  | keep d hop hafter hpushes hkeeps hempties =>
    obtain ⟨hnone, hrest⟩ := Record.effect_of_take (r := l.record op a l'.store) hafter
    constructor
    case pushed => exact ⟨l.store.focus, by rw [hnone]; simp [record, hop]⟩
    case moved =>
      rw [hnone, hrest, List.append_nil]
      exact (List.take_append_drop d l.stored).symm.trans (congrArg (· ++ _) hafter.symm)
    case inOrder => exact ⟨hstored, by rw [hrest]; exact hstored.drop⟩
    case removes =>
      intro hne
      by_contra hremoves
      rw [Bool.not_eq_true] at hremoves
      exact hne (hrest.trans (List.drop_eq_nil_of_le (hkeeps hremoves)))
    case drained =>
      intro form hform
      obtain rfl : op = .drain form := hform
      obtain rfl : d = 0 := hempties rfl
      have hall : (l.record (.drain form) a l'.store).removed = l.stored := hrest
      refine ⟨hall, ?_⟩
      rw [Record.handedOver_eq, hall, map_snd_stored h.aligned]
      exact answer_of_drain hanswer
    case printed => exact hprinted
    case peeked => exact hpeeked

theorem balanced_of_new (settings : Settings) : (of (.new settings)).Balanced where
  numbered := rfl
  perm := .nil
  inOrder := .nil
  records r hr := by cases hr

theorem Consistent.lt_pushes (h : l.Consistent) {x : Nat × Message} (hx : x ∈ l.stored) :
    x.1 < l.pushes := by
  refine h.numbered x.1 ?_
  rw [← map_fst_stored h.aligned]
  exact List.mem_map_of_mem hx

theorem pushed_enter (op : Operation) (a : Answer) (after : Store) :
    (l.enter op a after).pushed = l.pushed ++ (l.record op a after).pushed := by
  simp [pushed, Ledger.enter]

theorem removed_enter (op : Operation) (a : Answer) (after : Store) :
    (l.enter op a after).removed = l.removed ++ (l.record op a after).removed := by
  simp [removed, Ledger.enter]

/-- Entering an operation keeps a ledger balanced. -/
theorem Balanced.enter (hbalanced : l.Balanced) (h : l.Consistent) {op : Operation} {a : Answer}
    {after : Store} (hstep : l.store.Step op after) (hsound : (l.record op a after).Sound) :
    (l.enter op a after).Balanced := by
  have hrecords : ∀ r ∈ (l.enter op a after).records, r.Sound := by
    intro r hr
    rcases List.mem_append.1 hr with hr | hr
    · exact hbalanced.records r hr
    · exact List.mem_singleton.1 hr ▸ hsound
  have hafter : (l.enter op a after).stored = (l.follow op after).stored := rfl
  have hcount : (l.enter op a after).pushes = (l.follow op after).pushes := rfl
  cases h.moves hstep with
  | push m hop hstored hpushes =>
    obtain ⟨hone, hnone⟩ := Record.effect_of_append (r := l.record op a after) hstored
    constructor
    case numbered =>
      rw [pushed_enter, hone, List.map_append, hbalanced.numbered, hcount, hpushes,
        List.range_succ]
      rfl
    case perm =>
      rw [removed_enter, hnone, pushed_enter, hone, hafter, hstored, List.append_nil,
        ← List.append_assoc]
      exact hbalanced.perm.append_right _
    case inOrder =>
      rw [hafter, hstored]
      refine List.pairwise_append.2 ⟨hbalanced.inOrder, List.pairwise_singleton _ _, ?_⟩
      intro x hx y hy
      rw [List.mem_singleton.1 hy]
      exact h.lt_pushes hx
    case records => exact hrecords
  | keep d hop hstored hpushes hkeeps hempties =>
    obtain ⟨hnone, hrest⟩ := Record.effect_of_take (r := l.record op a after) hstored
    constructor
    case numbered =>
      rw [pushed_enter, hnone, List.append_nil, hbalanced.numbered, hcount, hpushes]
    case perm =>
      have hsplit : (l.stored.drop d ++ l.stored.take d).Perm l.stored :=
        List.perm_append_comm.trans (.of_eq (List.take_append_drop d l.stored))
      rw [removed_enter, hrest, pushed_enter, hnone, hafter, hstored, List.append_nil,
        List.append_assoc]
      exact (hsplit.append_left l.removed).trans hbalanced.perm
    case inOrder =>
      rw [hafter, hstored]
      exact hbalanced.inOrder.take
    case records => exact hrecords

/-- What was taken off by different operations, and what is stored, are different pushes. -/
theorem Balanced.nodup (h : l.Balanced) : (l.removed ++ l.stored).Nodup := by
  have hnumbers : (l.pushed.map Prod.fst).Nodup := h.numbered ▸ List.nodup_range
  exact h.perm.nodup_iff.2 (.of_map _ hnumbers)

theorem mem_removed {x : Nat × Message} :
    x ∈ l.removed ↔ ∃ k, l.Holds x (.takenOff k) := by
  rw [removed, List.mem_flatMap]
  constructor
  · rintro ⟨r, hr, hx⟩
    obtain ⟨k, hk⟩ := List.mem_iff_getElem?.1 hr
    exact ⟨k, r, hk, hx⟩
  · rintro ⟨k, r, hk, hx⟩
    exact ⟨r, List.mem_of_getElem? hk, hx⟩

theorem Balanced.mem_pushed_iff (h : l.Balanced) {x : Nat × Message} :
    x ∈ l.pushed ↔ ∃ w, l.Holds x w := by
  rw [← h.perm.mem_iff, List.mem_append, mem_removed]
  constructor
  · rintro (⟨k, hk⟩ | hx)
    · exact ⟨.takenOff k, hk⟩
    · exact ⟨.stored, hx⟩
  · rintro ⟨w, hw⟩
    cases w with
    | stored => exact .inr hw
    | takenOff k => exact .inl ⟨k, hw⟩

theorem Balanced.eq_of_takenOff (h : l.Balanced) {x : Nat × Message} {j k : Nat}
    (hj : l.Holds x (.takenOff j)) (hk : l.Holds x (.takenOff k)) : j = k := by
  have hapart : ∀ {j k : Nat}, j < k → l.Holds x (.takenOff j) → ¬ l.Holds x (.takenOff k) := by
    rintro j k hlt ⟨r, hr, hxr⟩ ⟨r', hr', hxr'⟩
    have hpairwise := (List.nodup_flatMap.1 h.nodup.of_append_left).2
    obtain ⟨hjlt, rfl⟩ := List.getElem?_eq_some_iff.1 hr
    obtain ⟨hklt, rfl⟩ := List.getElem?_eq_some_iff.1 hr'
    exact List.pairwise_iff_getElem.1 hpairwise j k hjlt hklt hlt hxr hxr'
  rcases Nat.lt_trichotomy j k with hlt | heq | hlt
  · exact absurd hk (hapart hlt hj)
  · exact heq
  · exact absurd hj (hapart hlt hk)

theorem Balanced.not_stored_of_takenOff (h : l.Balanced) {x : Nat × Message} {k : Nat}
    (hk : l.Holds x (.takenOff k)) : ¬ l.Holds x .stored := fun hstored =>
  List.disjoint_of_nodup_append h.nodup (mem_removed.2 ⟨k, hk⟩) hstored

/-- No push is in two places. -/
theorem Balanced.eq_of_holds (h : l.Balanced) {x : Nat × Message} {v w : Whereabouts}
    (hv : l.Holds x v) (hw : l.Holds x w) : v = w := by
  cases v with
  | stored =>
    cases w with
    | stored => rfl
    | takenOff k => exact absurd hv (h.not_stored_of_takenOff hw)
  | takenOff j =>
    cases w with
    | stored => exact absurd hw (h.not_stored_of_takenOff hv)
    | takenOff k => rw [h.eq_of_takenOff hv hw]

theorem Balanced.chronicled (h : l.Balanced) (hconsistent : l.Consistent) : l.Chronicled where
  numbered := h.numbered
  inOnePlace x hx := by
    obtain ⟨w, hw⟩ := h.mem_pushed_iff.1 hx
    exact ⟨w, hw, fun v hv => h.eq_of_holds hv hw⟩
  pushed_of_holds x w hw := h.mem_pushed_iff.2 ⟨w, hw⟩
  stored := ⟨h.inOrder, map_snd_stored hconsistent.aligned⟩
  records := h.records

/-- At every point of every run: each push is in exactly one place, and all that is stored or handed
over is in the order of the pushes. -/
theorem run_chronicled {α : Type} (settings : Settings) (p : Program α) (place : List Nat)
    (n : Nat) : (p.run perform place n (of (.new settings))).Throughout Chronicled := by
  have hrun : (p.run perform place n (of (.new settings))).Throughout fun l =>
      l.Consistent ∧ l.Balanced := by
    refine p.throughout_run ?_ ⟨consistent_of_new settings, balanced_of_new settings⟩
    intro op l a l' hl hperform
    obtain ⟨hstep, henter⟩ := step_of_perform_ledger hperform
    have hsound := hl.1.sound_record hl.2.inOrder hperform
    rw [henter]
    exact ⟨(hl.1.step hstep).enter a, hl.2.enter hl.1 hstep hsound⟩
  exact ⟨fun l hl => (hrun.1 l hl).2.chronicled (hrun.1 l hl).1,
    fun l hl => (hrun.2 l hl).2.chronicled (hrun.2 l hl).1⟩

end Ledger

end DiagnosticLog
