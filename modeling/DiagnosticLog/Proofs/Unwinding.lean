import DiagnosticLog.Store

/-!
What unwinding comes to. A log is unwound group by group, and a group ends wherever the full text
changes or the floor is reached. Taken together the groups are one cut: every message above the
floor goes, and nothing else does. The cut carries the error count along, so no later proof looks
into a group again.
-/

namespace DiagnosticLog

attribute [ext] Log

namespace Log

/-- The messages above a depth in the order in which they come off, newest first. -/
def newestAbove (depth : Nat) (l : Log) : List Message := l.newestFirst.take (l.length - depth)

/-- The log without the messages above a depth. -/
def cut (depth : Nat) (l : Log) : Log :=
  ⟨l.newestFirst.drop (l.length - depth),
    l.errorCount - (l.newestAbove depth).countP Message.isError⟩

theorem reverse_newestAbove (depth : Nat) (l : Log) :
    (l.newestAbove depth).reverse = l.above depth := by
  simp [newestAbove, above, messages, length, List.drop_reverse]

theorem newestFirst_cut (depth : Nat) (l : Log) :
    (l.cut depth).newestFirst = l.newestFirst.drop (l.length - depth) := rfl

theorem errorCount_cut (depth : Nat) (l : Log) :
    (l.cut depth).errorCount = l.errorCount - (l.newestAbove depth).countP Message.isError := rfl

@[simp] theorem length_cut (depth : Nat) (l : Log) : (l.cut depth).length = min depth l.length := by
  have h : (l.cut depth).length = l.length - (l.length - depth) := by
    simp [length, cut]
  omega

@[simp] theorem messages_cut (depth : Nat) (l : Log) :
    (l.cut depth).messages = l.messages.take depth := by
  simp [messages, newestFirst_cut, List.take_reverse, length]

theorem newestAbove_of_length_le {depth : Nat} {l : Log} (h : l.length ≤ depth) :
    l.newestAbove depth = [] := by
  have hzero : l.length - depth = 0 := by omega
  simp [newestAbove, hzero]

theorem cut_of_length_le {depth : Nat} {l : Log} (h : l.length ≤ depth) : l.cut depth = l := by
  have hzero : l.length - depth = 0 := by omega
  simp [cut, newestAbove_of_length_le h, hzero]

/-- A group and what is above the floor of the log it leaves make up all that is above the floor
of the log it came from. -/
theorem newestAbove_append_cut {low high : Nat} (h : low ≤ high) (l : Log) :
    l.newestAbove high ++ (l.cut high).newestAbove low = l.newestAbove low := by
  have hsplit : l.length - low = (l.length - high) + (min high l.length - low) := by omega
  simp only [newestAbove, length_cut]
  rw [hsplit, List.take_add]
  rfl

/-- Of two cuts one after another the lower one decides. -/
theorem cut_cut {low high : Nat} (h : low ≤ high) (l : Log) :
    (l.cut high).cut low = l.cut low := by
  have hsplit : l.length - low = (l.length - high) + (min high l.length - low) := by omega
  have herrors := congrArg (List.countP Message.isError) (newestAbove_append_cut h l)
  rw [List.countP_append] at herrors
  have hmessages : ((l.cut high).cut low).newestFirst = (l.cut low).newestFirst := by
    rw [newestFirst_cut, newestFirst_cut, newestFirst_cut, length_cut, List.drop_drop, ← hsplit]
  have hcount : ((l.cut high).cut low).errorCount = (l.cut low).errorCount := by
    rw [errorCount_cut, errorCount_cut, errorCount_cut, Nat.sub_sub, herrors]
  exact Log.ext hmessages hcount

theorem counted_cut {l : Log} (h : l.Counted) (depth : Nat) : (l.cut depth).Counted := by
  have hsplit := congrArg (List.countP Message.isError)
    (List.take_append_drop (l.length - depth) l.newestFirst)
  rw [List.countP_append] at hsplit
  simp only [Counted, messages, List.countP_reverse] at h ⊢
  simp only [cut, newestAbove]
  omega

theorem errorCount_popRun (text : String) (floor : Nat) (ms : List Message) (errors : Nat) :
    (popRun text floor ms errors).2.errorCount =
      errors - (popRun text floor ms errors).1.countP Message.isError := by
  induction ms generalizing errors with
  | nil => rfl
  | cons m rest ih =>
    simp only [popRun]
    split
    · rw [ih, List.countP_cons, Nat.sub_sub, Nat.add_comm]
      rfl
    · rfl

theorem le_length_popRun {text : String} {floor : Nat} {ms : List Message} {errors : Nat}
    (h : floor ≤ ms.length) : floor ≤ (popRun text floor ms errors).2.length := by
  induction ms generalizing errors with
  | nil => exact h
  | cons m rest ih =>
    simp only [popRun]
    split
    · rename_i hrun
      exact ih (by omega)
    · exact h

/-- A group that is popped is a cut of the log. -/
theorem pop_eq_cut {floor : Option Nat} {l left : Log} {removed : List Message}
    (h : l.pop floor = some (removed, left)) :
    removed = l.newestAbove left.length ∧ left = l.cut left.length := by
  have hparts := (newestFirst_pop h).1
  have hlen : l.length - left.length = removed.length := by
    have := length_pop h
    omega
  have herrors : left.errorCount = l.errorCount - removed.countP Message.isError := by
    obtain ⟨m, rest, more, -, rfl, hrun⟩ := exists_popRun_of_pop h
    have hcount := errorCount_popRun m.fullText (floor.getD 0) rest (l.errorCount - weight m)
    rw [hrun, Nat.sub_sub, Nat.add_comm] at hcount
    rw [List.countP_cons]
    exact hcount
  have htake : l.newestFirst.take removed.length = removed := by simp [hparts]
  have hdrop : l.newestFirst.drop removed.length = left.newestFirst := by simp [hparts]
  constructor
  · rw [newestAbove, hlen, htake]
  · rw [cut, newestAbove, hlen, htake, hdrop, ← herrors]

theorem le_length_of_pop {floor : Option Nat} {l left : Log} {removed : List Message}
    (h : l.pop floor = some (removed, left)) (hfloor : floor.getD 0 < l.length) :
    floor.getD 0 ≤ left.length := by
  obtain ⟨m, rest, more, hnewest, -, hrun⟩ := exists_popRun_of_pop h
  rw [length, hnewest, List.length_cons] at hfloor
  have hle : floor.getD 0 ≤
      (popRun m.fullText (floor.getD 0) rest (l.errorCount - weight m)).2.length :=
    le_length_popRun (Nat.le_of_lt_succ hfloor)
  rw [hrun] at hle
  exact hle

end Log

namespace Store

theorem unwind_of_length_le {s : Store} {floor : Option Nat} (h : s.log.length ≤ floor.getD 0) :
    s.unwind floor = .done ([], s) := by
  rw [unwind, if_neg (Nat.not_lt.2 h)]
  rfl

theorem unwind_of_pop {s : Store} {floor : Option Nat} {removed : List Message} {left : Log}
    (hfloor : floor.getD 0 < s.log.length) (hpop : s.log.pop floor = some (removed, left)) :
    s.unwind floor =
      (Effect.put [.event (.popped removed.length left.length)]).andThen fun _ =>
        (unwind floor { s with log := left }).andThen fun r => .done (removed ++ r.1, r.2) := by
  rw [unwind, if_pos hfloor]
  split
  · rename_i hnone
    cases hpop.symm.trans hnone
  · rename_i hsome
    obtain ⟨rfl, rfl⟩ := Prod.mk.inj (Option.some.inj (hpop.symm.trans hsome))
    rfl

theorem unwind_result (floor : Option Nat) (s : Store) :
    (s.unwind floor).result =
      .ok (s.log.newestAbove (floor.getD 0), { s with log := s.log.cut (floor.getD 0) }) := by
  fun_induction unwind floor s with
  | case1 s hfloor hpop => exact absurd hpop (Log.pop_ne_none_of_lt hfloor)
  | case2 s hfloor removed left hpop hless ih =>
    obtain ⟨hremoved, hleft⟩ := Log.pop_eq_cut hpop
    have hle := Log.le_length_of_pop hpop hfloor
    refine Effect.result_andThen_eq_ok_iff.2 ⟨(), rfl, ?_⟩
    refine Effect.result_andThen_eq_ok_iff.2 ⟨_, ih, ?_⟩
    have hlog : left.cut (floor.getD 0) = s.log.cut (floor.getD 0) := by
      rw [hleft, Log.cut_cut hle]
    have hmore := Log.newestAbove_append_cut hle s.log
    rw [← hleft, ← hremoved] at hmore
    simp only [pure, Effect.done, hlog, hmore]
  | case3 s hfloor =>
    have hle : s.log.length ≤ floor.getD 0 := by omega
    simp [pure, Effect.done, Log.newestAbove_of_length_le hle, Log.cut_of_length_le hle]

/-- Unwinding writes no lines; it tells of itself in events only. -/
theorem unwind_lines (floor : Option Nat) (s : Store) :
    (s.unwind floor).outputs.filterMap Output.line? = [] := by
  fun_induction unwind floor s with
  | case1 s hfloor hpop => exact absurd hpop (Log.pop_ne_none_of_lt hfloor)
  | case2 s hfloor removed left hpop hless ih =>
    have hok := unwind_result floor { s with log := left }
    simp only [Effect.bind_eq, Effect.put_andThen, Effect.andThen_of_ok hok]
    rw [List.filterMap_append, List.filterMap_append, ih]
    rfl
  | case3 s hfloor => rfl

end Store

end DiagnosticLog
