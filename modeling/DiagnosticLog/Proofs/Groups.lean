import DiagnosticLog.Proofs.ErrorCount

/-!
The group that a pop takes off. It is made of messages of one text from the top of the log, and it
is the longest group of this kind that the floor allows: a single message can always come off, and
more of them as long as the log stays at least as high as the floor. So afterwards the log is empty,
or no higher than the floor, or has a message of another text on top.
-/

namespace DiagnosticLog.Log

/-- The messages, newest first, are a group that may come off in one pop: they are on top, have one
text, and do not reach below the floor, unless there is only one of them. -/
structure TopGroup (floor : Option Nat) (l : Log) (group : List Message) : Prop where
  onTop : group <+: l.newestFirst
  ne_nil : group ≠ []
  sameText : ∀ m ∈ group, ∀ n ∈ group, m.fullText = n.fullText
  aboveFloor : group.length = 1 ∨ ∀ depth ∈ floor, depth + group.length ≤ l.length

/-- A pop takes these messages off, newest first, and leaves the other log. The count of errors goes
down by those among them if it was right, as it is in every log that pushes and pops lead to
(`Reachable.counted`). -/
structure Pops (floor : Option Nat) (l : Log) (removed : List Message) (left : Log) : Prop where
  messages : l.messages = left.messages ++ removed.reverse
  sheds : l.Sheds removed left
  group : l.TopGroup floor removed
  longest : ∀ other, l.TopGroup floor other → other.length ≤ removed.length
  stops : left.messages = [] ∨ (∃ depth, floor = some depth ∧ left.length ≤ depth) ∨
    ∃ top, left.messages.getLast? = some top ∧ ∀ m ∈ removed, m.fullText ≠ top.fullText
  errors : l.Counted → left.errorCount + removed.countP Message.isError = l.errorCount

theorem getLast?_messages (l : Log) : l.messages.getLast? = l.newestFirst.head? := by
  rw [messages, List.getLast?_reverse]

theorem fullText_of_mem_popRun {text : String} {floor : Nat} {ms : List Message} {errors : Nat}
    {m : Message} (hm : m ∈ (popRun text floor ms errors).1) : m.fullText = text := by
  induction ms generalizing errors with
  | nil => simp [popRun] at hm
  | cons first rest ih =>
    simp only [popRun] at hm
    split at hm
    · rename_i hrun
      rcases List.mem_cons.1 hm with rfl | hmore
      · exact hrun.2
      · exact ih hmore
    · simp at hm

/-- What makes a run of equal messages end. -/
theorem popRun_stops (text : String) (floor : Nat) (ms : List Message) (errors : Nat) :
    (popRun text floor ms errors).2.newestFirst = [] ∨
    (popRun text floor ms errors).2.length ≤ floor ∨
    ∃ top, (popRun text floor ms errors).2.newestFirst.head? = some top ∧ top.fullText ≠ text := by
  induction ms generalizing errors with
  | nil => exact Or.inl rfl
  | cons first rest ih =>
    simp only [popRun]
    split
    · exact ih (errors - weight first)
    · rename_i hstop
      by_cases htext : first.fullText = text
      · have hfloor : ¬ floor < rest.length + 1 := fun h => hstop ⟨h, htext⟩
        exact Or.inr (Or.inl (Nat.not_lt.1 hfloor))
      · exact Or.inr (Or.inr ⟨first, rfl, htext⟩)

theorem fullText_of_mem_pop {floor : Option Nat} {l left : Log} {removed : List Message}
    (h : l.pop floor = some (removed, left)) {m n : Message} (hm : m ∈ removed)
    (hn : n ∈ removed) : m.fullText = n.fullText := by
  obtain ⟨first, rest, more, -, rfl, hrun⟩ := exists_popRun_of_pop h
  have htext : ∀ k ∈ first :: more, k.fullText = first.fullText := by
    intro k hk
    rcases List.mem_cons.1 hk with rfl | hmore
    · rfl
    · exact fullText_of_mem_popRun (by rw [hrun]; exact hmore)
  rw [htext m hm, htext n hn]

/-- Where a pop stops, nothing is left, or the floor is reached, or another text comes next. -/
theorem pop_stops {floor : Option Nat} {l left : Log} {removed : List Message}
    (h : l.pop floor = some (removed, left)) :
    left.newestFirst = [] ∨ (∃ depth, floor = some depth ∧ left.length ≤ depth) ∨
    ∃ top, left.newestFirst.head? = some top ∧ ∀ m ∈ removed, m.fullText ≠ top.fullText := by
  have hsame := fun m (hm : m ∈ removed) n (hn : n ∈ removed) => fullText_of_mem_pop h hm hn
  obtain ⟨first, rest, more, -, rfl, hrun⟩ := exists_popRun_of_pop h
  have hstops := popRun_stops first.fullText (floor.getD 0) rest (l.errorCount - weight first)
  rw [hrun] at hstops
  rcases hstops with hnil | hfloor | ⟨top, htop, hne⟩
  · exact Or.inl hnil
  · cases floor with
    | none => exact Or.inl (List.length_eq_zero_iff.1 (Nat.le_zero.1 hfloor))
    | some depth => exact Or.inr (Or.inl ⟨depth, rfl, hfloor⟩)
  · refine Or.inr (Or.inr ⟨top, htop, fun m hm heq => hne ?_⟩)
    rw [← heq, hsame m hm first List.mem_cons_self]

/-- Only a single message is taken below the floor. -/
theorem length_eq_one_or_floor_le_of_pop {floor : Option Nat} {l left : Log}
    {removed : List Message} (h : l.pop floor = some (removed, left)) :
    removed.length = 1 ∨ floor.getD 0 ≤ left.length := by
  by_cases hfloor : floor.getD 0 < l.length
  · exact Or.inr (le_length_of_pop h hfloor)
  · obtain ⟨first, rest, more, hnewest, rfl, hrun⟩ := exists_popRun_of_pop h
    have hlength : l.length = rest.length + 1 := by rw [length, hnewest, List.length_cons]
    cases rest with
    | nil =>
      obtain ⟨rfl, -⟩ := Prod.mk.inj hrun
      exact Or.inl rfl
    | cons second rest =>
      have hstop : ¬ (floor.getD 0 < rest.length + 1 ∧ second.fullText = first.fullText) := by
        rw [List.length_cons] at hlength
        omega
      rw [popRun, if_neg hstop] at hrun
      obtain ⟨rfl, -⟩ := Prod.mk.inj hrun
      exact Or.inl rfl

theorem topGroup_of_pop {floor : Option Nat} {l left : Log} {removed : List Message}
    (h : l.pop floor = some (removed, left)) : l.TopGroup floor removed where
  onTop := ⟨left.newestFirst, (newestFirst_pop h).1.symm⟩
  ne_nil := (newestFirst_pop h).2
  sameText := fun _ hm _ hn => fullText_of_mem_pop h hm hn
  aboveFloor := by
    refine (length_eq_one_or_floor_le_of_pop h).imp_right fun hfloor depth hdepth => ?_
    have hlength := length_pop h
    rw [Option.mem_def.1 hdepth, Option.getD_some] at hfloor
    omega

/-- A group that is longer than what a pop takes off would hold the next message as well, and what
made the pop stop there keeps it out. -/
theorem length_le_of_pop {floor : Option Nat} {l left : Log} {removed other : List Message}
    (h : l.pop floor = some (removed, left)) (hother : l.TopGroup floor other) :
    other.length ≤ removed.length := by
  obtain ⟨hparts, hne⟩ := newestFirst_pop h
  have hpos := List.length_pos_iff.2 hne
  have hlength := length_pop h
  refine Nat.not_lt.1 fun hlonger => ?_
  have hprefix : removed <+: other :=
    List.prefix_of_prefix_length_le ⟨left.newestFirst, hparts.symm⟩ hother.onTop (by omega)
  obtain ⟨more, rfl⟩ := hprefix
  obtain ⟨below, hbelow⟩ := hother.onTop
  have hleft : left.newestFirst = more ++ below := by
    rw [hparts, List.append_assoc] at hbelow
    exact (List.append_cancel_left hbelow).symm
  cases more with
  | nil => simp at hlonger
  | cons next more =>
    -- `next` is the message that was on top when the pop stopped.
    rcases pop_stops h with hnil | ⟨depth, rfl, hlow⟩ | ⟨top, htop, hdiffers⟩
    · simp [hnil] at hleft
    · rcases hother.aboveFloor with hone | habove
      · omega
      · have hdepth := habove depth rfl
        omega
    · obtain ⟨first, hfirst⟩ := List.exists_mem_of_ne_nil removed hne
      rw [hleft, List.cons_append, List.head?_cons, Option.some.injEq] at htop
      subst htop
      exact hdiffers first hfirst
        (hother.sameText first (List.mem_append_left _ hfirst) next (by simp))

/-- A pop fails exactly on the empty log, from which nothing can come off. Otherwise it takes off
the longest group on top that the floor allows, one message after another. -/
theorem pop_takes_longest_group (floor : Option Nat) (l : Log) :
    ((l.pop floor = none ↔ l.messages = []) ∧
      (l.pop floor = none → ∀ gone left, l.Sheds gone left → gone = [] ∧ left = l)) ∧
    ∀ removed left, l.pop floor = some (removed, left) → l.Pops floor removed left := by
  refine ⟨⟨?_, fun hnone gone left hsheds => ?_⟩, fun removed left h => ?_⟩
  · rw [pop_eq_none_iff, messages, List.reverse_eq_nil_iff]
  · have hempty := pop_eq_none_iff.1 hnone
    cases hsheds with
    | nil => exact ⟨rfl, rfl⟩
    | cons hone hmore =>
      rw [popOne, hempty] at hone
      cases hone
  · have hmessages : l.messages = left.messages ++ removed.reverse := by
      rw [messages, (newestFirst_pop h).1, List.reverse_append, messages]
    refine ⟨hmessages, sheds_pop h, topGroup_of_pop h, fun other => length_le_of_pop h, ?_, ?_⟩
    · rw [getLast?_messages, messages, List.reverse_eq_nil_iff]
      exact pop_stops h
    · intro hcounted
      have hleft : left.errorCount = left.messages.countP Message.isError :=
        hcounted.sheds (sheds_pop h)
      rw [hleft, hcounted, hmessages, List.countP_append, List.countP_reverse]

/-- Three messages of one text, the middle one a warning, above a message of another text. -/
def tripled : Log :=
  ⟨[.bare "a", { Message.bare "a" with severity := .warning }, .bare "a", .bare "b"], 3⟩

/-- The floor cuts the group, and the warning in it does not count as an error. -/
theorem pop_takes_longest_group_cut :
    tripled.pop (some 2) =
      some ([.bare "a", { Message.bare "a" with severity := .warning }],
        ⟨[.bare "a", .bare "b"], 2⟩) ∧
    tripled.Counted ∧
    tripled.Pops (some 2) [.bare "a", { Message.bare "a" with severity := .warning }]
      ⟨[.bare "a", .bare "b"], 2⟩ ∧
    empty.pop (some 2) = none ∧ ∀ gone left, empty.Sheds gone left → gone = [] ∧ left = empty := by
  have hpop : tripled.pop (some 2) =
      some ([.bare "a", { Message.bare "a" with severity := .warning }],
        ⟨[.bare "a", .bare "b"], 2⟩) := by decide
  have hcounted : tripled.Counted := by
    unfold Counted
    decide
  have hempty : empty.pop (some 2) = none := rfl
  exact ⟨hpop, hcounted, (pop_takes_longest_group (some 2) tripled).2 _ _ hpop, hempty,
    (pop_takes_longest_group (some 2) empty).1.2 hempty⟩

end DiagnosticLog.Log
