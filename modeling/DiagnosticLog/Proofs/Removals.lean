import DiagnosticLog.Proofs.Groups
import Mathlib.Algebra.GroupWithZero.Nat
import Mathlib.Data.List.SplitBy

/-!
What a removal tells of itself. Unwinding a log pops group after group, and every group is told with
its length and with what remains. Within the part of the log that goes, a group is a maximal run of
messages of one text: it ends where the text changes, at the floor, or with the log. So the events
of a removal are the run-length encoding of that part, newest run first (`outputs_unwind`), for
every operation that takes messages off.
-/

namespace DiagnosticLog

namespace Message

def sameText (m n : Message) : Bool := m.fullText == n.fullText

/-- The messages cut into runs, wherever two neighbours differ in their full text. -/
def runs (ms : List Message) : List (List Message) := ms.splitBy sameText

/-- These are the messages cut into runs that cannot be made longer: all messages of a run have one
full text, and where one run ends and the next begins the full text changes. -/
structure MaximalRuns (ms : List Message) (parts : List (List Message)) : Prop where
  flatten : parts.flatten = ms
  ne_nil : [] ∉ parts
  sameText : ∀ run ∈ parts, ∀ m ∈ run, ∀ n ∈ run, m.fullText = n.fullText
  maximal : parts.IsChain fun run next =>
    ∀ m ∈ run.getLast?, ∀ n ∈ next.head?, m.fullText ≠ n.fullText

/-- Neighbours have the same full text exactly if all messages have. -/
theorem isChain_sameText_iff {ms : List Message} :
    (ms.IsChain fun m n => sameText m n = true) ↔ ∀ m ∈ ms, ∀ n ∈ ms, m.fullText = n.fullText := by
  simp only [sameText, beq_iff_eq]
  have htrans : IsTrans Message fun m n => m.fullText = n.fullText := ⟨fun _ _ _ => Eq.trans⟩
  have hsymm : Std.Symm fun m n : Message => m.fullText = n.fullText := ⟨fun _ _ => Eq.symm⟩
  rw [List.isChain_iff_pairwise]
  constructor
  · intro h
    exact h.forall_of_forall fun _ _ => rfl
  · exact List.pairwise_of_forall_mem_list

/-- What it means that two runs do not go on into each other. -/
theorem exists_sameText_eq_false_iff {run next : List Message} (hrun : run ≠ [])
    (hnext : next ≠ []) :
    (∃ hrun hnext, sameText (run.getLast hrun) (next.head hnext) = false) ↔
      ∀ m ∈ run.getLast?, ∀ n ∈ next.head?, m.fullText ≠ n.fullText := by
  simp [List.getLast?_eq_some_getLast hrun, List.head?_eq_some_head hnext, hrun, hnext, sameText]

theorem maximalRuns_iff {ms : List Message} {parts : List (List Message)} :
    MaximalRuns ms parts ↔ parts = runs ms := by
  have hboundaries (hnil : [] ∉ parts) := List.IsChain.iff_of_mem_imp fun run next hrun hnext =>
    exists_sameText_eq_false_iff (ne_of_mem_of_not_mem hrun hnil) (ne_of_mem_of_not_mem hnext hnil)
  rw [eq_comm, runs, List.splitBy_eq_iff]
  constructor
  · rintro ⟨hflatten, hnil, hsame, hmaximal⟩
    exact ⟨hflatten.symm, hnil, fun run hrun => isChain_sameText_iff.2 (hsame run hrun),
      (hboundaries hnil).2 hmaximal⟩
  · rintro ⟨hflatten, hnil, hsame, hmaximal⟩
    exact ⟨hflatten.symm, hnil, fun run hrun => isChain_sameText_iff.1 (hsame run hrun),
      (hboundaries hnil).1 hmaximal⟩

/-- There is one way to cut messages into maximal runs. -/
theorem existsUnique_maximalRuns (ms : List Message) : ∃! parts, MaximalRuns ms parts :=
  ⟨runs ms, maximalRuns_iff.2 rfl, fun _ => maximalRuns_iff.1⟩

/-- A run of one text in front of another text is the first of the runs. -/
theorem runs_append {group rest : List Message} (hne : group ≠ [])
    (hsame : ∀ m ∈ group, ∀ n ∈ group, m.fullText = n.fullText)
    (hnext : ∀ top ∈ rest.head?, ∀ m ∈ group, m.fullText ≠ top.fullText) :
    runs (group ++ rest) = group :: runs rest := by
  have hboundary : ∀ m ∈ group.getLast?, ∀ top ∈ rest.head?, sameText m top = false := by
    intro m hm top htop
    simp [sameText, hnext top htop m (List.mem_of_getLast? hm)]
  rw [runs, List.splitBy_append hboundary,
    List.splitBy_of_isChain hne (isChain_sameText_iff.2 hsame), List.singleton_append, runs]

end Message

/-- The length of each run and the number of messages that remain when it is gone, where so many are
kept to the end. -/
def runCounts (kept : Nat) : List (List Message) → List (Nat × Nat)
  | [] => []
  | run :: rest => (run.length, kept + rest.flatten.length) :: runCounts kept rest

theorem sum_runCounts (kept : Nat) (parts : List (List Message)) :
    ((runCounts kept parts).map Prod.fst).sum = parts.flatten.length := by
  induction parts with
  | nil => rfl
  | cons run rest ih => simp [runCounts, ih]

namespace Output

/-- The event of a popped group. -/
def popped (counts : Nat × Nat) : Output := event (.popped counts.1 counts.2)

/-- What a popped group is told with: its length, and what remains. -/
def popped? : Output → Option (Nat × Nat)
  | event (.popped count remaining) => some (count, remaining)
  | _ => none

/-- The number of messages that a rollback is told to have discarded. -/
def discarded? : Output → Option Nat
  | event (.rolledBack _ discarded) => some discarded
  | _ => none

theorem popped?_map_popped (counts : List (Nat × Nat)) :
    (counts.map popped).filterMap popped? = counts := by
  rw [List.filterMap_map]
  exact List.filterMap_some

theorem discarded?_map_popped (counts : List (Nat × Nat)) :
    (counts.map popped).filterMap discarded? = [] := by
  rw [List.filterMap_map, List.filterMap_eq_nil_iff]
  exact fun _ _ => rfl

end Output

namespace Log

/-- The group that a pop takes off is the first of the runs above the floor. -/
theorem runs_newestAbove_of_pop {floor : Option Nat} {l left : Log} {removed : List Message}
    (h : l.pop floor = some (removed, left)) (hfloor : floor.getD 0 < l.length) :
    Message.runs (l.newestAbove (floor.getD 0)) =
      removed :: Message.runs (left.newestAbove (floor.getD 0)) := by
  obtain ⟨hremoved, hleft⟩ := pop_eq_cut h
  have hparts := newestAbove_append_cut (le_length_of_pop h hfloor) l
  rw [← hleft, ← hremoved] at hparts
  rw [← hparts]
  refine Message.runs_append (newestFirst_pop h).2 (fun m hm n hn => fullText_of_mem_pop h hm hn) ?_
  intro top htop m hm
  rcases pop_stops h with hnil | ⟨depth, rfl, hlow⟩ | ⟨next, hnext, hdiffers⟩
  · simp [newestAbove, hnil] at htop
  · rw [Option.getD_some, newestAbove_of_length_le hlow] at htop
    cases htop
  · have hhead : top ∈ left.newestFirst.head? := by
      rw [newestAbove, List.head?_take] at htop
      split at htop
      · cases htop
      · exact htop
    cases hnext.symm.trans hhead
    exact hdiffers m hm

end Log

namespace Store

/-- Unwinding tells the runs of what it removes, and nothing else. -/
theorem outputs_unwind (floor : Option Nat) (s : Store) :
    (s.unwind floor).outputs =
      (runCounts (min (floor.getD 0) s.log.length)
        (Message.runs (s.log.newestAbove (floor.getD 0)))).map Output.popped := by
  fun_induction unwind floor s with
  | case1 s hfloor hpop => exact absurd hpop (Log.pop_ne_none_of_lt hfloor)
  | case2 s hfloor removed left hpop hless ih =>
    have hok := unwind_result floor { s with log := left }
    have hle := Log.le_length_of_pop hpop hfloor
    have hkept : min (floor.getD 0) s.log.length = min (floor.getD 0) left.length := by omega
    have hremaining : min (floor.getD 0) left.length + (left.newestAbove (floor.getD 0)).length =
        left.length := by
      rw [Log.newestAbove, List.length_take]
      change _ + min _ left.length = _
      omega
    -- The event of the group just popped comes first, and its group is the first of the runs.
    simp only [Effect.bind_eq, Effect.put_andThen, Effect.andThen_of_ok hok, ih]
    rw [Log.runs_newestAbove_of_pop hpop hfloor, runCounts, hkept, List.map_cons, Message.runs,
      List.flatten_splitBy, hremaining]
    simp [Output.popped, pure, Effect.done]
  | case3 s hfloor =>
    have hle : s.log.length ≤ floor.getD 0 := by omega
    simp [pure, Effect.done, Log.newestAbove_of_length_le hle, Message.runs, runCounts]

/-- How far down the operation takes messages off, if it takes any off. -/
def removalDepth? (s : Store) : Operation → Option Nat
  | .drain _ | .clear => some 0
  | .close .rollBack _ | .close .rollBackPrinting _ => s.checkpoints.top?.map Checkpoint.depth
  | _ => none

/-- The operation has taken off what was above the depth, and has told it run by run: each run with
its length and with the height of the log after it. -/
structure TellsRemoval (s : Store) (depth : Nat) (outputs : List Output) (s' : Store) : Prop where
  kept : s'.log.messages = s.log.messages.take depth
  removed : s.log.messages = s'.log.messages ++ (s.log.newestAbove depth).reverse
  runs : ∃! parts, Message.MaximalRuns (s.log.newestAbove depth) parts
  counts : ∀ parts, Message.MaximalRuns (s.log.newestAbove depth) parts →
    outputs.filterMap Output.popped? = runCounts s'.log.length parts
  total : ((outputs.filterMap Output.popped?).map Prod.fst).sum = (s.log.newestAbove depth).length
  still : s.log.length ≤ depth → outputs.filterMap Output.popped? = [] ∧ s'.log = s.log

/-- What an operation that takes messages off puts out before it tells of the runs. -/
def removalNotice (s : Store) : Operation → List Output
  | .drain _ => s.emptyingWarning .drain
  | .clear => s.emptyingWarning .clear
  | _ => []

/-- What it puts out after that, where so many messages have gone. -/
def removalReport (count : Nat) : Operation → List Output
  | .close _ id => [.event (.rolledBack id count)]
  | _ => []

theorem popped?_emptyingWarning (how : Emptying) (s : Store) :
    (s.emptyingWarning how).filterMap Output.popped? = [] := by
  unfold emptyingWarning
  split <;> rfl

theorem popped?_removalNotice (s : Store) (op : Operation) :
    (s.removalNotice op).filterMap Output.popped? = [] := by
  cases op with
  | drain form | clear => exact popped?_emptyingWarning _ s
  | _ => rfl

theorem popped?_removalReport (count : Nat) (op : Operation) :
    (removalReport count op).filterMap Output.popped? = [] := by
  cases op <;> rfl

/-- An operation that takes messages off cuts the log, and tells of nothing between its notice and
its report but the runs. -/
theorem perform_of_removal {s s' : Store} {op : Operation} {a : Answer} {depth : Nat}
    (hdepth : s.removalDepth? op = some depth) (h : (s.perform op).result = .ok (a, s')) :
    s'.log = s.log.cut depth ∧
    (s.perform op).outputs = s.removalNotice op ++
      (runCounts (min depth s.log.length)
        (Message.runs (s.log.newestAbove depth))).map Output.popped ++
      removalReport (s.log.newestAbove depth).length op := by
  cases op with
  | drain form | clear =>
    obtain rfl := Option.some.inj hdepth
    rw [perform, emptyLog_eq, outputs_unwind] at h ⊢
    obtain ⟨-, rfl⟩ := Prod.mk.inj (Except.ok.inj h)
    exact ⟨rfl, rfl⟩
  | close how id =>
    obtain ⟨cp, outer, htop, rfl, hr⟩ := top_of_close h
    obtain rfl : s' = (s.closeTop how cp outer).2 := congrArg Prod.snd hr
    cases how with
    | commit => cases hdepth
    | rollBack | rollBackPrinting =>
      rw [removalDepth?, Checkpoints.top?, htop] at hdepth
      obtain rfl := Option.some.inj hdepth
      refine ⟨rfl, ?_⟩
      rw [perform, close, rollBack_eq htop, outputs_unwind]
      simp only [Effect.bind_eq, Effect.andThen, Effect.pure_eq, Effect.done, List.append_nil]
      rfl
  | _ => cases hdepth

/-- Every operation that takes messages off tells so by the maximal runs of what goes, newest first,
with the length of each and the height of the log after it. A rollback reports at the end how many
went, which is the sum of the lengths. -/
theorem removal_told_by_runs {s s' : Store} {op : Operation} {a : Answer} {depth : Nat}
    (hdepth : s.removalDepth? op = some depth) (h : (s.perform op).result = .ok (a, s')) :
    s.TellsRemoval depth (s.perform op).outputs s' ∧
    ∀ how id, op = .close how id →
      (s.perform op).outputs.filterMap Output.discarded? =
        [(((s.perform op).outputs.filterMap Output.popped?).map Prod.fst).sum] := by
  obtain ⟨hlog, houtputs⟩ := perform_of_removal hdepth h
  have hcounts : (s.perform op).outputs.filterMap Output.popped? =
      runCounts s'.log.length (Message.runs (s.log.newestAbove depth)) := by
    rw [houtputs, List.filterMap_append, List.filterMap_append, popped?_removalNotice,
      popped?_removalReport, Output.popped?_map_popped, List.nil_append, List.append_nil, hlog,
      Log.length_cut]
  have htotal : (((s.perform op).outputs.filterMap Output.popped?).map Prod.fst).sum =
      (s.log.newestAbove depth).length := by
    rw [hcounts, sum_runCounts, Message.runs, List.flatten_splitBy]
  refine ⟨⟨?_, ?_, Message.existsUnique_maximalRuns _, fun parts hparts => ?_, htotal,
    fun hlow => ⟨?_, ?_⟩⟩, fun how id hop => ?_⟩
  · rw [hlog, Log.messages_cut]
  · rw [hlog, Log.messages_cut, Log.reverse_newestAbove, Log.above, List.take_append_drop]
  · rw [hcounts, Message.maximalRuns_iff.1 hparts]
  · rw [hcounts, Log.newestAbove_of_length_le hlow]
    rfl
  · rw [hlog, Log.cut_of_length_le hlow]
  · subst hop
    rw [htotal, houtputs, List.filterMap_append, List.filterMap_append,
      Output.discarded?_map_popped]
    rfl

/-- A store whose open checkpoint is in the middle of three messages of one text. -/
def straddled : Store :=
  ⟨⟨[.bare "b", .bare "a", .bare "a", .bare "a"], 4⟩, ⟨[⟨"c", 1⟩], ""⟩, .nowhere, .quiet⟩

/-- What is left of it when the checkpoint has been rolled back. -/
def unstraddled : Store := ⟨⟨[.bare "a"], 1⟩, ⟨[], ""⟩, .nowhere, .quiet⟩

/-- The run across the depth of the checkpoint is cut there. -/
theorem removal_told_by_runs_straddling :
    straddled.removalDepth? (.close .rollBackPrinting "c") = some 1 ∧
    (straddled.perform (.close .rollBackPrinting "c")).result =
      .ok (.text "a\na\nb", unstraddled) ∧
    (straddled.perform (.close .rollBackPrinting "c")).outputs.filterMap Output.popped? =
      [(1, 3), (2, 1)] ∧
    (straddled.perform (.close .rollBackPrinting "c")).outputs.filterMap Output.discarded? =
      [3] := by
  have hdepth : straddled.removalDepth? (.close .rollBackPrinting "c") = some 1 := rfl
  have hclose : (straddled.perform (.close .rollBackPrinting "c")).result =
      .ok (.text "a\na\nb", unstraddled) := by
    apply Effect.result_of_toOption
    decide +kernel
  obtain ⟨htold, hreport⟩ := removal_told_by_runs hdepth hclose
  have hcounts : (straddled.perform (.close .rollBackPrinting "c")).outputs.filterMap
      Output.popped? = [(1, 3), (2, 1)] := by
    rw [htold.counts _ (Message.maximalRuns_iff.2 rfl)]
    decide +kernel
  exact ⟨hdepth, hclose, hcounts, by rw [hreport .rollBackPrinting "c" rfl, hcounts]; rfl⟩

end Store

end DiagnosticLog
