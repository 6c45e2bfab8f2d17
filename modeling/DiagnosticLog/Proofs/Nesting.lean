import DiagnosticLog.Proofs.Flattening
import DiagnosticLog.Proofs.Speculation

/-!
Whether a speculation leaves the nesting of the checkpoints as it was. It closes its checkpoint by
name, so it can only go wrong where the name is borne by another checkpoint as well: by one that is
open already, or by one that its own body opens. A name that nobody else uses tells the checkpoints
apart, and a body that breaks the nesting is then found out. Otherwise there are bodies that break
it unnoticed.
-/

namespace DiagnosticLog

namespace Store

variable {α : Type}

/-- The open checkpoints are some that bear other names, on top of an end of this list. -/
def Above (id : String) (opened : List Checkpoint) (s : Store) : Prop :=
  ∃ inner base, s.checkpoints.innermostFirst = inner ++ base ∧ base <:+ opened ∧
    ∀ cp ∈ inner, cp.id ≠ id

theorem Above.perform {id : String} {opened : List Checkpoint} {op : Operation} {s s' : Store}
    {a : Answer} (h : s.Above id opened) (hop : op ≠ .openCheckpoint id)
    (hperform : (s.perform op).result = .ok (a, s')) : s'.Above id opened := by
  obtain ⟨inner, base, hopen, hbase, hinner⟩ := h
  cases step_of_perform hperform with
  | push | empty => exact ⟨inner, base, hopen, hbase, hinner⟩
  | passive _ _ hsame => exact ⟨inner, base, hsame ▸ hopen, hbase, hinner⟩
  | openCheckpoint name =>
    refine ⟨⟨name, s.log.length⟩ :: inner, base, ?_, hbase, fun cp hcp => ?_⟩
    · simp [Checkpoints.push, hopen]
    · rcases List.mem_cons.1 hcp with rfl | hcp
      · exact fun hname => hop (congrArg _ hname)
      · exact hinner cp hcp
  | close how cp outer htop =>
    rw [Above, innermostFirst_closeTop]
    rw [htop] at hopen
    -- Which of the two parts loses its first checkpoint depends on whether the upper one is empty.
    cases inner with
    | nil =>
      have houter : outer <:+ opened := (List.suffix_cons cp outer).trans (hopen ▸ hbase)
      exact ⟨[], outer, rfl, houter, fun _ hcp => by cases hcp⟩
    | cons first inner =>
      obtain ⟨-, houter⟩ := List.cons.inj hopen
      exact ⟨inner, base, houter, hbase, fun cp hcp => hinner cp (List.mem_cons_of_mem _ hcp)⟩

/-- A checkpoint of the name can only be innermost if nothing that was opened later is left. -/
theorem Above.top_suffix {id : String} {opened : List Checkpoint} {s : Store} {cp : Checkpoint}
    {outer : List Checkpoint} (h : s.Above id opened)
    (htop : s.checkpoints.innermostFirst = cp :: outer) (hid : cp.id = id) :
    cp :: outer <:+ opened := by
  obtain ⟨inner, base, hopen, hbase, hinner⟩ := h
  cases inner with
  | nil => exact htop ▸ hopen ▸ hbase
  | cons first inner =>
    obtain ⟨rfl, -⟩ := List.cons.inj (htop.symm.trans hopen)
    exact absurd hid (hinner cp List.mem_cons_self)

/-- A body that never opens a checkpoint of the name leads to such stores only. -/
theorem above_of_run {id : String} {opened : List Checkpoint} {body : Program α}
    (hbody : .openCheckpoint id ∉ body.operations) {place : List Nat} {n : Nat} {s u : Store}
    (hs : s.checkpoints.innermostFirst = opened)
    (hu : (body.run perform place n s).result = .ok u) : u.Above id opened := by
  rw [Program.result_run] at hu
  have hstart : s.Above id opened := ⟨[], opened, hs, List.suffix_rfl, fun _ hcp => by cases hcp⟩
  refine Machine.performAll_keeps (fun op hop _ _ _ h hperform => ?_) hstart hu
  exact h.perform (fun hopens => hbody (hopens ▸ hop)) hperform

end Store

/-- A program that commits these checkpoints. -/
def Program.committing {α : Type} : List Checkpoint → Program α
  | [] => done
  | cp :: rest => step (.close .commit cp.id) (committing rest)

theorem Program.operations_committing {α : Type} (cps : List Checkpoint) :
    (committing cps : Program α).operations = cps.map fun cp => .close .commit cp.id := by
  induction cps with
  | nil => rfl
  | cons cp rest ih => rw [committing, operations, ih, List.map_cons]

/-- Where these checkpoints are innermost, they can be committed one after another. -/
theorem Program.exists_run_committing {α : Type} {cps outer : List Checkpoint} {s : Store}
    (h : s.checkpoints.innermostFirst = cps ++ outer) (place : List Nat) (n : Nat) :
    ∃ t, ((committing cps : Program α).run Store.perform place n s).result = .ok t ∧
      t.checkpoints.innermostFirst = outer := by
  induction cps generalizing s n with
  | nil => exact ⟨s, rfl, h⟩
  | cons cp rest ih =>
    obtain ⟨t, ht, houter⟩ := ih (s := { s with checkpoints := ⟨rest ++ outer, cp.id⟩ }) rfl (n + 1)
    have hfirst := Store.close_result h .commit
    exact ⟨t, Effect.result_andThen_eq_ok_iff.2
      ⟨_, Effect.result_andThen_eq_ok_iff.2 ⟨_, hfirst, rfl⟩, ht⟩, houter⟩

section Speculate

variable {α : Type} {s : Store} {id : String} {outcome : Option α} {place : List Nat}

/-- A speculation whose name nobody else uses closes the checkpoint that it opened. -/
theorem nesting_of_fresh (hfresh : ∀ cp ∈ s.checkpoints.innermostFirst, cp.id ≠ id)
    {body : Program α} (hbody : .openCheckpoint id ∉ body.operations) {t : Store}
    (ht : ((Statement.speculate id outcome body).run Store.perform place s).result = .ok t) :
    t.checkpoints.innermostFirst = s.checkpoints.innermostFirst := by
  obtain ⟨u, cp, outer, hu, htop, hid, rfl⟩ := Store.result_speculate_eq_ok_iff.1 ht
  have habove := Store.above_of_run hbody rfl hu
  rw [Store.innermostFirst_closeTop]
  rcases List.suffix_cons_iff.1 (habove.top_suffix htop hid) with heq | hsuffix
  · exact (List.cons.inj heq).2
  · exact absurd hid (hfresh cp (hsuffix.subset List.mem_cons_self))

/-- If a checkpoint of the name is open already, a body can commit everything further in, and the
speculation then closes that checkpoint in the place of its own. -/
theorem exists_outer_closed {inner outer : List Checkpoint} {cp : Checkpoint}
    (hopen : s.checkpoints.innermostFirst = inner ++ cp :: outer) (hid : cp.id = id) :
    ∃ (body : Program α) (t : Store), .openCheckpoint id ∉ body.operations ∧
      ((Statement.speculate id outcome body).run Store.perform place s).result = .ok t ∧
      t.checkpoints.innermostFirst = outer := by
  have hopened : (s.checkpoints.push id s.log.length).innermostFirst =
      (⟨id, s.log.length⟩ :: inner) ++ cp :: outer := by
    simp [Checkpoints.push, hopen]
  obtain ⟨u, hu, htop⟩ := Program.exists_run_committing
    (s := { s with checkpoints := s.checkpoints.push id s.log.length }) hopened place 0
  refine ⟨.committing (⟨id, s.log.length⟩ :: inner), _, ?_,
    Store.result_speculate_eq_ok_iff.2 ⟨u, cp, outer, hu, htop, hid, rfl⟩,
    Store.innermostFirst_closeTop _ _ _ _⟩
  simp [Program.operations_committing]

/-- A body that opens another checkpoint of the name and leaves it open makes the speculation close
that one, and its own stays open. -/
theorem exists_own_left_open :
    ∃ (body : Program α) (t : Store),
      ((Statement.speculate id outcome body).run Store.perform place s).result = .ok t ∧
      t.checkpoints.innermostFirst = ⟨id, s.log.length⟩ :: s.checkpoints.innermostFirst :=
  ⟨.step (.openCheckpoint id) .done, _,
    Store.result_speculate_eq_ok_iff.2 ⟨_, _, _, rfl, rfl, rfl, rfl⟩,
    Store.innermostFirst_closeTop _ _ _ _⟩

end Speculate

/-- A speculation that returns is sure to leave the open checkpoints as they were, whatever its body
does short of opening another checkpoint of its name, if and only if none of that name was open
before. With a body that does open one, it can break the nesting unnoticed on every store. -/
theorem speculate_keeps_nesting_iff {α : Type} (s : Store) (id : String) (outcome : Option α)
    (place : List Nat) :
    ((∀ (body : Program α) (t : Store), .openCheckpoint id ∉ body.operations →
        ((Statement.speculate id outcome body).run Store.perform place s).result = .ok t →
        t.checkpoints.innermostFirst = s.checkpoints.innermostFirst) ↔
      ∀ cp ∈ s.checkpoints.innermostFirst, cp.id ≠ id) ∧
    ∃ (body : Program α) (t : Store),
      ((Statement.speculate id outcome body).run Store.perform place s).result = .ok t ∧
      t.checkpoints.innermostFirst ≠ s.checkpoints.innermostFirst := by
  refine ⟨⟨fun hkeeps cp hcp hid => ?_, fun hfresh _ _ hbody => nesting_of_fresh hfresh hbody⟩, ?_⟩
  · obtain ⟨inner, outer, hsplit⟩ := List.append_of_mem hcp
    obtain ⟨body, t, hbody, ht, houter⟩ := exists_outer_closed hsplit hid
    have hlen := congrArg List.length (houter.symm.trans (hkeeps body t hbody ht))
    rw [hsplit, List.length_append, List.length_cons] at hlen
    omega
  · obtain ⟨body, t, ht, hopen⟩ := exists_own_left_open
    refine ⟨body, t, ht, ?_⟩
    rw [hopen]
    exact List.cons_ne_self _ _

/-- A body that reports a message and leaves a checkpoint open. -/
def unclosed : Program Unit :=
  .step (.push (.bare "a")) <| .step (.openCheckpoint "c") .done

/-- So a speculation that returns does not always leave the open checkpoints as they were: this one
has no outcome, and yet its checkpoint stays open and the message stays stored. -/
theorem nesting_not_always_kept :
    ¬ ∀ (settings : Settings) (s : Store), Machine.Reachable Store.perform (.new settings) s →
      ∀ (id : String) (outcome : Option Unit) (body : Program Unit) (place : List Nat) (t : Store),
      ((Statement.speculate id outcome body).run Store.perform place s).result = .ok t →
      t.checkpoints.innermostFirst = s.checkpoints.innermostFirst := by
  intro hkept
  have hrun : ((Statement.speculate "c" none unclosed).run Store.perform []
      (.new .quiet)).result = .ok ⟨⟨[.bare "a"], 1⟩, ⟨[⟨"c", 0⟩], ""⟩, .nowhere, .quiet⟩ := by
    apply Effect.result_of_toOption
    decide +kernel
  have hsame := hkept .quiet (.new .quiet) .start "c" none unclosed [] _ hrun
  cases hsame

end DiagnosticLog
