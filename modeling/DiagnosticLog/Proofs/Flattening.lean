import DiagnosticLog.Proofs.Runs

/-!
The operations of a program one after another. A speculation is an opening, what its body does,
and a closing, so the nesting of a program is no more than a way to write down a list of operations:
a run puts out what these operations put out, and ends as they end (`view_run_operations`). A run
that ends with a violation ends with what the operation that raised it puts out.
-/

namespace DiagnosticLog

/-- The operations that a program performs, in order, if none of them fails. -/
def Program.operations {α : Type} : Program α → List Operation
  | done => []
  | step op rest => op :: rest.operations
  | speculate id outcome body rest =>
    .openCheckpoint id ::
      (body.operations ++ .close (Closing.ofOutcome outcome) id :: rest.operations)

attribute [ext] Effect

namespace Effect

variable {ω ω' α β γ : Type}

theorem andThen_assoc (e : Effect ω α) (f : α → Effect ω β) (g : β → Effect ω γ) :
    (e.andThen f).andThen g = e.andThen fun a => (f a).andThen g :=
  bind_assoc e f g

theorem result_view_id (g : ω → Option ω') (e : Effect ω α) : (e.view g id).result = e.result := by
  obtain ⟨outputs, result⟩ := e
  cases result <;> rfl

theorem view_mapOutputs_output {σ : Type} (e : Effect Output β) :
    (e.mapOutputs (.output : Output → Happening α σ)).view Happening.output? id = e := by
  have houtputs : (e.outputs.map (.output : Output → Happening α σ)).filterMap
      Happening.output? = e.outputs := by
    rw [List.filterMap_map]
    exact List.filterMap_some
  exact Effect.ext houtputs (result_view_id _ (e.mapOutputs _))

/-- A sequence of two computations fails in the first part or in the second, and what the failing
part puts out comes last. -/
theorem exists_of_andThen_error {e : Effect ω α} {f : α → Effect ω β} {v : Violation}
    (h : (e.andThen f).result = .error v) :
    (e.result = .error v ∧ (e.andThen f).outputs = e.outputs) ∨
      ∃ a, e.result = .ok a ∧ (f a).result = .error v ∧
        (e.andThen f).outputs = e.outputs ++ (f a).outputs := by
  obtain ⟨outputs, result⟩ := e
  cases result with
  | error v' =>
    obtain rfl : v' = v := Except.error.inj h
    exact Or.inl ⟨rfl, rfl⟩
  | ok a => exact Or.inr ⟨a, rfl, h, rfl⟩

end Effect

namespace Machine

variable {α σ : Type} {m : Machine σ}

/-- Performs operations one after another, up to the first that fails. -/
def performAll (m : Machine σ) : List Operation → σ → Effect Output σ
  | [], s => .done s
  | op :: rest, s => (m op s).andThen fun r => m.performAll rest r.2

theorem performAll_append (ops rest : List Operation) (s : σ) :
    m.performAll (ops ++ rest) s = (m.performAll ops s).andThen (m.performAll rest) := by
  induction ops generalizing s with
  | nil => rfl
  | cons op ops ih =>
    simp only [List.cons_append, performAll, ih]
    exact (Effect.andThen_assoc _ _ _).symm

/-- What every operation of a list keeps, performing the list keeps. -/
theorem performAll_keeps {I : σ → Prop} {ops : List Operation}
    (h : ∀ op ∈ ops, ∀ {s a s'}, I s → (m op s).result = .ok (a, s') → I s') {s t : σ} (hs : I s)
    (ht : (m.performAll ops s).result = .ok t) : I t := by
  induction ops generalizing s with
  | nil =>
    cases ht
    exact hs
  | cons op rest ih =>
    obtain ⟨r, hr, ht⟩ := Effect.result_andThen_eq_ok_iff.1 ht
    have hfirst : I r.2 := h op List.mem_cons_self hs hr
    exact ih (fun op hop => h op (List.mem_cons_of_mem _ hop)) hfirst ht

/-- If a list of operations fails, then one of them fails, in a state that those before it lead to,
and what it puts out comes last. -/
theorem exists_of_performAll_error {ops : List Operation} {s₀ s : σ} {v : Violation}
    (hs : m.Reachable s₀ s) (h : (m.performAll ops s).result = .error v) :
    ∃ op t before, m.Reachable s₀ t ∧ (m op t).result = .error v ∧
      (m.performAll ops s).outputs = before ++ (m op t).outputs := by
  induction ops generalizing s with
  | nil => cases h
  | cons op rest ih =>
    rcases Effect.exists_of_andThen_error h with ⟨hfail, hout⟩ | ⟨r, hr, hfail, hout⟩
    · exact ⟨op, s, [], hs, hfail, hout⟩
    · obtain ⟨op', t, before, ht, hfail, hrest⟩ := ih (hs.step hr) hfail
      refine ⟨op', t, (m op s).outputs ++ before, ht, hfail, ?_⟩
      rw [List.append_assoc, ← hrest]
      exact hout

theorem view_doing_output (op : Operation) (s : σ) :
    (m.doing op s : Effect (Happening α σ) _).view Happening.output? id = m op s :=
  Effect.view_mapOutputs_output (m op s)

theorem view_operate_output (place : List Nat) (op : Operation) (s : σ) :
    (m.operate place op s : Effect (Happening α σ) σ).view Happening.output? id =
      (m op s).andThen fun r => .done r.2 :=
  Effect.view_andThen (view_doing_output op s) fun _ => rfl

/-- A speculation puts out what its opening, its body and its closing put out. -/
theorem view_speculate_output (place : List Nat) (name : String) (outcome : Option α)
    {body : σ → Effect (Happening α σ) σ} {ops : List Operation}
    (hbody : ∀ s, (body s).view Happening.output? id = m.performAll ops s) (s : σ) :
    (m.speculate place name outcome body s).view Happening.output? id =
      m.performAll
        (.openCheckpoint name :: (ops ++ [.close (Closing.ofOutcome outcome) name])) s := by
  refine Effect.view_andThen (view_doing_output (.openCheckpoint name) s) fun opened => ?_
  rw [performAll_append]
  refine Effect.view_andThen (hbody opened.2) fun s => ?_
  exact Effect.view_andThen (view_doing_output (.close (Closing.ofOutcome outcome) name) s)
    fun _ => rfl

end Machine

namespace Program

variable {α σ : Type} {m : Machine σ}

/-- Running a program is performing its operations one after another. -/
theorem view_run_operations (p : Program α) (place : List Nat) (n : Nat) (s : σ) :
    (p.run m place n s).view Happening.output? id = m.performAll p.operations s := by
  induction p generalizing place n s with
  | done => rfl
  | step op rest ih =>
    calc
      _ = ((m op s).andThen fun r => .done r.2).andThen (m.performAll rest.operations) :=
        Effect.view_andThen (Machine.view_operate_output (place ++ [n]) op s) fun s =>
          ih place (n + 1) s
      _ = m.performAll (op :: rest.operations) s := Effect.andThen_assoc _ _ _
  | speculate name outcome body rest ihBody ihRest =>
    have hbody := fun s => ihBody (place ++ [n]) 0 s
    calc
      _ = (m.performAll (.openCheckpoint name ::
              (body.operations ++ [.close (Closing.ofOutcome outcome) name])) s).andThen
            (m.performAll rest.operations) :=
        Effect.view_andThen (Machine.view_speculate_output (place ++ [n]) name outcome hbody s)
          fun s => ihRest place (n + 1) s
      _ = m.performAll (speculate name outcome body rest).operations s := by
        rw [← Machine.performAll_append]
        simp [operations]

theorem result_run (p : Program α) (place : List Nat) (n : Nat) (s : σ) :
    (p.run m place n s).result = (m.performAll p.operations s).result := by
  rw [← view_run_operations p place n s, Effect.result_view_id]

/-- A run fails where one of the operations fails, in a state that those before it lead to, and what
that operation puts out comes last. -/
theorem exists_of_run_error (p : Program α) {place : List Nat} {n : Nat} {s : σ} {v : Violation}
    (h : (p.run m place n s).result = .error v) :
    ∃ op t before, m.Reachable s t ∧ (m op t).result = .error v ∧
      (p.run m place n s).outputs.filterMap Happening.output? = before ++ (m op t).outputs := by
  rw [result_run] at h
  obtain ⟨op, t, before, ht, hfail, hout⟩ := Machine.exists_of_performAll_error .start h
  rw [← view_run_operations p place n s] at hout
  exact ⟨op, t, before, ht, hfail, hout⟩

end Program

end DiagnosticLog
