import DiagnosticLog.Proofs.Echo
import DiagnosticLog.Worker

/-!
The route through the context of a thread leads where the route through a context of its own leads.
While a step runs, the cell of the thread is lent, so a call back is refused and touches nothing
(`perform_reenter_of_reachable`). For a step it makes no difference that its store comes out of the
cell (`lend_eq`), and the context that the first call builds is the one that the other route starts
with (`run_thread_eq`). Steps that call back can be left out of a run, wherever they stand; all that
is told of the other steps stays the same (`view_throughContext_withoutCalls`).
-/

namespace DiagnosticLog

namespace Loan

/-- A store, while the cell that it comes from is lent. -/
def ofStore (s : Store) : Loan := ⟨s, .lent⟩

theorem perform_reenter (w : Worker) (s : Store) :
    (ofStore s).perform w .reenter = .done (.refused, ofStore s) := rfl

theorem perform_of_ne (w : Worker) {op : Operation} (h : op ≠ .reenter) (loan : Loan) :
    loan.perform w op = (loan.store.perform op).andThen fun r =>
      .done (r.1, { loan with store := r.2 }) := by
  cases op with
  | reenter => exact absurd rfl h
  | _ => rfl

/-- Inside a call, an operation is performed as on the store alone. -/
theorem view_perform_ofStore (w : Worker) (op : Operation) (s : Store) :
    (s.perform op).view some (Prod.map id ofStore) = (ofStore s).perform w op := by
  by_cases hop : op = .reenter
  · subst hop
    rfl
  · rw [perform_of_ne w hop, Effect.andThen_done]
    exact Effect.ext List.filterMap_some rfl

theorem cell_of_perform {w : Worker} {op : Operation} {loan loan' : Loan} {a : Answer}
    (hloan : loan.cell = .lent) (h : (loan.perform w op).result = .ok (a, loan')) :
    loan'.cell = .lent := by
  obtain ⟨s, cell⟩ := loan
  obtain rfl : cell = .lent := hloan
  have hview : ((s.perform op).view some (Prod.map id ofStore)).result = .ok (a, loan') := by
    rw [view_perform_ofStore w]
    exact h
  obtain ⟨r, -, hr⟩ := Effect.result_view_eq_ok hview
  rw [← (Prod.mk.inj hr).2]
  rfl

/-- Whatever has been done inside a call, the next call is refused and changes nothing. -/
theorem perform_reenter_of_reachable {w : Worker} {s : Store} {loan : Loan}
    (h : Machine.Reachable (perform w) (ofStore s) loan) :
    loan.perform w .reenter = .done (.refused, loan) := by
  have hlent : loan.cell = .lent := by
    induction h with
    | start => rfl
    | step _ hperform ih => exact cell_of_perform ih hperform
  obtain ⟨t, cell⟩ := loan
  obtain rfl : cell = .lent := hlent
  exact perform_reenter w t

end Loan

theorem Statement.view_run {α σ τ : Type} {m : Machine σ} {m' : Machine τ}
    {g : Output → Option Output} {f : σ → τ}
    (h : ∀ op s, (m op s).view g (Prod.map id f) = m' op (f s)) (statement : Statement α)
    (place : List Nat) (s : σ) :
    (statement.run m place s).view (Happening.view g f) f = statement.run m' place (f s) := by
  cases statement with
  | operation op => exact Machine.view_operate h place op s
  | speculate name outcome body =>
    exact Machine.view_speculate h place name outcome (fun s => body.view_run h place 0 s) s

/-- A change of the states that can be taken back loses nothing of a run. -/
theorem Effect.mapState_view {α σ τ : Type} {f : σ → τ} {f' : τ → σ} (h : ∀ s, f' (f s) = s)
    (e : Effect (Happening α σ) σ) :
    (((e.view (Happening.view some f) f).mapOutputs (Happening.mapState f')).andThen fun t =>
      .done (f' t)) = e := by
  have hitem : ∀ x : Happening α σ, (x.view some f).map (Happening.mapState f') = some x := by
    intro x
    cases x with
    | output o => rfl
    | finished place reply s =>
      exact congrArg (fun t => some (Happening.finished place reply t)) (h s)
  obtain ⟨outputs, result⟩ := e
  rw [andThen_done]
  refine Effect.ext ?_ ?_
  · simp only [mapOutputs, view, List.map_filterMap, hitem, List.filterMap_some]
  · cases result with
    | error v => rfl
    | ok s => exact congrArg Except.ok (h s)

theorem Effect.bundled_andThen_done {ω α β : Type} (e : Effect ω α) (f : α → β) :
    (e.andThen fun a => .done (f a)).bundled = e.bundled.andThen fun a => .done (f a) := by
  rw [andThen_done, andThen_done]
  rfl

/-- Telling apart from the events and the refusals: the lines, and the other steps that finish, with
their replies and the states after them. -/
def Happening.told? {α σ : Type} : Happening α σ → Option (Happening α σ)
  | output (.line text) => some (output (.line text))
  | output (.event _) => none
  | finished _ (.answer .refused) _ => none
  | finished _ reply state => some (finished [] reply state)

/-- What is told of a turn, unless there is nothing to tell. -/
def Happening.toldTurn? {α σ : Type} (turn : List (Happening α σ)) :
    Option (List (Happening α σ)) :=
  match turn.filterMap told? with
  | [] => none
  | told => some told

theorem Effect.view_bundled_congr {α β γ σ : Type} {f : β → γ} {e e' : Effect (Happening α σ) β}
    (h : e.view Happening.told? f = e'.view Happening.told? f) :
    e.bundled.view Happening.toldTurn? f = e'.bundled.view Happening.toldTurn? f := by
  have houtputs : e.outputs.filterMap Happening.told? = e'.outputs.filterMap Happening.told? :=
    congrArg outputs h
  have hresult : e.result.map f = e'.result.map f := congrArg result h
  refine Effect.ext ?_ hresult
  simp only [view, bundled, List.filterMap_cons, Happening.toldTurn?, houtputs]

/-- A turn in which there is nothing to tell is left out. -/
theorem Effect.view_bundled_of_done {α β γ σ : Type} {f : β → γ} {e : Effect (Happening α σ) β}
    {b : γ} (h : e.view Happening.told? f = .done b) :
    e.bundled.view Happening.toldTurn? f = .done b := by
  have houtputs : e.outputs.filterMap Happening.told? = [] := congrArg outputs h
  have hresult : e.result.map f = .ok b := congrArg result h
  refine Effect.ext ?_ hresult
  simp only [view, bundled, List.filterMap_cons, Happening.toldTurn?, houtputs]
  rfl

namespace Program

variable {α : Type}

/-- The program without the steps that call back. -/
def withoutCalls : Program α → Program α
  | done => done
  | step .reenter rest => rest.withoutCalls
  | step op rest => step op rest.withoutCalls
  | speculate id outcome body rest => speculate id outcome body.withoutCalls rest.withoutCalls

theorem withoutCalls_step_of_ne {op : Operation} (h : op ≠ .reenter) (rest : Program α) :
    (step op rest).withoutCalls = step op rest.withoutCalls := by
  cases op with
  | reenter => exact absurd rfl h
  | _ => rfl

end Program

section Told

variable {α : Type}

theorem view_finish_told (reply : Reply α) (place place' : List Nat) (s : Store) :
    (Machine.finish place reply s).view Happening.told? id =
      (Machine.finish place' reply s).view Happening.told? id := by
  cases reply with
  | answer a => cases a <;> rfl
  | outcome _ | context _ _ | vacant => rfl

/-- The place of a step is not told. -/
theorem view_operate_told (op : Operation) (place place' : List Nat) (s : Store) :
    (Machine.operate Store.perform place op s :
        Effect (Happening α Store) Store).view Happening.told? id =
      (Machine.operate Store.perform place' op s).view Happening.told? id := by
  refine Effect.view_andThen_congr (f := id) rfl fun r r' hr => ?_
  obtain rfl : r = r' := hr
  exact view_finish_told (.answer r.1) place place' r.2

/-- Of a step that calls back nothing is told. -/
theorem view_operate_reenter (place : List Nat) (s : Store) :
    (Machine.operate Store.perform place .reenter s :
        Effect (Happening α Store) Store).view Happening.told? id = .done s := rfl

theorem view_speculate_told (place place' : List Nat) (name : String) (outcome : Option α)
    {body body' : Store → Effect (Happening α Store) Store}
    (hbody : ∀ s, (body s).view Happening.told? id = (body' s).view Happening.told? id)
    (s : Store) :
    (Machine.speculate Store.perform place name outcome body s).view Happening.told? id =
      (Machine.speculate Store.perform place' name outcome body' s).view Happening.told? id := by
  refine Effect.view_andThen_congr (f := id) rfl fun opened opened' hopened => ?_
  obtain rfl : opened = opened' := hopened
  refine Effect.view_andThen_congr (f := id) (hbody opened.2) fun t t' ht => ?_
  obtain rfl : t = t' := ht
  refine Effect.view_andThen_congr (f := id) rfl fun closed closed' hclosed => ?_
  obtain rfl : closed = closed' := hclosed
  exact view_finish_told (.outcome outcome) place place' closed.2

/-- Without the steps that call back, a run tells the same. -/
theorem view_run_withoutCalls (p : Program α) (place place' : List Nat) (n n' : Nat) (s : Store) :
    (p.run Store.perform place n s).view Happening.told? id =
      (p.withoutCalls.run Store.perform place' n' s).view Happening.told? id := by
  induction p generalizing place place' n n' s with
  | done => rfl
  | step op rest ih =>
    by_cases hop : op = .reenter
    · subst hop
      calc _ = (Effect.done s).andThen fun s =>
            (rest.run Store.perform place (n + 1) s).view Happening.told? id :=
          Effect.view_andThen (view_operate_reenter (place ++ [n]) s) fun _ => rfl
        _ = _ := ih place place' (n + 1) n' s
    · rw [Program.withoutCalls_step_of_ne hop]
      refine Effect.view_andThen_congr (f := id) (view_operate_told op _ _ s) fun t t' ht => ?_
      obtain rfl : t = t' := ht
      exact ih place place' (n + 1) (n' + 1) t
  | speculate name outcome body rest ihBody ihRest =>
    have hbody := fun s => ihBody (place ++ [n]) (place' ++ [n']) 0 0 s
    refine Effect.view_andThen_congr (f := id) (view_speculate_told _ _ name outcome hbody s)
      fun t t' ht => ?_
    obtain rfl : t = t' := ht
    exact ihRest place place' (n + 1) (n' + 1) t

end Told

/-- The steps without those that call back, the steps of speculations included. -/
def Statement.withoutCalls {α : Type} : List (Statement α) → List (Statement α)
  | [] => []
  | .operation .reenter :: rest => withoutCalls rest
  | .operation op :: rest => .operation op :: withoutCalls rest
  | .speculate id outcome body :: rest =>
    .speculate id outcome body.withoutCalls :: withoutCalls rest

theorem Statement.withoutCalls_operation_of_ne {α : Type} {op : Operation} (h : op ≠ .reenter)
    (rest : List (Statement α)) :
    withoutCalls (.operation op :: rest) = .operation op :: withoutCalls rest := by
  cases op with
  | reenter => exact absurd rfl h
  | _ => rfl

namespace Worker

variable {α : Type}

/-- For a step, a store out of the cell is like any other. -/
theorem lend_eq (w : Worker) (statement : Statement α) (s : Store) :
    w.lend statement s = statement.run Store.perform [] s := by
  have hrun := statement.view_run (Loan.view_perform_ofStore w) [] s
  calc w.lend statement s
      = ((statement.run (Loan.perform w) [] (Loan.ofStore s)).mapOutputs
          (Happening.mapState Loan.store)).andThen fun loan => .done loan.store := rfl
    _ = statement.run Store.perform [] s := by
      rw [← hrun]
      exact Effect.mapState_view (fun _ => rfl) _

/-- A call uses the context in the cell like one of its own, and builds it first if there is none. -/
theorem call_lend (w : Worker) (statement : Statement α) (context : Option Context) :
    (Cell.free context).call w .output (w.lend statement) =
      ((context.getD (.ofEnvironment w.name w.environment)).use statement).andThen fun c =>
        .done (true, .free (some c)) := by
  have hlend : w.lend statement = statement.run Store.perform [] :=
    funext fun s => w.lend_eq statement s
  rw [hlend]
  simp only [Cell.call, Context.use, Effect.bind_eq, Effect.pure_eq]
  rw [Effect.andThen_assoc]
  refine congrArg _ (funext fun s => ?_)
  rw [Effect.andThen_assoc]
  rfl

theorem throughThread_cons (w : Worker) (statement : Statement α) (rest : List (Statement α))
    (context : Option Context) :
    w.throughThread (statement :: rest) (.free context) =
      ((context.getD (.ofEnvironment w.name w.environment)).use statement).bundled.andThen fun c =>
        w.throughThread rest (.free (some c)) := by
  rw [throughThread, call_lend, Effect.bind_eq, Effect.bundled_andThen_done, Effect.andThen_assoc]
  rfl

theorem throughThread_some (w : Worker) (steps : List (Statement α)) (c : Context) :
    w.throughThread steps (.free (some c)) =
      (throughContext steps c).andThen fun c => .done (.free (some c)) := by
  induction steps generalizing c with
  | nil => rfl
  | cons statement rest ih =>
    rw [throughThread_cons, Option.getD_some, throughContext, Effect.bind_eq, Effect.andThen_assoc]
    exact congrArg _ (funext ih)

/-- The context that the first call builds is the one that the other route has from the start; if
there is no step, neither has anything to release. -/
theorem run_thread_eq (w : Worker) (steps : List (Statement α)) :
    w.run .thread steps = w.run .context steps := by
  cases steps with
  | nil => rfl
  | cons statement rest =>
    have hbuilt : w.throughThread (statement :: rest) (.free none) = w.throughThread
        (statement :: rest) (.free (some (.ofEnvironment w.name w.environment))) := by
      rw [throughThread_cons, throughThread_cons, Option.getD_none, Option.getD_some]
    simp only [run, Effect.bind_eq, hbuilt, throughThread_some, Effect.andThen_assoc]
    rfl

theorem view_use_told (statement : Statement α) (c : Context) :
    (c.use statement).view Happening.told? Context.current =
      (statement.run Store.perform [] c.current).view Happening.told? id := by
  have hstart : (c.start.mapOutputs (.output : Output → Happening α Store)).view
      Happening.told? id = .done c.current := by
    obtain ⟨name, settings, store⟩ := c
    cases store <;> rfl
  have hstore : ∀ s, ((statement.run Store.perform [] s).andThen fun s =>
      .done { c with store := some s }).view Happening.told? Context.current =
        (statement.run Store.perform [] s).view Happening.told? id := by
    intro s
    rw [Effect.andThen_done]
    refine Effect.ext rfl ?_
    simp only [Effect.view]
    cases (statement.run Store.perform [] s).result <;> rfl
  calc (c.use statement).view Happening.told? Context.current
      = (Effect.done c.current).andThen fun s =>
          (statement.run Store.perform [] s).view Happening.told? id :=
        Effect.view_andThen hstart hstore
    _ = (statement.run Store.perform [] c.current).view Happening.told? id := rfl

/-- Two contexts with the same store, there or about to be made, tell the same, and the steps that
call back can be left out. -/
theorem view_throughContext_withoutCalls (steps : List (Statement α)) {c c' : Context}
    (hc : c.current = c'.current) :
    (throughContext steps c).view Happening.toldTurn? Context.current =
      (throughContext (Statement.withoutCalls steps) c').view Happening.toldTurn?
        Context.current := by
  induction steps generalizing c c' with
  | nil => exact Effect.ext rfl (congrArg Except.ok hc)
  | cons statement rest ih =>
    have huse : ∀ statement' : Statement α,
        (∀ s, (statement.run Store.perform [] s).view Happening.told? id =
          (statement'.run Store.perform [] s).view Happening.told? id) →
        (throughContext (statement :: rest) c).view Happening.toldTurn? Context.current =
          (throughContext (statement' :: Statement.withoutCalls rest) c').view
            Happening.toldTurn? Context.current := by
      intro statement' hstatement
      have hsame : (c.use statement).view Happening.told? Context.current =
          (c'.use statement').view Happening.told? Context.current := by
        rw [view_use_told, view_use_told, hc, hstatement]
      exact Effect.view_andThen_congr (Effect.view_bundled_congr hsame) fun a a' ha => ih ha
    cases statement with
    | operation op =>
      by_cases hop : op = .reenter
      · subst hop
        have hsilent : (c.use (.operation .reenter : Statement α)).bundled.view
            Happening.toldTurn? Context.current =
              (Effect.done c').view Happening.toldTurn? Context.current := by
          refine Effect.view_bundled_of_done ?_
          rw [view_use_told, hc]
          exact view_operate_reenter [] c'.current
        exact Effect.view_andThen_congr hsilent fun a a' ha => ih ha
      · rw [Statement.withoutCalls_operation_of_ne hop]
        exact huse _ fun s => rfl
    | speculate name outcome body =>
      exact huse _ fun s => view_speculate_told [] [] name outcome
        (fun s => view_run_withoutCalls body [] [] 0 0 s) s

/-- A thread that makes each step in a call of its own gets the same replies, states, lines and events
as it would with a context of its own, and releases the same in the end. Calls back can be made from
inside the steps at any place: they are refused and change nothing, and what is told of all other
steps is what the context of its own tells, which is never called back. -/
theorem thread_agrees_with_context (w : Worker) (steps : List (Statement α)) :
    w.run .thread (Statement.withoutCalls steps) = w.run .context (Statement.withoutCalls steps) ∧
    (w.run .thread steps).view Happening.toldTurn? (fun _ => ()) =
      (w.run .context (Statement.withoutCalls steps)).view Happening.toldTurn? (fun _ => ()) ∧
    ∀ s loan, Machine.Reachable (Loan.perform w) ⟨s, .lent⟩ loan →
      loan.perform w .reenter = .done (.refused, loan) := by
  refine ⟨w.run_thread_eq _, ?_, fun s loan h => Loan.perform_reenter_of_reachable h⟩
  rw [run_thread_eq]
  exact Effect.view_andThen_congr (view_throughContext_withoutCalls steps rfl) fun _ _ _ => rfl

end Worker

end DiagnosticLog
