import DiagnosticLog.Program

/-!
Runs of programs on any machine. A machine can be viewed as another one, by a function on the
states and a filter on what is put out; if the view holds of each operation, it holds of every run,
nested speculations included (`Program.view_run`). A property that each operation keeps holds at
every point of a run (`Machine.Keeps.run`); the operation may be assumed to be one that the program
uses, and the state that it leads to may be assumed to be as it is at all points of the run.
-/

namespace DiagnosticLog

namespace Effect

variable {ω ω' α β γ δ σ : Type}

/-- What is seen of a computation through a filter on its items and a function on its value. -/
def view (g : ω → Option ω') (f : α → β) (e : Effect ω α) : Effect ω' β :=
  ⟨e.outputs.filterMap g, e.result.map f⟩

@[simp] theorem view_fail (g : ω → Option ω') (f : α → β) (outputs : List ω) (v : Violation) :
    (fail outputs v : Effect ω α).view g f = fail (outputs.filterMap g) v := rfl

theorem result_view_eq_ok {g : ω → Option ω'} {f : α → β} {e : Effect ω α} {b : β}
    (h : (e.view g f).result = .ok b) : ∃ a, e.result = .ok a ∧ f a = b := by
  obtain ⟨outputs, result⟩ := e
  cases result with
  | error v => cases h
  | ok a => exact ⟨a, rfl, Except.ok.inj h⟩

/-- The view of a sequence of two computations, from the views of both. -/
theorem view_andThen {g : ω → Option ω'} {f : α → β} {h : γ → δ} {e : Effect ω α}
    {e' : Effect ω' β} {k : α → Effect ω γ} {k' : β → Effect ω' δ}
    (he : e.view g f = e') (hk : ∀ a, (k a).view g h = k' (f a)) :
    (e.andThen k).view g h = e'.andThen k' := by
  subst he
  obtain ⟨outputs, result⟩ := e
  cases result with
  | error v => rfl
  | ok a => simp [andThen, view, ← hk, Except.map]

/-- Two sequences look the same if their first parts do, and their second parts do after values that
look the same. -/
theorem view_andThen_congr {g : ω → Option ω'} {f : α → β} {h : γ → δ} {e e' : Effect ω α}
    {k k' : α → Effect ω γ} (he : e.view g f = e'.view g f)
    (hk : ∀ a a', f a = f a' → (k a).view g h = (k' a').view g h) :
    (e.andThen k).view g h = (e'.andThen k').view g h := by
  have houtputs : e.outputs.filterMap g = e'.outputs.filterMap g := congrArg outputs he
  have hresult : e.result.map f = e'.result.map f := congrArg result he
  cases hr : e.result with
  | error v =>
    cases hr' : e'.result with
    | error v' =>
      simp only [hr, hr', Except.map, Except.error.injEq] at hresult
      simp only [andThen_of_error hr, andThen_of_error hr', view, houtputs, hresult, Except.map]
    | ok a' => simp [hr, hr', Except.map] at hresult
  | ok a =>
    cases hr' : e'.result with
    | error v' => simp [hr, hr', Except.map] at hresult
    | ok a' =>
      simp only [hr, hr', Except.map, Except.ok.injEq] at hresult
      have hrest := hk a a' hresult
      simp only [view, mk.injEq] at hrest
      simp only [andThen_of_ok hr, andThen_of_ok hr', view, List.filterMap_append, houtputs,
        hrest.1, hrest.2]

end Effect

namespace Happening

variable {α σ τ : Type}

def view (g : Output → Option Output) (f : σ → τ) : Happening α σ → Option (Happening α τ)
  | output o => (g o).map output
  | finished place reply state => some (finished place reply (f state))

/-- The state after the step, if this is the end of a step. -/
def state? : Happening α σ → Option σ
  | output _ => none
  | finished _ _ state => some state

end Happening

/-- The states that a run records, one for each step that finishes. -/
def Effect.states {α β σ : Type} (e : Effect (Happening α σ) β) : List σ :=
  e.outputs.filterMap Happening.state?

namespace Effect

variable {α β γ σ : Type}

theorem states_view {τ : Type} (g : Output → Option Output) (f : σ → τ) (h : β → γ)
    (e : Effect (Happening α σ) β) :
    (e.view (Happening.view g f) h).states = e.states.map f := by
  obtain ⟨outputs, result⟩ := e
  induction outputs with
  | nil => rfl
  | cons o rest ih =>
    simp only [states, view, List.filterMap_cons] at ih ⊢
    cases o with
    | output o =>
      cases ho : g o <;> simp [Happening.view, Happening.state?, List.filterMap_cons, ho, ih]
    | finished place reply state => simp [Happening.view, Happening.state?, ih]

theorem view_mapOutputs {τ : Type} (g : Output → Option Output) (f : σ → τ) (h : β → γ)
    (e : Effect Output β) :
    (e.mapOutputs (.output : Output → Happening α σ)).view (Happening.view g f) h =
      (e.view g h).mapOutputs .output := by
  simp only [view, mapOutputs, List.filterMap_map, List.map_filterMap]
  rfl

theorem mem_states_andThen {e : Effect (Happening α σ) β} {k : β → Effect (Happening α σ) γ}
    {t : σ} :
    t ∈ (e.andThen k).states ↔ t ∈ e.states ∨ ∃ b, e.result = .ok b ∧ t ∈ (k b).states := by
  obtain ⟨outputs, result⟩ := e
  cases result <;> simp [andThen, states]

@[simp] theorem states_mapOutputs (e : Effect Output β) :
    (e.mapOutputs (.output : Output → Happening α σ)).states = [] := by
  simp [states, mapOutputs, Happening.state?, Function.comp_def]

end Effect

namespace Machine

variable {α σ τ : Type} {m : Machine σ} {m' : Machine τ} {g : Output → Option Output} {f : σ → τ}

theorem view_doing (h : ∀ op s, (m op s).view g (Prod.map id f) = m' op (f s)) (op : Operation)
    (s : σ) :
    (m.doing op s).view (Happening.view g f : Happening α σ → Option (Happening α τ))
      (Prod.map id f) = m'.doing op (f s) := by
  rw [doing, doing, ← h, Effect.view_mapOutputs]

theorem view_operate (h : ∀ op s, (m op s).view g (Prod.map id f) = m' op (f s))
    (place : List Nat) (op : Operation) (s : σ) :
    (m.operate place op s).view (Happening.view g f : Happening α σ → Option (Happening α τ)) f =
      m'.operate place op (f s) :=
  Effect.view_andThen (view_doing h op s) fun _ => rfl

theorem view_speculate (h : ∀ op s, (m op s).view g (Prod.map id f) = m' op (f s))
    (place : List Nat) (name : String) (outcome : Option α) {body : σ → Effect (Happening α σ) σ}
    {body' : τ → Effect (Happening α τ) τ}
    (hbody : ∀ s, (body s).view (Happening.view g f) f = body' (f s)) (s : σ) :
    (m.speculate place name outcome body s).view (Happening.view g f) f =
      m'.speculate place name outcome body' (f s) := by
  refine Effect.view_andThen (view_doing h (.openCheckpoint name) s) fun opened => ?_
  refine Effect.view_andThen (hbody opened.2) fun s => ?_
  exact Effect.view_andThen (view_doing h (.close (Closing.ofOutcome outcome) name) s) fun _ => rfl

end Machine

/-- A view of the operations is a view of the runs. -/
theorem Program.view_run {α σ τ : Type} {m : Machine σ} {m' : Machine τ}
    {g : Output → Option Output} {f : σ → τ}
    (h : ∀ op s, (m op s).view g (Prod.map id f) = m' op (f s)) (p : Program α)
    (place : List Nat) (n : Nat) (s : σ) :
    (p.run m place n s).view (Happening.view g f) f = p.run m' place n (f s) := by
  induction p generalizing place n s with
  | done => rfl
  | step op rest ih =>
    refine Effect.view_andThen (Machine.view_operate h (place ++ [n]) op s) fun s => ?_
    exact ih place (n + 1) s
  | speculate name outcome body rest ihBody ihRest =>
    have hbody := fun s => ihBody (place ++ [n]) 0 s
    refine Effect.view_andThen (Machine.view_speculate h _ name outcome hbody s) fun s => ?_
    exact ihRest place (n + 1) s

/-- The states that a machine can come to, one operation after another. -/
inductive Machine.Reachable {σ : Type} (m : Machine σ) (start : σ) : σ → Prop
  | start : Reachable m start start
  | step {op : Operation} {s s' : σ} {a : Answer} (hs : Reachable m start s)
      (h : (m op s).result = .ok (a, s')) : Reachable m start s'

/-- Every operation that the program performs on its own account is of a kind. -/
def Program.Uses {α : Type} (P : Operation → Prop) : Program α → Prop
  | done => True
  | step op rest => P op ∧ rest.Uses P
  | speculate _ _ body rest => body.Uses P ∧ rest.Uses P

/-- An invariant of the operations of a kind. It may be lost in states outside `C`, but opening a
checkpoint does not lead there. -/
structure Machine.Keeps {σ : Type} (m : Machine σ) (P : Operation → Prop) (C I : σ → Prop) :
    Prop where
  opens : ∀ id, P (.openCheckpoint id)
  closes : ∀ how id, P (.close how id)
  perform : ∀ {op s a s'}, P op → I s → (m op s).result = .ok (a, s') → C s' → I s'
  inside : ∀ {id s a s'}, I s → (m (.openCheckpoint id) s).result = .ok (a, s') → C s'

namespace Effect

variable {α σ : Type} {I : σ → Prop}

/-- The property holds of every state that a run records, and of the state that it ends in. -/
def Throughout (I : σ → Prop) (e : Effect (Happening α σ) σ) : Prop :=
  (∀ t ∈ e.states, I t) ∧ ∀ t, e.result = .ok t → I t

theorem throughout_andThen {β : Type} {e : Effect (Happening α σ) β}
    {k : β → Effect (Happening α σ) σ} (he : ∀ t ∈ e.states, I t)
    (hk : ∀ b, e.result = .ok b → (k b).Throughout I) : (e.andThen k).Throughout I := by
  constructor
  · intro t ht
    rcases mem_states_andThen.1 ht with ht | ⟨b, hb, ht⟩
    · exact he t ht
    · exact (hk b hb).1 t ht
  · intro t ht
    obtain ⟨b, hb, ht⟩ := result_andThen_eq_ok_iff.1 ht
    exact (hk b hb).2 t ht

theorem mem_states_finish {place : List Nat} {reply : Reply α} {s t : σ} :
    t ∈ (Machine.finish place reply s).states ↔ t = s := by
  simp [Machine.finish, states, Happening.state?]

theorem throughout_finish {place : List Nat} {reply : Reply α} {s : σ} (h : I s) :
    (Machine.finish place reply s).Throughout I := by
  constructor
  · intro t ht
    rw [mem_states_finish.1 ht]
    exact h
  · intro t ht
    cases ht
    exact h

end Effect

namespace Machine

variable {α σ : Type} {m : Machine σ} {P : Operation → Prop} {C I : σ → Prop}

theorem Keeps.operate (hm : m.Keeps P C I) {place : List Nat} {op : Operation} {s : σ}
    (hop : P op) (hs : I s)
    (hC : ∀ t ∈ (m.operate place op s : Effect (Happening α σ) σ).states, C t) :
    (m.operate place op s : Effect (Happening α σ) σ).Throughout I := by
  refine Effect.throughout_andThen (by simp [doing]) fun r hr => ?_
  have hmem : r.2 ∈ (m.operate place op s : Effect (Happening α σ) σ).states :=
    Effect.mem_states_andThen.2 (Or.inr ⟨r, hr, Effect.mem_states_finish.2 rfl⟩)
  exact Effect.throughout_finish (hm.perform hop hs hr (hC _ hmem))

theorem Keeps.speculate (hm : m.Keeps P C I) {place : List Nat} {id : String}
    {outcome : Option α} {body : σ → Effect (Happening α σ) σ} {s : σ} (hs : I s)
    (hbody : ∀ s, I s → (∀ t ∈ (body s).states, C t) → (body s).Throughout I)
    (hC : ∀ t ∈ (m.speculate place id outcome body s).states, C t) :
    (m.speculate place id outcome body s).Throughout I := by
  refine Effect.throughout_andThen (by simp [doing]) fun opened hopened => ?_
  have hinside : I opened.2 := hm.perform (hm.opens id) hs hopened (hm.inside hs hopened)
  have hrest : ∀ t ∈ ((body opened.2).andThen fun s =>
      (m.doing (.close (Closing.ofOutcome outcome) id) s).andThen fun r =>
        finish place (.outcome outcome) r.2).states, C t := fun t ht =>
    hC t (Effect.mem_states_andThen.2 (Or.inr ⟨opened, hopened, ht⟩))
  have hdone := hbody opened.2 hinside fun t ht =>
    hrest t (Effect.mem_states_andThen.2 (Or.inl ht))
  refine Effect.throughout_andThen hdone.1 fun s' hs' => ?_
  refine Effect.throughout_andThen (by simp [doing]) fun closed hclosed => ?_
  have hCclosed : C closed.2 := hrest _ (Effect.mem_states_andThen.2 (Or.inr ⟨s', hs',
    Effect.mem_states_andThen.2 (Or.inr ⟨closed, hclosed, Effect.mem_states_finish.2 rfl⟩)⟩))
  exact Effect.throughout_finish (hm.perform (hm.closes _ id) (hdone.2 s' hs') hclosed hCclosed)

/-- What the operations keep, a run keeps at every point. -/
theorem Keeps.run (hm : m.Keeps P C I) {p : Program α} (hp : p.Uses P) {place : List Nat} {n : Nat}
    {s : σ} (hs : I s) (hC : ∀ t ∈ (p.run m place n s).states, C t) :
    (p.run m place n s).Throughout I := by
  induction p generalizing place n s with
  | done => exact ⟨by simp [Program.run, Effect.done, Effect.states],
      fun t ht => (show s = t by simpa [Program.run, Effect.done] using ht) ▸ hs⟩
  | step op rest ih =>
    have hfirst := hm.operate hp.1 hs fun t ht =>
      hC t (Effect.mem_states_andThen.2 (Or.inl ht))
    refine Effect.throughout_andThen hfirst.1 fun s' hs' => ih hp.2 (hfirst.2 s' hs') ?_
    exact fun t ht => hC t (Effect.mem_states_andThen.2 (Or.inr ⟨s', hs', ht⟩))
  | speculate id outcome body rest ihBody ihRest =>
    have hfirst := hm.speculate hs (fun s hs hC => ihBody hp.1 hs hC) fun t ht =>
      hC t (Effect.mem_states_andThen.2 (Or.inl ht))
    refine Effect.throughout_andThen hfirst.1 fun s' hs' => ihRest hp.2 (hfirst.2 s' hs') ?_
    exact fun t ht => hC t (Effect.mem_states_andThen.2 (Or.inr ⟨s', hs', ht⟩))

end Machine

namespace Program

variable {α σ : Type} {m : Machine σ} {I : σ → Prop}

theorem uses_true (p : Program α) : p.Uses fun _ => True := by
  induction p with
  | done => trivial
  | step op rest ih => exact ⟨trivial, ih⟩
  | speculate id outcome body rest ihBody ihRest => exact ⟨ihBody, ihRest⟩

/-- What every operation keeps, every run keeps at every point. -/
theorem throughout_run (h : ∀ {op s a s'}, I s → (m op s).result = .ok (a, s') → I s')
    (p : Program α) {place : List Nat} {n : Nat} {s : σ} (hs : I s) :
    (p.run m place n s).Throughout I := by
  have hkeeps : m.Keeps (fun _ => True) (fun _ => True) I :=
    ⟨fun _ => trivial, fun _ _ => trivial, fun _ hs hr _ => h hs hr, fun _ _ => trivial⟩
  exact hkeeps.run p.uses_true hs fun _ _ => trivial

/-- A run leads to reachable states only, also inside its speculations. -/
theorem reachable_of_mem_states (p : Program α) {place : List Nat} {n : Nat} {s t : σ}
    (ht : t ∈ (p.run m place n s).states) : m.Reachable s t := by
  have hrun : (p.run m place n s).Throughout (m.Reachable s) :=
    p.throughout_run (fun hs hr => hs.step hr) .start
  exact hrun.1 t ht

end Program

end DiagnosticLog
