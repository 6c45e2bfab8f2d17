import DiagnosticLog.Event

/-!
Computations that put out a sequence of items and end with a value or with a violation. What was
put out before a violation stays. Effects are composed as a monad, whose laws hold.
-/

namespace DiagnosticLog

/-- An item that a store puts out: a line for its sink, or an event. -/
inductive Output
  | line (text : String)
  | event (e : Event)
  deriving DecidableEq, Repr

def Output.line? : Output → Option String
  | line text => some text
  | event _ => none

def Output.event? : Output → Option Event
  | line _ => none
  | event e => some e

structure Effect (ω α : Type) where
  outputs : List ω
  result : Except Violation α

namespace Effect

variable {ω ω' α β : Type}

def done (a : α) : Effect ω α := ⟨[], .ok a⟩

def put (outputs : List ω) : Effect ω Unit := ⟨outputs, .ok ()⟩

/-- Puts out the items and ends with the violation. -/
def fail (outputs : List ω) (violation : Violation) : Effect ω α := ⟨outputs, .error violation⟩

def andThen (e : Effect ω α) (f : α → Effect ω β) : Effect ω β :=
  match e.result with
  | .ok a => ⟨e.outputs ++ (f a).outputs, (f a).result⟩
  | .error v => ⟨e.outputs, .error v⟩

instance : Monad (Effect ω) where
  pure := done
  bind := andThen

/-- The same computation with every item changed by a function. -/
def mapOutputs (f : ω → ω') (e : Effect ω α) : Effect ω' α := ⟨e.outputs.map f, e.result⟩

/-- The same computation with all that it puts out as one item. -/
def bundled (e : Effect ω α) : Effect (List ω) α := ⟨[e.outputs], e.result⟩

theorem bind_eq (e : Effect ω α) (f : α → Effect ω β) : e >>= f = e.andThen f := rfl

theorem pure_eq (a : α) : (pure a : Effect ω α) = done a := rfl

@[simp] theorem done_andThen (a : α) (f : α → Effect ω β) : (done a).andThen f = f a := rfl

@[simp] theorem put_andThen (outputs : List ω) (f : Unit → Effect ω β) :
    (put outputs).andThen f = ⟨outputs ++ (f ()).outputs, (f ()).result⟩ := rfl

instance : LawfulMonad (Effect ω) := LawfulMonad.mk' (Effect ω)
  (by
    intro α e
    obtain ⟨outputs, result⟩ := e
    cases result <;> simp [Functor.map, andThen, done])
  (by intro α β a f; rfl)
  (by
    intro α β γ e f g
    obtain ⟨outputs, result⟩ := e
    cases result with
    | error v => rfl
    | ok a =>
      simp only [bind_eq, andThen]
      cases (f a).result <;> simp)

theorem andThen_of_ok {e : Effect ω α} {a : α} (h : e.result = .ok a) (f : α → Effect ω β) :
    e.andThen f = ⟨e.outputs ++ (f a).outputs, (f a).result⟩ := by
  simp [andThen, h]

theorem andThen_of_error {e : Effect ω α} {v : Violation} (h : e.result = .error v)
    (f : α → Effect ω β) : e.andThen f = ⟨e.outputs, .error v⟩ := by
  simp [andThen, h]

theorem filterMap_outputs_andThen (g : ω → Option ω') {e : Effect ω α} {a : α}
    (h : e.result = .ok a) (f : α → Effect ω β) :
    (e.andThen f).outputs.filterMap g = e.outputs.filterMap g ++ (f a).outputs.filterMap g := by
  rw [andThen_of_ok h, List.filterMap_append]

theorem andThen_done (e : Effect ω α) (f : α → β) :
    (e.andThen fun a => .done (f a)) = ⟨e.outputs, e.result.map f⟩ := by
  obtain ⟨outputs, result⟩ := e
  cases result <;> simp [andThen, done, Except.map]

theorem result_of_toOption {e : Effect ω α} {a : α} (h : e.result.toOption = some a) :
    e.result = .ok a := by
  obtain ⟨outputs, result⟩ := e
  cases result with
  | error v => cases h
  | ok b => exact congrArg Except.ok (Option.some.inj h)

/-- A computation ends with a value exactly if each of its two parts does. -/
theorem result_andThen_eq_ok_iff {e : Effect ω α} {f : α → Effect ω β} {b : β} :
    (e.andThen f).result = .ok b ↔ ∃ a, e.result = .ok a ∧ (f a).result = .ok b := by
  obtain ⟨outputs, result⟩ := e
  cases result <;> simp [andThen]

end Effect

end DiagnosticLog
