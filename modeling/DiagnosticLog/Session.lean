import DiagnosticLog.Context

/-!
Sessions with any number of contexts. A session has numbered slots, each of which holds a context
or has lost it, and serves requests to the slots one after another. All contexts write to the same
sink. Every request makes one turn of the session, and a violation ends the session in its turn.
-/

namespace DiagnosticLog

abbrev Slot := Option Context

/-- What can be asked of a slot. -/
inductive Action (α : Type)
  | use (statement : Statement α)
  | start
  | isStarted
  | drop
  | replace (name : String) (settings : Settings)

structure Request (α : Type) where
  slot : Nat
  action : Action α

/-- A turn, as what happens in it. A request that leaves no store to look at, or does not look at
it, finishes without a state. -/
abbrev Turn (α : Type) := List (Happening α (Option Store))

namespace Slot

variable {α : Type}

def release : Slot → List Output
  | none => []
  | some c => c.release

/-- Finishes a request in which this was put out. -/
def finish {β : Type} (outputs : List Output) (reply : Reply α) (state : Option Store) (b : β) :
    Effect (Happening α (Option Store)) β :=
  ⟨outputs.map .output ++ [.finished [] reply state], .ok b⟩

def act (action : Action α) (slot : Slot) : Effect (Happening α (Option Store)) Slot :=
  match action, slot with
  | .use statement, some c =>
    do
      let c ← (c.use statement).mapOutputs (Happening.mapState some)
      return some c
  | .start, some c =>
    do
      let s ← c.start.mapOutputs .output
      finish [] (.answer .nothing) (some s) (some { c with store := some s })
  | .isStarted, some c => finish [] (.context c.name c.isStarted) none (some c)
  | .drop, slot => finish (release slot) (.answer (.flag slot.isSome)) none none
  | .replace name settings, slot =>
    finish (release slot) (.answer .nothing) none (some (.new name settings))
  | _, none => finish [] .vacant none none

end Slot

structure Session where
  slots : List Slot

namespace Session

variable {α : Type}

/-- A session over these contexts. Without any, it has one that is called `main` and does not
echo. -/
def ofContexts : List Context → Session
  | [] => ⟨[some (.new "main" .quiet)]⟩
  | contexts => ⟨contexts.map some⟩

def serve (r : Request α) (s : Session) : Effect (Happening α (Option Store)) Session :=
  match s.slots[r.slot]? with
  | none => Slot.finish [] .vacant none s
  | some slot => do
    let slot ← slot.act r.action
    return ⟨s.slots.set r.slot slot⟩

def run : List (Request α) → Session → Effect (Turn α) Session
  | [], s => .done s
  | r :: rest, s => do
    let s ← (s.serve r).bundled
    run rest s

/-- The messages that are stored in each slot, where there is a store. -/
def stored (s : Session) : List (Option (List Message)) :=
  s.slots.map fun slot => (slot.bind Context.store).map fun store => store.log.messages

end Session

end DiagnosticLog
