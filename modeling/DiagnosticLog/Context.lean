import DiagnosticLog.Program

/-!
Execution contexts. A context owns one store, which it creates when it is first used and releases
when it is dropped; its name and its settings are fixed before. A context that was never used has
nothing to release.
-/

namespace DiagnosticLog

structure Context where
  name : String
  settings : Settings
  store : Option Store
  deriving DecidableEq, Repr

namespace Context

variable {α : Type}

def new (name : String) (settings : Settings) : Context := ⟨name, settings, none⟩

/-- A context whose settings are read from the environment now. -/
def ofEnvironment (name : String) (environment : Option ByteArray) : Context :=
  new name (.ofEnvironment environment)

def isStarted (c : Context) : Bool := c.store.isSome

/-- The store of the context, which is created if there is none. -/
def start (c : Context) : Effect Output Store :=
  match c.store with
  | some s => .done s
  | none => ⟨[.event (.created c.name c.settings.echo)], .ok (.new c.settings)⟩

/-- Runs a statement on the store of the context. -/
def use (statement : Statement α) (c : Context) : Effect (Happening α Store) Context := do
  let s ← c.start.mapOutputs .output
  let s ← statement.run Store.perform [] s
  return { c with store := some s }

/-- What is put out when the context is dropped. -/
def release (c : Context) : List Output :=
  match c.store with
  | none => []
  | some s =>
    [.event (.released c.name s.log.length s.log.errorCount s.checkpoints.length)]

end Context

end DiagnosticLog
