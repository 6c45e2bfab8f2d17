import DiagnosticLog.Context

/-!
Workers that report on their own. A worker has a name and an environment, and performs its steps on
one store, which it reaches on one of four routes: through the context of its thread, which every
step looks up anew; through a context of its own; or directly, with default settings or with those
of the environment. What is put out after the last step belongs to the release of a context.

A thread keeps its context in a cell. A call for the context borrows the cell until it returns, so a
call that is made from inside another one finds the cell lent and is refused.
-/

namespace DiagnosticLog

inductive Route
  | thread
  | context
  | defaultStore
  | configuredStore
  deriving DecidableEq, Repr

structure Worker where
  name : String
  environment : Option ByteArray

/-- Where a thread keeps its context, which is built on the first call. -/
inductive Cell
  | free (context : Option Context)
  | lent

namespace Cell

/-- Runs a body on the store of the context, unless the cell is lent, and tells whether it did. -/
def call {ω : Type} (w : Worker) (item : Output → ω) (body : Store → Effect ω Store) :
    Cell → Effect ω (Bool × Cell)
  | lent => return (false, lent)
  | free context => do
    let c := context.getD (Context.ofEnvironment w.name w.environment)
    let s ← c.start.mapOutputs item
    let s ← body s
    return (true, free (some { c with store := some s }))

/-- What is put out when the thread ends. -/
def release : Cell → List Output
  | lent => []
  | free context => (context.map Context.release).getD []

end Cell

/-- What a step works on that runs inside a call: the store, and the cell as the next call finds
it. -/
structure Loan where
  store : Store
  cell : Cell

/-- Performs an operation inside a call. A call back goes to the cell. -/
def Loan.perform (w : Worker) : Machine Loan
  | .reenter, loan => do
    let (made, cell) ← loan.cell.call w id Effect.done
    return (if made then .nothing else .refused, { loan with cell := cell })
  | op, loan => do
    let (answer, s) ← loan.store.perform op
    return (answer, { loan with store := s })

namespace Worker

variable {α : Type}

/-- Runs the steps on a store; each makes one turn. -/
def throughStore : List (Statement α) → Store → Effect (List (Happening α Store)) Store
  | [], s => .done s
  | statement :: rest, s => do
    let s ← (statement.run Store.perform [] s).bundled
    throughStore rest s

/-- Runs the steps on the store of a context. -/
def throughContext : List (Statement α) → Context → Effect (List (Happening α Store)) Context
  | [], c => .done c
  | statement :: rest, c => do
    let c ← (c.use statement).bundled
    throughContext rest c

/-- Runs a step on a store that comes out of the cell, which is lent meanwhile. -/
def lend (w : Worker) (statement : Statement α) (s : Store) : Effect (Happening α Store) Store := do
  let loan ← (statement.run (Loan.perform w) [] ⟨s, .lent⟩).mapOutputs
    (Happening.mapState Loan.store)
  return loan.store

/-- Runs the steps on the store of the thread's context, each in a call of its own. -/
def throughThread (w : Worker) : List (Statement α) → Cell →
    Effect (List (Happening α Store)) Cell
  | [], cell => .done cell
  | statement :: rest, cell => do
    let (_, cell) ← (cell.call w .output (w.lend statement)).bundled
    throughThread w rest cell

/-- Runs the steps, and gives what is put out afterwards. -/
def run (w : Worker) (route : Route) (steps : List (Statement α)) :
    Effect (List (Happening α Store)) (List Output) :=
  match route with
  | .thread => do
    let cell ← w.throughThread steps (.free none)
    return cell.release
  | .context => do
    let c ← throughContext steps (Context.ofEnvironment w.name w.environment)
    return c.release
  | .defaultStore => do
    let _ ← throughStore steps (.new .quiet)
    return []
  | .configuredStore => do
    let _ ← throughStore steps (.new (.ofEnvironment w.environment))
    return []

end Worker

end DiagnosticLog
