import DiagnosticLog.Session

/-!
The host of a session. It has the variable of the environment that can switch echoing on. The
variable may change at any time, also in the middle of a statement. A context that is built without
settings of its own takes them from the variable as it is at that moment, and nothing looks at the
variable again.
-/

namespace DiagnosticLog

def Operation.environmentAfter (environment : Option ByteArray) : Operation → Option ByteArray
  | changeEnvironment value => value
  | _ => environment

def Program.environmentAfter {α : Type} : Program α → Option ByteArray → Option ByteArray
  | done, environment => environment
  | step op rest, environment => rest.environmentAfter (op.environmentAfter environment)
  | speculate _ _ body rest, environment =>
    rest.environmentAfter (body.environmentAfter environment)

def Statement.environmentAfter {α : Type} (environment : Option ByteArray) :
    Statement α → Option ByteArray
  | operation op => op.environmentAfter environment
  | speculate _ _ body => body.environmentAfter environment

/-- What a host is called for. -/
inductive Call (α : Type)
  | request (r : Request α)
  /-- Puts a new context into a slot, which takes its settings from the environment. -/
  | build (slot : Nat) (name : String)

structure Host where
  environment : Option ByteArray
  session : Session

namespace Host

variable {α : Type}

/-- What the session is asked for. -/
def requested (h : Host) : Call α → Request α
  | .request r => r
  | .build slot name => ⟨slot, .replace name (.ofEnvironment h.environment)⟩

/-- The variable after a request. A statement has no effect on it if there is no context to run
it. -/
def environmentAfter (r : Request α) (h : Host) : Option ByteArray :=
  match r.action, h.session.slots[r.slot]? with
  | .use statement, some (some _) => statement.environmentAfter h.environment
  | _, _ => h.environment

def serve (c : Call α) (h : Host) : Effect (Happening α (Option Store)) Host := do
  let session ← h.session.serve (h.requested c)
  return ⟨h.environmentAfter (h.requested c), session⟩

def run : List (Call α) → Host → Effect (Turn α) Host
  | [], h => .done h
  | c :: rest, h => do
    let h ← (h.serve c).bundled
    run rest h

section Run

variable {c : Call α} {rest : List (Call α)} {h k : Host} {v : Violation}

theorem serve_eq (c : Call α) (h : Host) :
    h.serve c = ⟨(h.session.serve (h.requested c)).outputs,
      (h.session.serve (h.requested c)).result.map fun session =>
        ⟨h.environmentAfter (h.requested c), session⟩⟩ :=
  Effect.andThen_done _ _

theorem run_cons_of_ok (hc : (h.serve c).result = .ok k) :
    run (c :: rest) h = ⟨(h.serve c).outputs :: (run rest k).outputs, (run rest k).result⟩ := by
  have hbundled : (h.serve c).bundled.result = .ok k := hc
  rw [run, Effect.bind_eq, Effect.andThen_of_ok hbundled]
  rfl

theorem run_cons_of_error (hc : (h.serve c).result = .error v) :
    run (c :: rest) h = ⟨[(h.serve c).outputs], .error v⟩ := by
  have hbundled : (h.serve c).bundled.result = .error v := hc
  rw [run, Effect.bind_eq, Effect.andThen_of_error hbundled]
  rfl

end Run

end Host

end DiagnosticLog
