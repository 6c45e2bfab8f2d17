import DiagnosticLog.Checkpoint

/-!
Misuse of the checkpoints. Closing a checkpoint that is not the innermost one, or popping an empty
log, is a mistake of the caller from which there is no way on.
-/

namespace DiagnosticLog

/-- The ways to close a checkpoint. -/
inductive Closing
  | commit
  | rollBack
  | rollBackPrinting
  deriving DecidableEq, Repr

def Closing.name : Closing → String
  | .commit => "delete checkpoint"
  | .rollBack => "rollback"
  | .rollBackPrinting => "rollback and print"

inductive Violation
  | notInnermost (closing : Closing) (requested innermost : String)
  | noCheckpoint (closing : Closing) (requested : String)
  | emptyLog
  deriving DecidableEq, Repr

namespace Violation

def ofMismatch (closing : Closing) (requested : String) : TopMismatch → Violation
  | .noneOpen => noCheckpoint closing requested
  | .other innermost => notInnermost closing requested innermost

def message : Violation → String
  | notInnermost closing requested innermost =>
    closing.name ++ " called with id '" ++ requested ++ "' but top of checkpoint stack has id '" ++
      innermost ++ "'"
  | noCheckpoint closing requested =>
    closing.name ++ " called with id '" ++ requested ++ "' on empty checkpoint stack"
  | emptyLog => "pop called on empty diagnostic stack"

end Violation

end DiagnosticLog
