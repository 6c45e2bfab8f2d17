import DiagnosticLog.Program

/-!
The happenings of a run, told step by step: every finished step together with what was put out
since the step that finished before it. What was put out after the last finished step is left over.
-/

namespace DiagnosticLog

structure Entry (α σ : Type) where
  place : List Nat
  reply : Reply α
  state : σ
  outputs : List Output

namespace Transcript

variable {α σ : Type}

/-- The entries of a run, where `pending` was put out before it. -/
def entriesFrom (pending : List Output) : List (Happening α σ) → List (Entry α σ) × List Output
  | [] => ([], pending)
  | .output o :: rest => entriesFrom (pending ++ [o]) rest
  | .finished place reply state :: rest =>
    let (entries, left) := entriesFrom [] rest
    (⟨place, reply, state, pending⟩ :: entries, left)

def entries (happenings : List (Happening α σ)) : List (Entry α σ) × List Output :=
  entriesFrom [] happenings

def lines (outputs : List Output) : List String := outputs.filterMap Output.line?

def events (outputs : List Output) : List Event := outputs.filterMap Output.event?

end Transcript

end DiagnosticLog
