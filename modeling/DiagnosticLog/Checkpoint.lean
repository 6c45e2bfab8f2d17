/-!
Checkpoints. A checkpoint remembers under a name how high the log was when it was opened. They
nest: only the innermost one can be closed, and the caller has to name it. A name may be open more
than once.
-/

namespace DiagnosticLog

structure Checkpoint where
  id : String
  depth : Nat
  deriving DecidableEq, Repr

/-- The open checkpoints, and the name of the one that was committed last, which is empty before
the first commit. -/
structure Checkpoints where
  innermostFirst : List Checkpoint
  lastCommitted : String
  deriving DecidableEq, Repr

/-- Why a name is not that of the innermost checkpoint. -/
inductive TopMismatch
  | noneOpen
  | other (innermost : String)
  deriving DecidableEq, Repr

namespace Checkpoints

def empty : Checkpoints := ⟨[], ""⟩

def length (c : Checkpoints) : Nat := c.innermostFirst.length

def top? (c : Checkpoints) : Option Checkpoint := c.innermostFirst.head?

def isTop (c : Checkpoints) (id : String) : Bool := c.top?.any (·.id == id)

def push (id : String) (depth : Nat) (c : Checkpoints) : Checkpoints :=
  { c with innermostFirst := ⟨id, depth⟩ :: c.innermostFirst }

/-- The innermost checkpoint, provided that it has this name. -/
def expectTop (id : String) (c : Checkpoints) : Except TopMismatch Checkpoint :=
  match c.innermostFirst with
  | [] => .error .noneOpen
  | cp :: _ => if cp.id = id then .ok cp else .error (.other cp.id)

def pop (c : Checkpoints) : Option Checkpoint × Checkpoints :=
  match c.innermostFirst with
  | [] => (none, c)
  | cp :: outer => (some cp, { c with innermostFirst := outer })

def commit (c : Checkpoints) : Option Checkpoint × Checkpoints :=
  match c.innermostFirst with
  | [] => (none, c)
  | cp :: outer => (some cp, ⟨outer, cp.id⟩)

/-- The checkpoints with their positions, which count from the outermost. -/
def numbered : List Checkpoint → List (Nat × Checkpoint)
  | [] => []
  | cp :: outer => (outer.length, cp) :: numbered outer

end Checkpoints

end DiagnosticLog
