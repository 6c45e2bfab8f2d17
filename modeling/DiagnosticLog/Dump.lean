import DiagnosticLog.Log
import DiagnosticLog.Violation

/-!
The report on a violation. It has two lines of heading and then a line for every open checkpoint,
innermost first, with the short texts of the messages recorded under it. A message belongs to the
innermost checkpoint that it lies above; a checkpoint deeper than the messages that are left to
cover has none.
-/

namespace DiagnosticLog

/-- What the report says about one checkpoint. -/
structure DumpEntry where
  position : Nat
  checkpoint : Checkpoint
  texts : List String
  deriving DecidableEq, Repr

namespace Dump

/-- The entries for these checkpoints, given innermost first, and the oldest `covered` of the
messages, which are given oldest first. -/
def entriesBelow (messages : List Message) (covered : Nat) : List Checkpoint → List DumpEntry
  | [] => []
  | cp :: outer =>
    let depth := min cp.depth covered
    let texts := ((messages.drop depth).take (covered - depth)).map Message.shortText
    ⟨outer.length, cp, texts⟩ :: entriesBelow messages depth outer

def entries (checkpoints : List Checkpoint) (messages : List Message) : List DumpEntry :=
  entriesBelow messages messages.length checkpoints

/-- Positions are set flush right in five columns. -/
def positionText (n : Nat) : String := String.ofList (List.leftpad 5 ' ' n.repr.toList)

def entryLine (e : DumpEntry) : String :=
  positionText e.position ++ " " ++ e.checkpoint.id ++ " (depth " ++ e.checkpoint.depth.repr ++
    ")   message: " ++ " ".intercalate e.texts

def lines (violation : Violation) (checkpoints : List Checkpoint) (messages : List Message) :
    List String :=
  ("protocol violation: " ++ violation.message) :: "Current Stack:" ::
    (entries checkpoints messages).map entryLine

end Dump

end DiagnosticLog
