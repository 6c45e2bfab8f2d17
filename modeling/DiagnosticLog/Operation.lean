import DiagnosticLog.Document
import DiagnosticLog.Store

/-!
The operations that a store offers, and their answers. All ways of taking the messages out share
one operation and differ in the form in which the messages are handed over.
-/

namespace DiagnosticLog

/-- What the drained messages are handed over as. -/
inductive DrainForm
  | messages
  | rows
  | document
  | allTexts
  | errorTexts
  deriving DecidableEq, Repr

/-- Fixes the instance by which the values of variables are compared; libraries add another. -/
instance decidableEqByteArray : DecidableEq ByteArray := ByteArray.instDecidableEq

inductive Operation
  | focusOn (name : String) (location : Location)
  | currentFocus
  | report (d : Draft)
  | reportAt (d : Draft) (location : Location)
  | push (m : Message)
  | setEcho (echo : Bool)
  | openCheckpoint (id : String)
  | isInnermost (id : String)
  | close (how : Closing) (id : String)
  | peek
  | drain (form : DrainForm)
  | clear
  /-- The environment changes; a store has read it before and does not look again. -/
  | changeEnvironment (value : Option ByteArray)
  /-- A call back into a store that is in use, which is refused. -/
  | reenter
  deriving DecidableEq

inductive Answer
  | nothing
  | flag (value : Bool)
  | text (value : String)
  | messages (list : List Message)
  | rows (list : List Row)
  | focus (value : Focus)
  | refused
  deriving DecidableEq, Repr

def DrainForm.present (drained : List Message) : DrainForm → Answer
  | messages => .messages drained
  | rows => .rows (drained.map Row.ofMessage)
  | document => .text (Document.ofMessages drained)
  | allTexts => .text (Store.fullTexts drained)
  | errorTexts => .text (Store.fullTexts (drained.filter Message.isError))

namespace Store

/-- Closes a checkpoint in one of the three ways. -/
def close (how : Closing) (id : String) (s : Store) : Effect Output (Answer × Store) :=
  match how with
  | .commit => do
    let s ← s.commit id
    return (.nothing, s)
  | .rollBack => do
    let (_, s) ← s.rollBack .rollBack id
    return (.nothing, s)
  | .rollBackPrinting => do
    let (discarded, s) ← s.rollBack .rollBackPrinting id
    return (.text (fullTexts discarded), s)

def perform (op : Operation) (s : Store) : Effect Output (Answer × Store) :=
  match op with
  | .focusOn name location =>
    let s := s.focusOn name location
    return (.focus s.focus, s)
  | .currentFocus => return (.focus s.focus, s)
  | .report d => do
    let s ← s.report d
    return (.nothing, s)
  | .reportAt d location => do
    let s ← s.reportAt d location
    return (.nothing, s)
  | .push m => do
    let s ← s.push m
    return (.nothing, s)
  | .setEcho echo => return (.nothing, s.setEcho echo)
  | .openCheckpoint id => do
    let s ← s.openCheckpoint id
    return (.nothing, s)
  | .isInnermost id => return (.flag (s.checkpoints.isTop id), s)
  | .close how id => s.close how id
  | .peek => return (.messages s.log.messages, s)
  | .drain form => do
    let (drained, s) ← s.emptyLog .drain
    return (form.present drained, s)
  | .clear => do
    let (_, s) ← s.emptyLog .clear
    return (.nothing, s)
  | .changeEnvironment _ => return (.nothing, s)
  | .reenter => return (.refused, s)

end Store

end DiagnosticLog
