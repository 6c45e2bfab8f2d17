import DiagnosticLog.Program

/-!
The plain store: what a store does, said without the log and its groups. It keeps the messages
oldest first in a bare list, cuts the list back to the depth of a checkpoint that is rolled back,
and empties it at once. What it hands over is written out here: the list, the rows, or a text that
is joined from the parts of the messages. It echoes and reports violations like a store, but has no
events to report about its own work.
-/

namespace DiagnosticLog

structure Plain where
  messages : List Message
  checkpoints : List Checkpoint
  lastCommitted : String
  focus : Focus
  echo : Bool
  deriving DecidableEq, Repr

namespace Plain

def new (settings : Settings) : Plain := ⟨[], [], "", .nowhere, settings.echo⟩

def push (m : Message) (p : Plain) : Effect Output (Answer × Plain) :=
  ⟨if p.echo then [.line m.fullText] else [],
    .ok (.nothing, { p with messages := p.messages ++ [m] })⟩

/-- What drained messages are handed over as. -/
def handOver (ms : List Message) : DrainForm → Answer
  | .messages => .messages ms
  | .rows => .rows (ms.map Row.ofMessage)
  | .document =>
    .text ("[\n" ++ ",\n".intercalate (ms.map fun m => Document.item (Row.ofMessage m)) ++ "\n]\n")
  | .allTexts => .text ("\n".intercalate (ms.map Message.fullText))
  | .errorTexts =>
    .text ("\n".intercalate ((ms.filter fun m => m.severity = .error).map Message.fullText))

def fail {α : Type} (violation : Violation) (p : Plain) : Effect Output α :=
  .fail ((Dump.lines violation p.checkpoints p.messages).map .line) violation

/-- Closes the innermost checkpoint, which is `cp` in front of `outer`. -/
def closeTop (how : Closing) (cp : Checkpoint) (outer : List Checkpoint) (p : Plain) :
    Answer × Plain :=
  match how with
  | .commit => (.nothing, { p with checkpoints := outer, lastCommitted := cp.id })
  | .rollBack =>
    (.nothing, { p with checkpoints := outer, messages := p.messages.take cp.depth })
  | .rollBackPrinting =>
    (.text ("\n".intercalate ((p.messages.drop cp.depth).map Message.fullText)),
      { p with checkpoints := outer, messages := p.messages.take cp.depth })

def close (how : Closing) (id : String) (p : Plain) : Effect Output (Answer × Plain) :=
  match p.checkpoints with
  | [] => p.fail (.noCheckpoint how id)
  | cp :: outer =>
    if cp.id = id then .done (p.closeTop how cp outer) else p.fail (.notInnermost how id cp.id)

def perform (op : Operation) (p : Plain) : Effect Output (Answer × Plain) :=
  match op with
  | .focusOn name location =>
    let f := Focus.on name location
    .done (.focus f, { p with focus := f })
  | .currentFocus => .done (.focus p.focus, p)
  | .report d => p.push (p.focus.message d)
  | .reportAt d location => p.push (Message.ofDraft d (some location))
  | .push m => p.push m
  | .setEcho echo => .done (.nothing, { p with echo := echo })
  | .openCheckpoint id =>
    .done (.nothing, { p with checkpoints := ⟨id, p.messages.length⟩ :: p.checkpoints })
  | .isInnermost id => .done (.flag (p.checkpoints.head?.any (·.id == id)), p)
  | .close how id => p.close how id
  | .peek => .done (.messages p.messages, p)
  | .drain form => .done (handOver p.messages form, { p with messages := [] })
  | .clear => .done (.nothing, { p with messages := [] })
  | .changeEnvironment _ => .done (.nothing, p)
  | .reenter => .done (.refused, p)

end Plain

end DiagnosticLog
