import DiagnosticLog.Operation

/-!
Programs over a store: operations one after another, and speculations, which run a program of their
own under a checkpoint. A speculation with an outcome commits what it reported, one without
discards it; either way the checkpoint is closed by its name, whatever is innermost by then.

A program runs on any machine that performs the operations. What happens in a run is recorded in
order: what the machine puts out, and the steps that finish, each with its place, its reply and the
state after it. The steps inside a speculation finish before the speculation does.
-/

namespace DiagnosticLog

inductive Program (α : Type)
  | done
  | step (op : Operation) (rest : Program α)
  | speculate (id : String) (outcome : Option α) (body rest : Program α)

/-- A single step of a program. -/
inductive Statement (α : Type)
  | operation (op : Operation)
  | speculate (id : String) (outcome : Option α) (body : Program α)

/-- What a finished step gives back. -/
inductive Reply (α : Type)
  | answer (a : Answer)
  | outcome (value : Option α)
  | context (name : String) (started : Bool)
  | vacant

/-- One thing that happens in a run. The place of a step says on which way through the nested
programs it stands. -/
inductive Happening (α σ : Type)
  | output (o : Output)
  | finished (place : List Nat) (reply : Reply α) (state : σ)

/-- A machine that performs operations on its states. -/
abbrev Machine (σ : Type) := Operation → σ → Effect Output (Answer × σ)

/-- How a speculation with this outcome is closed. -/
def Closing.ofOutcome {α : Type} : Option α → Closing
  | some _ => .commit
  | none => .rollBack

namespace Happening

variable {α σ τ : Type}

def mapState (f : σ → τ) : Happening α σ → Happening α τ
  | output o => output o
  | finished place reply state => finished place reply (f state)

def output? : Happening α σ → Option Output
  | output o => some o
  | finished .. => none

theorem output?_comp_mapState (f : σ → τ) :
    output? ∘ (mapState f : Happening α σ → Happening α τ) = output? := by
  funext h
  cases h <;> rfl

end Happening

namespace Machine

variable {α σ : Type}

/-- Performs an operation as part of a step. -/
def doing (m : Machine σ) (op : Operation) (s : σ) :
    Effect (Happening α σ) (Answer × σ) :=
  (m op s).mapOutputs .output

/-- Records that a step has finished. -/
def finish (place : List Nat) (reply : Reply α) (s : σ) : Effect (Happening α σ) σ :=
  ⟨[.finished place reply s], .ok s⟩

def operate (m : Machine σ) (place : List Nat) (op : Operation) (s : σ) :
    Effect (Happening α σ) σ := do
  let (answer, s) ← m.doing op s
  finish place (.answer answer) s

/-- Runs a body under a checkpoint. -/
def speculate (m : Machine σ) (place : List Nat) (id : String) (outcome : Option α)
    (body : σ → Effect (Happening α σ) σ) (s : σ) : Effect (Happening α σ) σ := do
  let (_, s) ← m.doing (.openCheckpoint id) s
  let s ← body s
  let (_, s) ← m.doing (.close (Closing.ofOutcome outcome) id) s
  finish place (.outcome outcome) s

end Machine

namespace Program

variable {α σ : Type}

/-- Runs a program whose first step is step `n` of those at this place. -/
def run (m : Machine σ) (place : List Nat) : Nat → Program α → σ → Effect (Happening α σ) σ
  | _, done, s => .done s
  | n, step op rest, s => do
    let s ← m.operate (place ++ [n]) op s
    rest.run m place (n + 1) s
  | n, speculate id outcome body rest, s => do
    let s ← m.speculate (place ++ [n]) id outcome (body.run m (place ++ [n]) 0) s
    rest.run m place (n + 1) s

def ofStatements : List (Statement α) → Program α
  | [] => done
  | .operation op :: rest => step op (ofStatements rest)
  | .speculate id outcome body :: rest => speculate id outcome body (ofStatements rest)

end Program

/-- Runs a single statement at a place. -/
def Statement.run {α σ : Type} (m : Machine σ) (place : List Nat) :
    Statement α → σ → Effect (Happening α σ) σ
  | operation op, s => m.operate place op s
  | speculate id outcome body, s => m.speculate place id outcome (body.run m place 0) s

end DiagnosticLog
