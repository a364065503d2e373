import Assay.Value.Access
import Assay.Value.Fault

/-!
# Operations

An operation takes an input and a state and replies. A reply is given at once or must be awaited;
either way it is a value, a failure, or an ending that no judge catches. A table of operations maps
names to operations; a name may be missing.
-/

namespace Assay

/-- An ending of the whole program. -/
inductive Ending where
  | exit (text : String)
  | interrupt (text : String)
deriving DecidableEq, Repr

/-- What an operation comes to. -/
inductive Outcome where
  /-- It has returned a value. -/
  | returned (v : Value)
  /-- It has returned something whose normal form cannot be made: to make it raises an error. -/
  | unreadable (f : Failure)
  /-- It has raised an error. -/
  | raised (f : Failure)
  /-- It has ended the program. -/
  | ended (e : Ending)

/-- An outcome, and whether it has to be awaited. -/
structure Reply where
  awaited : Bool
  outcome : Outcome

/-- An operation on inputs, with a state that its calls may change. -/
abbrev Operation (σ : Type) := Value → σ → Reply × σ

/-- A table of operations by name. -/
abbrev Operations (σ : Type) := String → Option (Operation σ)

/-- The operations of a table on the first part of a pair. In the second part each call is noted, with the
name that was looked up and the input. -/
def Operations.noting {σ ρ : Type} (note : String → Value → ρ → ρ) (ops : Operations σ) :
    Operations (σ × ρ) := fun name =>
  (ops name).map fun f input t =>
    let (reply, after) := f input t.1
    (reply, (after, note name input t.2))

/-- The operations of a table on the first part of a pair; they leave the second as it is. -/
def Operations.onFirst {σ ρ : Type} (ops : Operations σ) : Operations (σ × ρ) :=
  ops.noting fun _ _ r => r

namespace Reply

/-- A value given at once. -/
def value (v : Value) : Reply := ⟨false, .returned v⟩

/-- A failure raised at once. -/
def failure (className text : String) : Reply := ⟨false, .raised (.told className text)⟩

/-- The same outcome, to be awaited. -/
def later (r : Reply) : Reply := { r with awaited := true }

end Reply

/-- The text of an ending. -/
def Ending.text : Ending → String
  | .exit t => t
  | .interrupt t => t

/-- What stops a run before its end: an ending by an operation, a value that cannot be written, a
report that does not fit its form, or one whose path is that of a folder. -/
inductive Halt where
  | ended (e : Ending)
  | fault (f : Fault)
  | unfit (message : String)
  | unwritable (path : String)
deriving DecidableEq, Repr

/-- The error that an ending is raised as. -/
def Ending.failure : Ending → Failure
  | .exit t => .told "SystemExit" t
  | .interrupt t => .told "KeyboardInterrupt" t

/-- The error that what stops a run is raised as. -/
def Halt.failure : Halt → Failure
  | .ended e => e.failure
  | .fault f => f.failure
  | .unfit m => .told "ValidationError" m
  | .unwritable path =>
    .told "RuntimeError"
      s!"Failed to write JSON report to {path}: [Errno 21] Is a directory: {Text.quote path}"

end Assay
