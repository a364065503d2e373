import Assay.Run.Held
import Assay.Run.Operation
import Assay.Value.Tagged

/-!
# Sample operations

A table of operations to try specifications on: they give their input back, compute, fail as they
are told to, reply later, or count their calls.
-/

namespace Assay.Sample

/-- An object that a case has for its input: the number of the case, and how the input read at first. -/
abbrev Object := Nat × String

/-- The state of the sample operations: how often the counting one was called, the next identity of a
foreign object, the input that was handed out last, and the inputs that have been changed. -/
structure State where
  calls : Nat := 0
  identity : Nat := 0
  handed : Object := (0, "")
  changed : List (Object × Value) := []

/-- The memory in which an input reads as it was changed last. Inputs that read alike at first are one
object if that is said. -/
def memory (shared : Bool) : Memory State :=
  let object (i : Nat) (v : Value) : Object := (if shared then 0 else i, v.dump)
  { input i v s := ((s.changed.find? fun e => e.1 == object i v).map Prod.snd).getD v
    expected _ v _ := v
    hand i v s := { s with handed := object i v } }

/-- Runs a computation that makes foreign objects. -/
def withIdentity (work : Fresh Reply) (s : State) : Reply × State :=
  let (r, n) := work.run s.identity
  (r, { s with identity := n })

/-- A reply that is a computed value or a failure. -/
def replyOf : Except Failure Value → Reply
  | .ok v => .value v
  | .error f => ⟨false, .raised f⟩

/-- A mapping with the single entry `result`. -/
def result (v : Value) : Value := .dict [(.str "result", v)]

/-- Gives its input back. -/
def echo : Operation State := fun v s => (.value v, s)

/-- Gives its input with all tags decoded. -/
def decode : Operation State := fun v => withIdentity do return .value (← v.decoded)

/-- Adds the entries `a` and `b`. -/
def add : Operation State := fun v s =>
  (replyOf do return result (← (← v.part "a").plus (← v.part "b")), s)

/-- Divides the entry `a` by the entry `b`; division by zero is infinite. -/
def divide : Operation State := fun v s =>
  (replyOf do
    let b ← v.part "b"
    if b.isZero then return result (.float (.infinite false))
    else return result (← (← v.part "a").dividedBy b), s)

/-- The classes of errors that can be asked for. -/
def knownClasses : List String :=
  ["RuntimeError", "ValueError", "KeyError", "TypeError", "IndexError", "ZeroDivisionError",
    "NotImplementedError", "AssertionError", "OracleError"]

/-- The text of an error from its arguments. -/
def errorText (className : String) : List Value → Except Fault String
  | [] => .ok ""
  | [v] => if className = "KeyError" then v.literal else v.text
  | vs => (Value.tuple vs).literal

/-- An error of a class with arguments. -/
def errorOf (className : String) (args : List Value) : Failure :=
  match errorText className args with
  | .ok t => .told className t
  | .error f => .untold className f.failure

/-- The text of an ending with arguments, as far as it has one. -/
def endingText (className : String) (args : List Value) : String :=
  (errorText className args).toOption.getD ""

/-- The items of a value that stand for arguments. -/
def arguments : Value → List Value
  | .list xs => xs
  | .tuple xs => xs
  | .str s => s.toList.map fun c => .str c.toString
  | .map _ es => es.map Prod.fst
  | _ => []

/-- The outcome that the entries `type` and `args` ask for. -/
def asked (v : Value) : Outcome :=
  match v.part "type" with
  | .error f => .raised f
  | .ok t =>
    let args := match v.part "args" with
      | .ok a => arguments a
      | .error _ => []
    match t.unwrapped with
    | .str "SystemExit" => .ended (.exit (endingText "SystemExit" args))
    | .str "KeyboardInterrupt" => .ended (.interrupt (endingText "KeyboardInterrupt" args))
    | .str c => .raised (if knownClasses.contains c then errorOf c args else .missingKey c)
    | .list _ => .raised (.type "unhashable type: 'list'")
    | .map _ _ => .raised (.type "unhashable type: 'dict'")
    | k => .raised (errorOf "KeyError" [k])

/-- Raises the error that its input asks for. -/
def fail : Operation State := fun v s => (⟨false, asked v⟩, s)

/-- The number of times it has been called. -/
def count : Operation State := fun _ s =>
  (.value (.int (s.calls + 1 : Nat)), { s with calls := s.calls + 1 })

/-- Appends a zero to its input, which is changed by that, and gives the length. -/
def grow : Operation State := fun v s =>
  match v with
  | .list xs =>
    (.value (.int (xs.length + 1 : Nat)),
      { s with changed := (s.handed, .list (xs ++ [.int 0])) :: s.changed })
  | v => (.failure "AttributeError" s!"'{v.qualifiedName}' object has no attribute 'append'", s)

/-- An operation whose replies must be awaited. -/
def deferred (f : Operation State) : Operation State := fun v s =>
  let (r, s') := f v s
  (r.later, s')

/-- The sample operations by name, in order. -/
def table : List (String × Operation State) :=
  [("echo", echo), ("decode", decode), ("add", add), ("divide", divide), ("fail", fail),
    ("async_echo", deferred decode), ("async_fail", deferred fail),
    ("awaitable", deferred decode), ("count", count)]

/-- The operation of a name, if the table has it. -/
def operation? (name : String) : Option (Operation State) :=
  (table.find? fun e => e.1 == name).map Prod.snd

/-- The table with other names laid over it; an alias without a target is missing. -/
def withAliases (aliases : List (String × Option String)) : Operations State := fun name =>
  match aliases.reverse.find? fun a => a.1 == name with
  | some (_, target) => target.bind operation?
  | none => operation? name

end Assay.Sample
