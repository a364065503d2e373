import Assay.Registry.Plugin
import Assay.Sample.Operations

/-!
# Sample modules

Modules as lists of statements, and a small library of modules and plugins to try imports on.
-/

namespace Assay.Sample

/-- The kinds of things that a statement can define. -/
inductive Kind where
  | function
  | lambda
  | async
  | classType
  | number
  | imported
  | builtin
  | callableObject
deriving DecidableEq, Repr

/-- A statement of a module. -/
inductive Statement where
  /-- Defines a thing of a kind under a name. -/
  | define (kind : Kind) (name : String)
  /-- Defines things under numbered names and then a mapping to them. -/
  | mapping (name : String) (parts : List (Kind × String))
  /-- Lists what the module exports. -/
  | exports (e : Exports)
  /-- Fails while the module is loaded. -/
  | raises (text : String)

/-- An operation that gives the same text for every input. -/
def constant (text : String) : Operation State := fun _ s => (.value (.str text), s)

/-- The length of a collection or a text. -/
def length : Operation State := fun v s =>
  let n (k : Nat) : Reply := .value (.int k)
  (match v.unwrapped with
    | .str t => n t.length
    | .list xs => n xs.length
    | .tuple xs => n xs.length
    | .map _ es => n es.length
    | .bytes bs => n bs.length
    | v => .failure "TypeError" s!"object of type '{v.qualifiedName}' has no len()", s)

/-- A class that takes no arguments. -/
def construct (name : String) : Operation State := fun _ s =>
  (.failure "TypeError" s!"{name}() takes no arguments", s)

/-- The attribute that a definition makes, in a module that bears its name to the end or renames
itself. -/
def Kind.define (own : Bool) (name : String) : Kind → Attribute State
  | .function => .function own (constant name)
  | .lambda => .function own (constant name)
  | .async => .function own (deferred (constant name))
  | .classType => .callable "type" (construct name)
  | .number => .inert (.int 3)
  | .imported => .function false echo
  | .builtin => .callable "builtin_function_or_method" length
  | .callableObject => .callable "object" (constant name)

/-- What a module is named, as far as names can be compared: numbers are equal, what comes from
elsewhere is the same thing each time, and what a statement makes is a new thing. -/
inductive Mark where
  | given
  | same (kind : Kind)
  | made (i : Nat)
deriving DecidableEq, Repr

/-- The mark of what a statement with a number defines. -/
def Kind.mark (i : Nat) : Kind → Mark
  | .number => .same .number
  | .imported => .same .imported
  | .builtin => .same .builtin
  | _ => .made i

/-- The name of a module in messages. What is made by a statement has no lasting text. -/
def Mark.text (name : String) : Mark → String
  | .same .number => "3"
  | .same .builtin => "<built-in function len>"
  | _ => name

namespace Statement

/-- The name of a numbered part of a mapping. -/
def partName (name : String) (i : Nat) : String := "_" ++ name ++ toString i

/-- The bindings of the parts of a mapping, numbered from a number on. -/
def partBindings (own : Bool) (name : String) :
    Nat → List (Kind × String) → List (String × Attribute State)
  | _, [] => []
  | i, (k, _) :: rest =>
    (partName name i, k.define own (partName name i)) :: partBindings own name (i + 1) rest

/-- The entries of a mapping, numbered from a number on. -/
def partEntries (name : String) : Nat → List (Kind × String) → List (String × Entry State)
  | _, [] => []
  | i, (k, key) :: rest =>
    (key, (k.define true (partName name i)).toEntry) :: partEntries name (i + 1) rest

/-- The entries with the last one of each key, at the place of the first. -/
def mergeEntries (es : List (String × Entry State)) : List (String × Entry State) :=
  es.foldl (fun acc e => Registry.putInto e.1 e.2 acc) []

/-- The bindings that a statement makes, where its functions are the module's own or are not. -/
def bindings (own : Bool) : Statement → List (String × Attribute State)
  | define k name => [(name, k.define own name)]
  | mapping name parts =>
    partBindings own name 0 parts ++ [(name, .mapping (mergeEntries (partEntries name 0 parts)))]
  | exports e => [("__all__", .exports e)]
  | raises _ => []

/-- The text with which a statement fails. -/
def raises? : Statement → Option String
  | raises t => some t
  | _ => none

/-- How the module is named after a statement with a number. -/
def mark (i : Nat) (before : Mark) : Statement → Mark
  | define k name => if name = "__name__" then k.mark i else before
  | mapping name _ => if name = "__name__" then .made i else before
  | _ => before

/-- How the module is named after statements, numbered from a number on. -/
def markFrom : Nat → Mark → List Statement → Mark
  | _, m, [] => m
  | i, m, s :: rest => markFrom (i + 1) (s.mark i m) rest

/-- The bindings that statements make, numbered from a number on. A function belongs to the module
that has, in the end, the name that it had when the function was defined. -/
def bindingsFrom (last : Mark) : Nat → Mark → List Statement → List (String × Attribute State)
  | _, _, [] => []
  | i, m, s :: rest => s.bindings (m = last) ++ bindingsFrom last (i + 1) (s.mark i m) rest

/-- What a call of an attribute with a name gives. -/
def answer (a : Attribute State) (name : String) : Except Failure (Attribute State) :=
  match (a.toEntry.call (.str name) {}).1 with
  | ⟨true, _⟩ =>
    .ok (.inert (.foreign { className := "coroutine", text := "", shown := "", identity := 0 }))
  | ⟨false, .returned v⟩ => .ok (.inert v)
  | ⟨false, .unreadable _⟩ => .ok (.inert .null)
  | ⟨false, .raised f⟩ => .error f
  | ⟨false, .ended e⟩ => .error e.failure

/-- What a module is bound to before its first statement, in order. -/
def given (name : String) : List (String × Attribute State) :=
  [("__name__", .inert (.str name)), ("__doc__", .inert .null), ("__package__", .inert (.str "")),
    ("__loader__", .inert .null), ("__spec__", .inert .null), ("__file__", .inert .null),
    ("__cached__", .inert .null), ("__builtins__", .mapping [("__name__", .inert (.str name))])]

/-- The module that statements make. What it binds `__getattr__` to is called for names that it
lacks. -/
def toModule (name : String) (statements : List Statement) : Module State :=
  let last := markFrom 0 .given statements
  let bindings := Module.ofStatements (given name ++ bindingsFrom last 0 .given statements)
  { name := last.text name
    bindings := bindings
    answer := (Module.boundTo? "__getattr__" bindings).map answer }

/-- Runs the statements of a module, which take no steps on registries: it is loaded, or the first failing
statement ends it. -/
def load (name : String) (statements : List Statement) : Import.Body State := fun _ =>
  match statements.findSome? raises? with
  | some t => ([], .error (.told "RuntimeError" t))
  | none => ([], .ok (toModule name statements))

end Statement

/-- The square of a number. -/
def square : Operation State := fun v s =>
  (match v.number? with
    | some (.int i) => .value (.int (i * i))
    | some (.float x) => .value (.float (x.mul x))
    | none =>
      .failure "TypeError"
        s!"can't multiply sequence by non-int of type '{v.qualifiedName}'", s)

/-- The name of the module of sample operations. -/
def moduleName : String := "oracle_impl"

/-- The module of the sample operations. -/
def sampleModule : Module State :=
  let functions := table.map fun e => (e.1, Attribute.function true e.2)
  { name := moduleName
    bindings := functions ++ [
      ("OPS", .mapping [("square", .operation square), ("echo", .operation echo)]),
      ("NUMBER", .inert (.int 3)),
      ("BAD", .mapping [("ok", .operation echo), ("bad", .inert (.int 5))]),
      ("EMPTY", .mapping []),
      ("__all__", .exports (.listed (table.map Prod.fst)))] }

/-- An entry of a plugin, which gives its own name with a mark before it. -/
def pluginEntry (name : String) : String × Entry State :=
  (name, .operation (constant ("plugin:" ++ name)))

/-- A plugin with a hook that registers entries, and may fail after that. -/
def hooked (entries : List (String × Entry State)) (failure : Option Failure := none) :
    Plugin.Package State :=
  { hook := some (.callable { entries, failure }) }

/-- The plugins by name. -/
def plugins : List (String × Plugin.Package State) :=
  [("plug_a", hooked [pluginEntry "plugin_op", pluginEntry "echo"]),
    ("plug_b", hooked [pluginEntry "other_op"]),
    ("plug_dup", hooked [pluginEntry "third", pluginEntry "plugin_op", pluginEntry "fourth"]),
    ("plug_nohook", {}),
    ("plug_notcallable", { hook := some (.inert (.int 5)) }),
    ("plug_broken", hooked [("half_done", .operation echo)]
      (some (.told "RuntimeError" "plugin broke"))),
    (moduleName, {})]

/-- The library: the sample module, and plugins as modules that export nothing of their own. -/
def library : Import.Library State := fun name =>
  if name = moduleName then some { body := fun _ => ([], .ok sampleModule) }
  else if (plugins.map Prod.fst).contains name then
    some { body := fun _ => ([], .ok { name, bindings := [] }) }
  else none

/-- Finds plugins in the library. -/
def finder : Plugin.Finder State (List String) := Plugin.Package.finder fun name => do
  let m ← (Import.byName library name .initial).2
  return ((plugins.find? fun p => p.1 == m.name).map Prod.snd).getD {}

end Assay.Sample
