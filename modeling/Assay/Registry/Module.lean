import Assay.Registry.Basic

/-!
# Modules

A module binds names to attributes; a name that is bound twice keeps its first place and its last
attribute. It may answer for names that it lacks. The names that it exports are what it gives for the
name `__all__`. The operations of a module are its public own functions, or whatever it exports that
can be called.
-/

namespace Assay

/-- The names that something lists. -/
inductive Exports where
  /-- The names of a list. -/
  | listed (names : List String)
  /-- The names that occur in a text. -/
  | within (text : String)
deriving DecidableEq, Repr

/-- What a module binds a name to. -/
inductive Attribute (σ : Type) where
  /-- A function; `own` if the module in which it was defined has the name of this one. -/
  | function (own : Bool) (f : Operation σ)
  /-- Another thing that can be called: a class, or an object that behaves like a function. -/
  | callable (className : String) (f : Operation σ)
  /-- A mapping from names to entries. -/
  | mapping (entries : List (String × Entry σ))
  /-- A list of names, or a text that names occur in. -/
  | exports (e : Exports)
  /-- Any other value. -/
  | inert (v : Value)

/-- A module that has been loaded. -/
structure Module (σ : Type) where
  name : String
  bindings : List (String × Attribute σ)
  /-- What it gives for a name that it lacks, or the failure by which it refuses that name; most
  modules do not answer for such names. -/
  answer : Option (String → Except Failure (Attribute σ)) := none

namespace Exports

/-- Whether a text occurs in another. -/
def occursIn (part whole : List Char) : Bool :=
  part.isPrefixOf whole ||
    match whole with
    | [] => false
    | _ :: rest => occursIn part rest

/-- Whether a name is exported. -/
def contains (name : String) : Exports → Bool
  | .listed names => names.contains name
  | .within text => occursIn name.toList text.toList

/-- The names as a value. -/
def toValue : Exports → Value
  | .listed names => .list (names.map .str)
  | .within text => .str text

end Exports

namespace Attribute

variable {σ : Type}

/-- An attribute as entry of a registry. -/
def toEntry : Attribute σ → Entry σ
  | .function _ f => .operation f
  | .callable _ f => .operation f
  | .mapping _ => .inert (.dict [])
  | .exports e => .inert e.toValue
  | .inert v => .inert v

/-- The name of the class of an attribute. -/
def className : Attribute σ → String
  | .function _ _ => "function"
  | .callable c _ => c
  | .mapping _ => "dict"
  | .exports e => e.toValue.className
  | .inert v => v.className

/-- The names that an attribute lists: those of a list, what occurs in a text, the keys of a mapping.
Null stands for no list, and whether a name is in anything else cannot be asked. -/
def listing : Attribute σ → Except Failure (Option Exports)
  | .exports e => .ok (some e)
  | .mapping es => .ok (some (.listed (es.map Prod.fst)))
  | .inert .null => .ok none
  | .inert (.str t) => .ok (some (.within t))
  | a => .error (.type s!"argument of type '{a.className}' is not iterable")

end Attribute

namespace Module

variable {σ : Type}

/-- Binds a name: a bound name keeps its place, a new one goes last. -/
def bind (name : String) (a : Attribute σ) :
    List (String × Attribute σ) → List (String × Attribute σ)
  | [] => [(name, a)]
  | (n, old) :: rest => if n = name then (n, a) :: rest else (n, old) :: bind name a rest

/-- The bindings that statements in order make. -/
def ofStatements (statements : List (String × Attribute σ)) : List (String × Attribute σ) :=
  statements.foldl (fun bs s => bind s.1 s.2 bs) []

/-- The attribute that bindings give a name. -/
def boundTo? (name : String) (bs : List (String × Attribute σ)) : Option (Attribute σ) :=
  (bs.find? fun b => b.1 == name).map Prod.snd

/-- The attribute of a name. -/
def attribute? (name : String) (m : Module σ) : Option (Attribute σ) := boundTo? name m.bindings

/-- The names of attributes that every module has besides its bindings. -/
def commonNames : List String :=
  ["__class__", "__delattr__", "__dir__", "__doc__", "__eq__", "__format__", "__ge__",
    "__getattribute__", "__getstate__", "__gt__", "__hash__", "__init__", "__init_subclass__",
    "__le__", "__lt__", "__ne__", "__new__", "__reduce__", "__reduce_ex__", "__repr__",
    "__setattr__", "__sizeof__", "__str__", "__subclasshook__", "__cached__", "__file__",
    "__loader__", "__name__", "__package__", "__spec__"]

/-- The names of common attributes that are mappings whose first entry is the module's name. -/
def namespaceNames : List String := ["__dict__", "__builtins__"]

/-- The attribute of a name, with those that every module has. -/
def attributeOrCommon? (name : String) (m : Module σ) : Option (Attribute σ) :=
  match m.attribute? name with
  | some a => some a
  | none =>
    if commonNames.contains name then some (.inert .null)
    else if namespaceNames.contains name then
      some (.mapping [("__name__", .inert (.str m.name))])
    else if name = "__annotations__" then some (.mapping [])
    else none

/-- What a module gives for a name: its attribute or, where it lacks one, its answer. An answer may
refuse the name as missing. -/
def give (m : Module σ) (name : String) : Except Failure (Option (Attribute σ)) :=
  match m.attributeOrCommon? name with
  | some a => .ok (some a)
  | none =>
    match m.answer with
    | none => .ok none
    | some answer =>
      match answer name with
      | .ok a => .ok (some a)
      | .error f => if f.className = "AttributeError" then .ok none else .error f

/-- The names that a module says it exports, if it does. -/
def exported (m : Module σ) : Except Failure (Option Exports) := do
  match ← m.give "__all__" with
  | some a => a.listing
  | none => return none

/-- Whether a binding is an operation of its module, which exports names or does not say. -/
def offers (exports : Option Exports) (name : String) (a : Attribute σ) : Bool :=
  match exports with
  | some e => e.contains name && a.toEntry.isCallable
  | none =>
    match a with
    | .function own _ => own && !name.startsWith "_"
    | _ => false

/-- The entries that a module offers, in order of its bindings. -/
def offered (m : Module σ) (exports : Option Exports) : List (String × Entry σ) :=
  (m.bindings.filter fun b => offers exports b.1 b.2).map fun b => (b.1, b.2.toEntry)

/-- What a module offers, it can call. -/
theorem isCallable_of_mem_offered {m : Module σ} {exports : Option Exports} {e : String × Entry σ}
    (h : e ∈ m.offered exports) : e.2.isCallable = true := by
  obtain ⟨b, hb, rfl⟩ := List.mem_map.1 h
  have ho := (List.mem_filter.1 hb).2
  unfold offers at ho
  split at ho
  · exact (Bool.and_eq_true _ _ ▸ ho).2
  · split at ho
    · rename_i heq
      simp [heq, Attribute.toEntry, Entry.isCallable]
    · contradiction

end Module

end Assay
