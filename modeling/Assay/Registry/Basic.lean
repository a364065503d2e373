import Assay.Run.Operation

/-!
# Registries

A registry maps names to operations and keeps the order in which names were first given. Registering
takes callable values under new names only; putting replaces what is there. The main statements say
what names a registry has after each step.
-/

namespace Assay

/-- What a name can stand for: an operation, or a value that cannot be called. -/
inductive Entry (σ : Type) where
  | operation (f : Operation σ)
  | inert (v : Value)

/-- Whether an entry can be called. -/
def Entry.isCallable {σ : Type} : Entry σ → Bool
  | .operation _ => true
  | .inert _ => false

/-- The call of an entry; one that cannot be called fails at each call. -/
def Entry.call {σ : Type} : Entry σ → Operation σ
  | .operation f => f
  | .inert v => fun _ s => (.failure "TypeError" s!"'{v.qualifiedName}' object is not callable", s)

/-- Names with their entries, in order of first insertion. -/
structure Registry (σ : Type) where
  entries : List (String × Entry σ)

namespace Registry

variable {σ : Type}

/-- Why a name cannot be registered. -/
inductive Fault where
  | notCallable (name : String)
  | taken (name : String)
  | nameless (className : String)
deriving DecidableEq, Repr

/-- The error that a fault is raised as. -/
def Fault.failure : Fault → Failure
  | .notCallable name => .type s!"Operation '{name}' is not callable"
  | .taken name => .told "ValueError" s!"Operation '{name}' already registered"
  | .nameless c => .told "AttributeError" s!"'{c}' object has no attribute '__name__'"

/-- The registry without names. -/
def empty : Registry σ := ⟨[]⟩

/-- The names, in order. -/
def names (r : Registry σ) : List String := r.entries.map Prod.fst

/-- Whether a name is present. -/
def contains (name : String) (r : Registry σ) : Bool := r.names.contains name

/-- The entry of a name. -/
def find? (name : String) (r : Registry σ) : Option (Entry σ) :=
  (r.entries.find? fun e => e.1 == name).map Prod.snd

/-- Puts an entry under a name: a present name keeps its place, a new one goes last. -/
def putInto (name : String) (e : Entry σ) : List (String × Entry σ) → List (String × Entry σ)
  | [] => [(name, e)]
  | (n, old) :: rest => if n = name then (n, e) :: rest else (n, old) :: putInto name e rest

/-- Puts an entry under a name, over what is there. -/
def put (name : String) (e : Entry σ) (r : Registry σ) : Registry σ := ⟨putInto name e r.entries⟩

/-- Registers a callable entry under a new name. -/
def register (name : String) (e : Entry σ) (r : Registry σ) : Except Fault (Registry σ) :=
  if !e.isCallable then .error (.notCallable name)
  else if r.contains name then .error (.taken name)
  else .ok ⟨r.entries ++ [(name, e)]⟩

/-- The name under which a thing is announced: the given one or, if that is empty, its own. A thing
without a name of its own is told by its class. -/
def announcedName (given : String) (own : Except String String) : Except Fault String :=
  if given ≠ "" then .ok given else own.mapError .nameless

/-- Registers an entry under the name that it is announced with. -/
def announce (given : String) (own : Except String String) (e : Entry σ) (r : Registry σ) :
    Except Fault (Registry σ) := do
  r.register (← announcedName given own) e

/-- Registers entries in order. -/
def registerAll : List (String × Entry σ) → Registry σ → Except Fault (Registry σ)
  | [], r => .ok r
  | (name, e) :: rest, r => do registerAll rest (← r.register name e)

/-- The registry of entries with distinct names. -/
def ofEntries (es : List (String × Entry σ)) : Except Fault (Registry σ) := registerAll es empty

/-- A copy, which registers every entry anew. -/
def copy (r : Registry σ) : Except Fault (Registry σ) := ofEntries r.entries

/-- Puts entries in order. -/
def putAll (es : List (String × Entry σ)) (r : Registry σ) : Registry σ :=
  es.foldl (fun r e => r.put e.1 e.2) r

/-- A copy with entries laid over it. -/
def merged (r : Registry σ) (others : List (String × Entry σ)) : Except Fault (Registry σ) := do
  return putAll others (← r.copy)

/-- The table of operations of a registry; null counts as missing. -/
def operations (r : Registry σ) : Operations σ := fun name =>
  match r.find? name with
  | some (.inert .null) => none
  | some e => some e.call
  | none => none

theorem names_putInto (name : String) (e : Entry σ) (es : List (String × Entry σ)) :
    (putInto name e es).map Prod.fst =
      if name ∈ es.map Prod.fst then es.map Prod.fst else es.map Prod.fst ++ [name] := by
  induction es with
  | nil => rfl
  | cons x es ih =>
    obtain ⟨n, old⟩ := x
    by_cases h : n = name
    · simp [putInto, h]
    · have h' : ¬ name = n := fun e => h e.symm
      simp only [putInto, h, if_false, List.map_cons, List.mem_cons, h', false_or, ih]
      split <;> rfl

/-- The names after a put: a present name changes nothing, a new one is appended. -/
theorem names_put (name : String) (e : Entry σ) (r : Registry σ) :
    (r.put name e).names = if name ∈ r.names then r.names else r.names ++ [name] :=
  names_putInto name e r.entries

/-- Registering appends the name. -/
theorem names_register {name : String} {e : Entry σ} {r r' : Registry σ}
    (h : r.register name e = .ok r') : r'.names = r.names ++ [name] := by
  unfold register at h
  split at h
  · contradiction
  · split at h
    · contradiction
    · rw [← Except.ok.inj h]
      simp [names]

end Registry

end Assay
