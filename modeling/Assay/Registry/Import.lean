import Assay.Folder
import Assay.Registry.Module
import Assay.Registry.Store

/-!
# Importing implementations

An implementation is named by the path of a file or by the name of a module, either of them with a
colon and an attribute that maps names to operations. Modules are found in a library; files in a
folder. What is loaded is laid over the shared registry, as a value or in a store of registries.
-/

namespace Assay

/-- Why an implementation cannot be loaded. -/
inductive ImportFault where
  | emptySource
  | emptyName
  | homeless
  | relative (name : String)
  | notFound (name : String)
  | notPackage (name parent : String)
  | noFile (path : String)
  | isFolder (path : String)
  | notLoadable (path : String)
  | raised (f : Failure)
  | noAttribute (moduleName member : String)
  | notMapping (moduleName member : String)
  | registry (f : Registry.Fault)
deriving DecidableEq, Repr

/-- The error that a fault is raised as. -/
def ImportFault.failure : ImportFault → Failure
  | .emptySource => .told "ValueError" "Empty implementation source provided"
  | .emptyName => .told "ValueError" "Empty module name"
  | .homeless => .told "RuntimeError" Path.homelessText
  | .relative name =>
    .type s!"the 'package' argument is required to perform a relative import for {Text.quote name}"
  | .notFound name => .told "ModuleNotFoundError" ("No module named " ++ Text.quote name)
  | .notPackage name parent =>
    .told "ModuleNotFoundError"
      ("No module named " ++ Text.quote name ++ "; " ++ Text.quote parent ++ " is not a package")
  | .noFile path => .told "FileNotFoundError" ("Implementation file not found: " ++ path)
  | .isFolder path => .told "IsADirectoryError" ("[Errno 21] Is a directory: " ++ Text.quote path)
  | .notLoadable path => .told "ImportError" ("Unable to load module from " ++ path)
  | .raised f => f
  | .noAttribute m a => .told "AttributeError" s!"Module '{m}' has no attribute '{a}'"
  | .notMapping m a => .type s!"Attribute '{a}' in {m} is not a mapping of operations"
  | .registry f => f.failure

/-- The operations of a module, if it can tell the names that it exports. -/
def Module.operations {σ : Type} (m : Module σ) : Except ImportFault (Registry σ) := do
  let exports ← m.exported.mapError .raised
  (Registry.ofEntries (m.offered exports)).mapError .registry

namespace Import

variable {σ : Type}

/-- What importing does, on the registries as it finds them: the steps that it takes on them of its own
accord, and the module that it gives or the error that it raises. -/
abbrev Body (σ : Type) := Registry.Store σ → List (Registry.Step σ) × Except Failure (Module σ)

/-- What stands in a library under a name: what importing it does, and whether it is a package. -/
structure Importable (σ : Type) where
  body : Body σ
  isPackage : Bool := false

/-- A library: what can be imported by full names. -/
abbrev Library (σ : Type) := String → Option (Importable σ)

/-- A folder of files, each of which can be loaded. -/
abbrev Files (σ : Type) := Folder (Body σ)

/-- Work on a store of registries that may be refused. -/
abbrev Importing (σ α : Type) := Registry.Store σ → Registry.Store σ × Except ImportFault α

/-- Runs a body: what it does to the registries stays done if it raises an error. -/
def run (body : Body σ) : Importing σ (Module σ) := fun st =>
  (st.performAll (body st).1, (body st).2.mapError .raised)

/-- Imports what stands under a full name. -/
def imported (library : Library σ) (name : String) : Importing σ (Module σ) := fun st =>
  match library name with
  | none => (st, .error (.notFound name))
  | some i => run i.body st

/-- Imports what stands under a full name, and then one after the other what stands under the names below
it. Only a package has names below it. -/
def descend (library : Library σ) : List String → String → Importing σ (Module σ)
  | [], name => imported library name
  | next :: rest, name => fun st =>
    match imported library name st with
    | (st', .error f) => (st', .error f)
    | (st', .ok _) =>
      let inner := name ++ "." ++ next
      if (library name).any Importable.isPackage then descend library rest inner st'
      else (st', .error (.notPackage inner name))

/-- Imports a module by its full name: those above it come first. -/
def byName (library : Library σ) (name : String) : Importing σ (Module σ) := fun st =>
  if name = "" then (st, .error .emptyName)
  else if name.startsWith "." then (st, .error (.relative name))
  else
    match name.splitOn "." with
    | [] => (st, .error .emptyName)
    | first :: rest => descend library rest first st

/-- Loads the file at a path, which must be a source file. -/
def byPath (folder : Files σ) (path : String) : Importing σ (Module σ) := fun st =>
  match folder.place (Path.plain path) with
  | .nothing => (st, .error (.noFile (folder.fullPath path)))
  | .folder => (st, .error (.isFolder (folder.fullPath path)))
  | .file body =>
    if Path.suffix path ≠ ".py" then (st, .error (.notLoadable (folder.fullPath path)))
    else run body st

/-- The part of a text before its first colon, and the part after it, if there is one. -/
def splitColon (s : String) : String × Option String :=
  let cs := s.toList
  match cs.dropWhile (· ≠ ':') with
  | [] => (s, none)
  | _ :: rest => (String.ofList (cs.takeWhile (· ≠ ':')), some (String.ofList rest))

/-- The operations of an attribute that maps names to entries. -/
def fromMember (m : Module σ) (member : String) : Except ImportFault (Registry σ) :=
  match m.give member with
  | .error f => .error (.raised f)
  | .ok none => .error (.noAttribute m.name member)
  | .ok (some (.mapping es)) => (Registry.ofEntries es).mapError .registry
  | .ok (some _) => .error (.notMapping m.name member)

/-- The surroundings that implementations come from: the homes of users, the modules that can be imported,
and the files. -/
structure Origin (σ : Type) where
  home : Path.Home
  library : Library σ
  files : Files σ

/-- The module that a source names: by its path if it is that of a source file or of any file that is
there, and otherwise by name. -/
def loadModule (w : Origin σ) (name : String) : Importing σ (Module σ) := fun st =>
  match Path.expand w.home name with
  | none => (st, .error .homeless)
  | some path =>
    if Path.suffix path = ".py" ∨ (w.files.file? path).isSome then byPath w.files path st
    else byName w.library name st

/-- The operations of an implementation. -/
def load (w : Origin σ) (source : String) : Importing σ (Registry σ) := fun st =>
  if source = "" then (st, .error .emptySource)
  else
    let (name, member) := splitColon source
    match loadModule w name st with
    | (st', .error f) => (st', .error f)
    | (st', .ok m) =>
      (st', match member with
        | some a => fromMember m a
        | none => m.operations)

/-- Takes a step that makes a registry, and answers with the number of it. -/
def making (step : Registry.Step σ) : Importing σ Nat := fun st =>
  match st.perform step with
  | (st', some f) => (st', .error (.registry f))
  | (st', none) => (st', .ok st.count)

/-- Builds a registry. An implementation is loaded as one, and a copy of the shared registry with that
laid over it is another; without an implementation, there is the copy alone. -/
def build (w : Origin σ) (source : Option String) : Importing σ Nat := fun st =>
  match source.filter (· ≠ "") with
  | none => making (.copy 0) st
  | some s =>
    match load w s st with
    | (ran, .error f) => (ran, .error f)
    | (ran, .ok r) =>
      match making (.construct r.entries) ran with
      | (made, .error f) => (made, .error f)
      | (made, .ok o) => making (.merge 0 (.registry o)) made

end Import

end Assay
