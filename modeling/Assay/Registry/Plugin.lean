import Assay.Registry.Import
import Assay.Text.Blank

/-!
# Plugins

Plugins are modules that populate a shared registry, while they are imported or by a hook that is
called afterwards. Each is loaded at most once. A plugin without a hook that can be called only counts
as loaded, and one whose import or hook fails does not; what was done until then stays done.
-/

namespace Assay.Plugin

variable {σ τ : Type}

/-- The names in a list with commas, without blanks around them and without empty ones. -/
def names (value : Option String) : List String :=
  match value with
  | none => []
  | some s => ((s.toList.splitOn ',').map fun part => Text.strip (String.ofList part)).filter (· ≠ "")

/-- A call to load plugins: the names that are given, or else the list in the setting. -/
structure Call where
  given : Option (List String) := none
  setting : Option String := none

/-- The names that a call is for. -/
def Call.names (c : Call) : List String := c.given.getD (Plugin.names c.setting)

/-- What plugins work on: the shared registry, and a world of all else that they read and change. -/
structure Ground (σ τ : Type) where
  registry : Registry σ
  world : τ

/-- Work on the ground, which may fail after a part of it is done. -/
abbrev Work (σ τ : Type) := Ground σ τ → Ground σ τ × Option ImportFault

/-- What a plugin binds the name of its hook to: some work, or a value that cannot be called. -/
inductive Hook (ω : Type) where
  | callable (work : ω)
  | inert (v : Value)

/-- A hook whose work is done in another way. -/
def Hook.map {ω ρ : Type} (f : ω → ρ) : Hook ω → Hook ρ
  | .callable w => .callable (f w)
  | .inert v => .inert v

/-- Imports a plugin by its name, and gives what it binds the name of its hook to, if it does. -/
abbrev Finder (σ τ : Type) :=
  String → Ground σ τ → Ground σ τ × Except ImportFault (Option (Hook (Work σ τ)))

/-- The work of a hook: there is none unless it can be called. -/
def Hook.work? {ω : Type} : Option (Hook ω) → Option ω
  | some (.callable w) => some w
  | some (.inert _) => none
  | none => none

theorem Hook.work?_map {ω ρ : Type} (f : ω → ρ) (hook : Option (Hook ω)) :
    Hook.work? (hook.map (Hook.map f)) = (Hook.work? hook).map f := by
  cases hook with
  | none => rfl
  | some h => cases h <;> rfl

/-- Imports a plugin and calls its hook, if that can be called. -/
def attempt (find : Finder σ τ) (name : String) : Work σ τ := fun g =>
  match find name g with
  | (g', .error f) => (g', some f)
  | (g', .ok hook) =>
    match Hook.work? hook with
    | none => (g', none)
    | some work => work g'

/-- The plugins that are loaded, in order, and the ground as they left it. -/
structure State (σ τ : Type) where
  loaded : List String
  ground : Ground σ τ

/-- What a call has come to: the state afterwards, the names that were attempted, and the fault that
has ended it, if there is one. -/
structure Loading (σ τ : Type) where
  state : State σ τ
  attempted : List String
  fault : Option ImportFault

/-- The answer of a call: all plugins that are loaded, in order, unless the call has failed. -/
def Loading.answer (l : Loading σ τ) : Except ImportFault (List String) :=
  match l.fault with
  | some f => .error f
  | none => .ok l.state.loaded

namespace State

/-- Nothing loaded and nothing registered. -/
def initial (world : τ) : State σ τ := ⟨[], ⟨.empty, world⟩⟩

/-- Loads a plugin that is not loaded yet. -/
def loadOne (find : Finder σ τ) (name : String) (s : State σ τ) : State σ τ × Option ImportFault :=
  match attempt find name s.ground with
  | (g, some f) => ({ s with ground := g }, some f)
  | (g, none) => (⟨s.loaded ++ [name], g⟩, none)

/-- Loads plugins in order; the first that fails ends it. -/
def bootstrap (find : Finder σ τ) : List String → State σ τ → Loading σ τ
  | [], s => ⟨s, [], none⟩
  | name :: rest, s =>
    if s.loaded.contains name then bootstrap find rest s
    else
      match loadOne find name s with
      | (s', some f) => ⟨s', [name], some f⟩
      | (s', none) =>
        let done := bootstrap find rest s'
        { done with attempted := name :: done.attempted }

/-- Makes a call. -/
def call (find : Finder σ τ) (c : Call) (s : State σ τ) : Loading σ τ := bootstrap find c.names s

/-- A plugin that is loaded is passed over. -/
theorem bootstrap_loaded {find : Finder σ τ} {name : String} {rest : List String} {s : State σ τ}
    (h : s.loaded.contains name = true) :
    bootstrap find (name :: rest) s = bootstrap find rest s := by
  rw [bootstrap, if_pos h]

end State

/-! ### Plugins that only register -/

/-- Registers entries in order up to the first that cannot be registered, and may fail afterwards. -/
def registerFrom (failure : Option Failure) :
    List (String × Entry σ) → Registry σ → Registry σ × Option ImportFault
  | [], r => (r, failure.map .raised)
  | (name, e) :: rest, r =>
    match r.register name e with
    | .error f => (r, some (.registry f))
    | .ok r' => registerFrom failure rest r'

/-- What a part of a plugin does: the entries that it registers, one after the other, and the failure
that it ends with, if it does. -/
structure Script (σ : Type) where
  entries : List (String × Entry σ) := []
  failure : Option Failure := none

/-- A script as work on the shared registry. -/
def Script.work (p : Script σ) : Work σ τ := fun g =>
  let (r, fault) := registerFrom p.failure p.entries g.registry
  (⟨r, g.world⟩, fault)

/-- A plugin of scripts: one that runs while it is imported, and perhaps a hook. -/
structure Package (σ : Type) where
  body : Script σ := {}
  hook : Option (Hook (Script σ)) := none

/-- Imports packages.  The world is the list of those that are imported: these are not run again, while
an import that fails is as if it had not been. -/
def Package.finder (locate : String → Except ImportFault (Package σ)) : Finder σ (List String) :=
  fun name g =>
    match locate name with
    | .error f => (g, .error f)
    | .ok p =>
      let hook := p.hook.map (Hook.map Script.work)
      if g.world.contains name then (g, .ok hook)
      else
        match p.body.work g with
        | (g', some f) => (g', .error f)
        | (g', none) => (⟨g'.registry, g'.world ++ [name]⟩, .ok hook)

end Assay.Plugin
