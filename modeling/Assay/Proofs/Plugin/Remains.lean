import Assay.Proofs.Plugin.Loading

/-!
# What a failed plugin leaves behind

A call that fails has no way back: what the plugin has done until then stays done.  The plugins before it
stay loaded, and it does not count as loaded, so that the same call begins with it again.  If that finds
an operation under the name that it registers first, it fails by this.

* `Stops`, `stops_of_fault` — where a call fails, whatever plugins do;
* `Script.Fails` — the entries that a script has registered when it fails, and why it fails;
* `Script.Fails.again` — the same script once more;
* `Package.Fails` — a package fails while it is imported, or by its hook;
* `failure_remains` — what is registered afterwards, and what the same call comes to.
-/

namespace Assay.Plugin

variable {σ τ : Type}

/-! ### Where a call stops -/

namespace State

section

variable {find : Finder σ τ} {names : List String} {s t : State σ τ}

/-- Plugins that are loaded are passed over. -/
theorem bootstrap_append (h : ∀ n ∈ names, n ∈ s.loaded) (after : List String) :
    bootstrap find (names ++ after) s = bootstrap find after s := by
  induction names with
  | nil => rfl
  | cons name rest ih =>
    rw [List.forall_mem_cons] at h
    rw [List.cons_append, bootstrap_loaded (List.contains_iff_mem.2 h.1), ih h.2]

theorem Loads.bootstrap (h : Loads find names s t) :
    (bootstrap find names s).state = t ∧ (State.bootstrap find names s).fault = none := by
  induction h with
  | nil s => exact ⟨rfl, rfl⟩
  | old h _ ih =>
    rw [bootstrap_loaded (List.contains_iff_mem.2 h)]
    exact ih
  | new h hone _ ih =>
    rw [State.bootstrap, if_neg (mt List.contains_iff_mem.1 h), hone]
    exact ih

theorem Loads.subset (h : Loads find names s t) : ∀ n ∈ names, n ∈ t.loaded := by
  induction h with
  | nil s => exact nofun
  | old h hrest ih => exact List.forall_mem_cons.2 ⟨hrest.grows.subset h, ih⟩
  | new _ hone hrest ih =>
    refine List.forall_mem_cons.2 ⟨hrest.grows.subset ?_, ih⟩
    rw [(loadOne_eq_none hone).1]
    exact List.mem_append_right _ List.mem_cons_self

end

/-- A call for some names stops with a fault at one of them, in the state to which those before it have
led. -/
structure Stops (find : Finder σ τ) (names : List String) (s : State σ τ) (f : ImportFault)
    (name : String) (m : State σ τ) : Prop where
  /-- The names before it are loaded without a fault; the same call passes over them afterwards. -/
  reached : ∃ before after, names = before ++ name :: after ∧
    (bootstrap find before s).state = m ∧ (bootstrap find before s).fault = none ∧
      let done := (bootstrap find names s).state
      bootstrap find names done = bootstrap find (name :: after) done
  fresh : name ∉ m.loaded
  /-- Nothing is loaded by the plugin, or after it, or taken back. -/
  loaded : (bootstrap find names s).state.loaded = m.loaded
  /-- Its attempt leaves the ground as the call does. -/
  ground : attempt find name m.ground = ((bootstrap find names s).state.ground, some f)

theorem stops_of_fault {find : Finder σ τ} {names : List String} {s : State σ τ} {f : ImportFault}
    (h : (bootstrap find names s).fault = some f) : ∃ name m, Stops find names s f name m := by
  rcases bootstrap_cases find names s with ⟨hf, -⟩ | ⟨before, name, after, m, f', hn, hl, fresh, hone, hf⟩
  · rw [h] at hf
    cases hf
  · obtain rfl := Option.some.inj (h.symm.trans hf)
    obtain ⟨unchanged, attempted⟩ := loadOne_eq_some hone
    obtain ⟨state, fault⟩ := hl.bootstrap
    refine ⟨name, m, ⟨before, after, hn, state, fault, ?_⟩, fresh, unchanged, attempted⟩
    show bootstrap find names (bootstrap find names s).state = _
    conv => lhs; arg 2; rw [hn]
    apply bootstrap_append
    rw [unchanged]
    exact hl.subset

end State

/-! ### Scripts -/

/-- A script registers its first entries, which makes one registry of another, and fails then: by the
next entry or, after the last, by itself. -/
inductive Script.Fails (p : Script σ) (r : Registry σ) :
    List (String × Entry σ) → Registry σ → ImportFault → Prop
  | refused {first rest : List (String × Entry σ)} {name : String} {e : Entry σ} {r' : Registry σ}
      {f : Registry.Fault} (entries : p.entries = first ++ (name, e) :: rest)
      (registered : Registry.registerAll first r = .ok r') (h : r'.register name e = .error f) :
      Fails p r first r' (.registry f)
  | raised {first : List (String × Entry σ)} {r' : Registry σ} {f : Failure} (entries : p.entries = first)
      (registered : Registry.registerAll first r = .ok r') (h : p.failure = some f) :
      Fails p r first r' (.raised f)

/-- The fault of a script when it is run again, after entries that it has registered before its fault. -/
def faultAgain (first : List (String × Entry σ)) (f : ImportFault) : ImportFault :=
  match first with
  | [] => f
  | (name, _) :: _ => .registry (.taken name)

theorem registerFrom_cases (failure : Option Failure) (es : List (String × Entry σ)) (r : Registry σ) :
    let done := registerFrom failure es r
    (done.2 = none ∧ failure = none ∧ Registry.registerAll es r = .ok done.1) ∨
      ∃ f first, done.2 = some f ∧ Script.Fails ⟨es, failure⟩ r first done.1 f := by
  induction es generalizing r with
  | nil =>
    cases failure with
    | none => exact Or.inl ⟨rfl, rfl, rfl⟩
    | some f => exact Or.inr ⟨.raised f, [], rfl, .raised rfl rfl rfl⟩
  | cons e es ih =>
    cases hr : r.register e.1 e.2 with
    | error f =>
      rw [registerFrom, hr]
      exact Or.inr ⟨.registry f, [], rfl, .refused rfl rfl hr⟩
    | ok s =>
      have step (first : List (String × Entry σ)) :
          Registry.registerAll (e :: first) r = Registry.registerAll first s := by
        rw [Registry.registerAll, hr]
        rfl
      rw [registerFrom, hr]
      rcases ih s with ⟨hn, hf, ok⟩ | ⟨f, first, hf, fails⟩
      · exact Or.inl ⟨hn, hf, by rw [step]; exact ok⟩
      · refine Or.inr ⟨f, e :: first, hf, ?_⟩
        dsimp only at fails ⊢
        generalize (registerFrom failure es s).1 = r' at fails ⊢
        cases fails with
        | refused entries registered h =>
          exact .refused (congrArg (e :: ·) entries) (by rw [step]; exact registered) h
        | raised entries registered h =>
          exact .raised (congrArg (e :: ·) entries) (by rw [step]; exact registered) h

/-- An operation that stands under each name of some entries is what the table of operations gives. -/
def Offers (r : Registry σ) (es : List (String × Entry σ)) : Prop :=
  ∀ x ∈ es, ∃ f, x.2 = .operation f ∧ r.operations x.1 = some f

/-- Entries that are all registered are offered. -/
theorem offers_of_registerAll {es : List (String × Entry σ)} {r r' : Registry σ}
    (h : Registry.registerAll es r = .ok r') : Offers r' es := by
  intro x hx
  obtain ⟨callable, found⟩ := Registry.find?_of_registerAll h hx
  exact Registry.operations_of_find? found callable

namespace Script.Fails

variable {p : Script σ} {r r' : Registry σ} {first : List (String × Entry σ)} {f : ImportFault}

theorem registered (h : p.Fails r first r' f) : Registry.registerAll first r = .ok r' := by
  cases h with
  | refused _ registered _ => exact registered
  | raised _ registered _ => exact registered

/-- **The same script once more** fails by the first entry that it has registered; if there is none, it
fails as before.  Either way it leaves the registry as it is. -/
theorem again (h : p.Fails r first r' f) :
    registerFrom p.failure p.entries r' = (r', some (faultAgain first f)) := by
  cases first with
  | nil =>
    obtain rfl : r = r' := Except.ok.inj h.registered
    cases h with
    | refused entries _ next =>
      rw [entries, List.nil_append, registerFrom, next]
      rfl
    | raised entries _ failure =>
      rw [entries, registerFrom, failure]
      rfl
  | cons x first =>
    obtain ⟨name, e⟩ := x
    have taken : r'.register name e = .error (.taken name) := by
      have hr := Registry.eq_of_registerAll h.registered
      obtain ⟨callable, -⟩ := Registry.find?_of_registerAll h.registered List.mem_cons_self
      rcases Registry.register_cases name e r' with ⟨hc, -⟩ | ⟨-, -, h⟩ | ⟨-, fresh, -⟩
      · rw [callable] at hc
        cases hc
      · exact h
      · rw [hr] at fresh
        exact absurd (by simp [Registry.names]) fresh
    obtain ⟨rest, entries⟩ : ∃ rest, p.entries = (name, e) :: rest := by
      cases h with
      | refused entries _ _ => exact ⟨_, entries⟩
      | raised entries _ _ => exact ⟨first, entries⟩
    rw [entries, registerFrom, taken]
    rfl

end Script.Fails

/-- A script as work: it registers all of its entries, or it fails. -/
theorem Script.work_cases (p : Script σ) (g : Ground σ τ) :
    (∃ r, p.work g = (⟨r, g.world⟩, none) ∧ p.failure = none ∧
        Registry.registerAll p.entries g.registry = .ok r) ∨
      ∃ first r f, p.work g = (⟨r, g.world⟩, some f) ∧ p.Fails g.registry first r f := by
  have cases := registerFrom_cases p.failure p.entries g.registry
  have work : p.work g = (⟨(registerFrom p.failure p.entries g.registry).1, g.world⟩,
    (registerFrom p.failure p.entries g.registry).2) := rfl
  rw [work]
  rcases cases with ⟨none, whole, registered⟩ | ⟨f, first, fault, fails⟩
  · exact Or.inl ⟨_, by rw [none], whole, registered⟩
  · exact Or.inr ⟨first, _, f, by rw [fault], fails⟩

theorem Script.Fails.work {p : Script σ} {r r' : Registry σ} {first : List (String × Entry σ)}
    {f : ImportFault} (h : p.Fails r first r' f) (world : τ) :
    p.work ⟨r', world⟩ = (⟨r', world⟩, some (faultAgain first f)) := by
  simp only [Script.work, h.again]

/-! ### Packages -/

namespace Package

/-- A package is imported: nothing is done if it was before; otherwise its script registers all of its
entries. -/
inductive Imports (p : Package σ) (name : String) (g : Ground σ (List String)) :
    List (String × Entry σ) → Ground σ (List String) → Prop
  | old (h : name ∈ g.world) : Imports p name g [] g
  | new {r : Registry σ} (h : name ∉ g.world) (whole : p.body.failure = none)
      (registered : Registry.registerAll p.body.entries g.registry = .ok r) :
      Imports p name g p.body.entries ⟨r, g.world ++ [name]⟩

/-- A package fails: there is none, or its script fails while it is imported, or it is imported and its
hook fails.  The entries that the import has registered come before those of the part that fails. -/
inductive Fails (locate : String → Except ImportFault (Package σ)) (name : String)
    (g : Ground σ (List String)) :
    List (String × Entry σ) → List (String × Entry σ) → Ground σ (List String) → ImportFault → Prop
  | missing {f : ImportFault} (h : locate name = .error f) : Fails locate name g [] [] g f
  | body {p : Package σ} {first : List (String × Entry σ)} {r : Registry σ} {f : ImportFault}
      (h : locate name = .ok p) (new : name ∉ g.world) (fails : p.body.Fails g.registry first r f) :
      Fails locate name g [] first ⟨r, g.world⟩ f
  | hook {p : Package σ} {imported first : List (String × Entry σ)} {m : Ground σ (List String)}
      {script : Script σ} {r : Registry σ} {f : ImportFault} (h : locate name = .ok p)
      (imports : p.Imports name g imported m) (hook : Hook.work? p.hook = some script)
      (fails : script.Fails m.registry first r f) :
      Fails locate name g imported first ⟨r, m.world⟩ f

section

variable {locate : String → Except ImportFault (Package σ)} {name : String} {p : Package σ}
  {g g' : Ground σ (List String)} {imported first : List (String × Entry σ)} {f : ImportFault}

theorem finder_of_mem (h : locate name = .ok p) (old : name ∈ g.world) :
    finder locate name g = (g, .ok (p.hook.map (Hook.map Script.work))) := by
  rw [finder, h]
  exact if_pos (List.contains_iff_mem.2 old)

theorem finder_of_not_mem (h : locate name = .ok p) (new : name ∉ g.world) :
    finder locate name g = match p.body.work g with
      | (g', some f) => (g', .error f)
      | (g', none) => (⟨g'.registry, g'.world ++ [name]⟩, .ok (p.hook.map (Hook.map Script.work))) := by
  rw [finder, h]
  exact if_neg (mt List.contains_iff_mem.1 new)

theorem attempt_of_finder
    (h : finder locate name g = (g', .ok (p.hook.map (Hook.map Script.work)))) :
    attempt (finder locate) name g = match Hook.work? p.hook with
      | none => (g', none)
      | some script => script.work g' := by
  rw [attempt, h]
  dsimp only
  rw [Hook.work?_map]
  cases Hook.work? p.hook with
  | none => rfl
  | some script => rfl

theorem attempt_of_error (h : finder locate name g = (g', .error f)) :
    attempt (finder locate) name g = (g', some f) := by
  rw [attempt, h]

/-- After its import a package fails by its hook only. -/
theorem fails_of_imports (h : locate name = .ok p) {m : Ground σ (List String)}
    (imports : p.Imports name g imported m)
    (found : finder locate name g = (m, .ok (p.hook.map (Hook.map Script.work))))
    (attempted : attempt (finder locate) name g = (g', some f)) :
    ∃ first, Fails locate name g imported first g' f := by
  rw [attempt_of_finder found] at attempted
  cases hook : Hook.work? p.hook with
  | none =>
    rw [hook] at attempted
    cases attempted
  | some script =>
    rw [hook] at attempted
    rcases script.work_cases m with ⟨r, work, -⟩ | ⟨first, r, f', work, fails⟩
    · cases work.symm.trans attempted
    · cases work.symm.trans attempted
      exact ⟨first, .hook h imports hook fails⟩

theorem fails_of_attempt (attempted : attempt (finder locate) name g = (g', some f)) :
    ∃ imported first, Fails locate name g imported first g' f := by
  cases h : locate name with
  | error f' =>
    have none : finder locate name g = (g, .error f') := by rw [finder, h]
    cases (attempt_of_error none).symm.trans attempted
    exact ⟨[], [], .missing h⟩
  | ok p =>
    by_cases old : name ∈ g.world
    · exact ⟨[], fails_of_imports h (.old old) (finder_of_mem h old) attempted⟩
    · have found := finder_of_not_mem h old
      rcases p.body.work_cases g with ⟨r, work, whole, registered⟩ | ⟨first, r, f', work, fails⟩
      · rw [work] at found
        exact ⟨p.body.entries, fails_of_imports h (.new old whole registered) found attempted⟩
      · rw [work] at found
        cases (attempt_of_error found).symm.trans attempted
        exact ⟨[], first, .body h old fails⟩

theorem Imports.registered (h : p.Imports name g imported g') :
    Registry.registerAll imported g.registry = .ok g'.registry := by
  cases h with
  | old _ => rfl
  | new _ _ registered => exact registered

theorem Imports.mem (h : p.Imports name g imported g') : name ∈ g'.world := by
  cases h with
  | old old => exact old
  | new _ _ _ => exact List.mem_append_right _ List.mem_cons_self

/-- What a package that fails has registered, one after the other. -/
theorem Fails.registered (h : Fails locate name g imported first g' f) :
    Registry.registerAll (imported ++ first) g.registry = .ok g'.registry := by
  cases h with
  | missing _ => rfl
  | body _ _ fails => exact fails.registered
  | hook _ imports _ fails =>
    rw [Registry.registerAll_append, imports.registered]
    exact fails.registered

/-- **The same package once more** leaves all as it is, and fails again: the part that has failed is run
again, and what has been imported is not. -/
theorem Fails.again (h : Fails locate name g imported first g' f) :
    attempt (finder locate) name g' = (g', some (faultAgain first f)) := by
  cases h with
  | missing h =>
    have none : finder locate name g = (g, .error f) := by rw [finder, h]
    exact attempt_of_error none
  | @body p first r f h new fails =>
    apply attempt_of_error
    rw [finder_of_not_mem (g := ⟨r, g.world⟩) h new, fails.work]
  | @hook p imported first m script r f h imports hook fails =>
    rw [attempt_of_finder (finder_of_mem (g := ⟨r, m.world⟩) h imports.mem), hook]
    exact fails.work m.world

end

end Package

/-! ### After a call that has failed -/

namespace State

/-- What is there after a call that has failed, of entries that were registered by an import that has
succeeded, and of those by what has failed. -/
structure Leaves (find : Finder σ τ) (names : List String) (s : State σ τ) (f : ImportFault)
    (name : String) (m : State σ τ) (imported first : List (String × Entry σ)) : Prop where
  /-- They stand behind what was there, -/
  entries : (bootstrap find names s).state.ground.registry.entries =
    m.ground.registry.entries ++ imported ++ first
  /-- and operations are called by their names. -/
  offers : Offers (bootstrap find names s).state.ground.registry (imported ++ first)
  /-- The same call leaves all as it is, and fails again: by the first entry of what has failed or, if
  there is none, as before. -/
  again : let done := (bootstrap find names s).state
    bootstrap find names done = ⟨done, [name], some (faultAgain first f)⟩

/-- **What a plugin has done before it fails remains.**  A call that fails does so at one of its names,
with the fault of that plugin.  Those before it stay loaded, it is not loaded, and nothing that it has
done is taken back.  Where plugins are packages, the registry holds what it held, and behind that what
the package has registered one by one; it is what it was exactly if that is nothing. -/
theorem failure_remains :
    (∀ (find : Finder σ τ) (names : List String) (s : State σ τ) (f : ImportFault),
      (bootstrap find names s).fault = some f → ∃ name m, Stops find names s f name m) ∧
    ∀ (locate : String → Except ImportFault (Package σ)) (names : List String)
      (s : State σ (List String)) (f : ImportFault) (name : String) (m : State σ (List String)),
      Stops (Package.finder locate) names s f name m →
        ∃ imported first, Package.Fails locate name m.ground imported first
            (bootstrap (Package.finder locate) names s).state.ground f ∧
          Leaves (Package.finder locate) names s f name m imported first := by
  refine ⟨fun find names s f h => stops_of_fault h, ?_⟩
  intro locate names s f name m stops
  obtain ⟨imported, first, fails⟩ := Package.fails_of_attempt stops.ground
  have registered := fails.registered
  refine ⟨imported, first, fails, ?_, ?_, ?_⟩
  · rw [Registry.eq_of_registerAll registered, List.append_assoc]
  · exact offers_of_registerAll registered
  · obtain ⟨before, after, -, -, -, again⟩ := stops.reached
    have fresh : ¬ (bootstrap (Package.finder locate) names s).state.loaded.contains name = true := by
      rw [List.contains_iff_mem, stops.loaded]
      exact stops.fresh
    show bootstrap (Package.finder locate) names (bootstrap (Package.finder locate) names s).state = _
    rw [again, bootstrap, if_neg fresh, loadOne, fails.again]

/-- A package whose hook registers an operation and fails then. -/
def halfDone : Package Unit :=
  { hook := some (.callable {
      entries := [("half_done", .operation fun v s => (.value v, s))]
      failure := some (.told "RuntimeError" "plugin broke") }) }

/-- The package stands behind one that is only imported, in a call that names it twice. -/
theorem failure_remains_half_done :
    let find := Package.finder fun name => .ok (if name = "plain" then {} else halfDone)
    let names := ["plain", "broken", "broken"]
    let s : State Unit (List String) := .initial []
    let f : ImportFault := .raised (.told "RuntimeError" "plugin broke")
    (bootstrap find names s).fault = some f ∧ ∃ name m, Stops find names s f name m ∧
      ∃ imported first, Leaves find names s f name m imported first := by
  intro find names s f
  have failed : (bootstrap find names s).fault = some f := by decide
  obtain ⟨name, m, stops⟩ := failure_remains.1 find names s f failed
  have laws := failure_remains (σ := Unit) (τ := Unit)
  obtain ⟨imported, first, -, leaves⟩ := laws.2 _ names s f name m stops
  exact ⟨failed, name, m, stops, imported, first, leaves⟩

/-- Of such a package an operation remains, and the same call fails otherwise than before. -/
theorem half_done_remains :
    let find := Package.finder fun _ => .ok halfDone
    let s : State Unit (List String) := .initial []
    let first := bootstrap find ["broken"] s
    first.fault = some (.raised (.told "RuntimeError" "plugin broke")) ∧
      s.ground.registry.names = [] ∧ first.state.ground.registry.names = ["half_done"] ∧
      (bootstrap find ["broken"] first.state).fault = some (.registry (.taken "half_done")) := by
  decide

end State

end Assay.Plugin
