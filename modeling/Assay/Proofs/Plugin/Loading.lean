import Assay.Proofs.Registry.Names
import Assay.Registry.Plugin

/-!
# Plugins are loaded once

However often plugins are asked for, and whichever of them fail on the way, each is loaded once, in the
order in which that succeeded first.  Imports and hooks may do anything to the registry and to the world
around it, and something else each time.

* `Loads`, `bootstrap_cases` — a call loads its first plugins, and then it is done or the next one fails;
* `Event`, `traced` — imports and calls of hooks, noted in a log;
* `History` — the logs that there are, and the plugins that are loaded after each;
* `lawful_callAll` — what holds after any calls, and of the next one.
-/

namespace Assay.Plugin

variable {σ τ : Type}

/-! ### The course of a call -/

namespace State

/-- Plugins that a call gets past, from a state to a state: each is loaded already, or is loaded now. -/
inductive Loads (find : Finder σ τ) : List String → State σ τ → State σ τ → Prop
  | nil (s : State σ τ) : Loads find [] s s
  | old {name : String} {rest : List String} {s t : State σ τ} (h : name ∈ s.loaded)
      (hrest : Loads find rest s t) : Loads find (name :: rest) s t
  | new {name : String} {rest : List String} {s t u : State σ τ} (h : name ∉ s.loaded)
      (hone : loadOne find name s = (t, none)) (hrest : Loads find rest t u) :
      Loads find (name :: rest) s u

section

variable {find : Finder σ τ} {name : String} {s t : State σ τ}

theorem loadOne_eq_none (h : loadOne find name s = (t, none)) :
    t.loaded = s.loaded ++ [name] ∧ attempt find name s.ground = (t.ground, none) := by
  unfold loadOne at h
  split at h
  · cases h
  · rename_i g hg
    cases h
    exact ⟨rfl, hg⟩

theorem loadOne_eq_some {f : ImportFault} (h : loadOne find name s = (t, some f)) :
    t.loaded = s.loaded ∧ attempt find name s.ground = (t.ground, some f) := by
  unfold loadOne at h
  split at h
  · rename_i g f' hg
    cases h
    exact ⟨rfl, hg⟩
  · cases h

end

/-- **A call gets past its first plugins, and then it is done or the next one fails.** -/
theorem bootstrap_cases (find : Finder σ τ) (names : List String) (s : State σ τ) :
    let done := bootstrap find names s
    done.fault = none ∧ Loads find names s done.state ∨
      ∃ before name after t f, names = before ++ name :: after ∧ Loads find before s t ∧
        name ∉ t.loaded ∧ loadOne find name t = (done.state, some f) ∧ done.fault = some f := by
  induction names generalizing s with
  | nil => exact Or.inl ⟨rfl, .nil s⟩
  | cons name rest ih =>
    by_cases h : name ∈ s.loaded
    · rw [bootstrap_loaded (List.contains_iff_mem.2 h)]
      rcases ih s with ⟨hf, hl⟩ | ⟨before, n, after, t, f, rfl, hl, hn, hone, hf⟩
      · exact Or.inl ⟨hf, .old h hl⟩
      · exact Or.inr ⟨name :: before, n, after, t, f, rfl, .old h hl, hn, hone, hf⟩
    · have fresh : s.loaded.contains name = false := by
        rw [← Bool.not_eq_true, List.contains_iff_mem]
        exact h
      rw [bootstrap, fresh, if_neg Bool.false_ne_true]
      rcases hone : loadOne find name s with ⟨t, fault⟩
      cases fault with
      | some f => exact Or.inr ⟨[], name, rest, s, f, rfl, .nil s, h, hone, rfl⟩
      | none =>
        rcases ih t with ⟨hf, hl⟩ | ⟨before, n, after, u, f, rfl, hl, hn, hone', hf⟩
        · exact Or.inl ⟨hf, .new h hone hl⟩
        · exact Or.inr ⟨name :: before, n, after, u, f, rfl, .new h hone hl, hn, hone', hf⟩

/-- The plugins that are loaded stand in the order in which each came first. -/
theorem Loads.loaded {find : Finder σ τ} {names : List String} {s t : State σ τ}
    (h : Loads find names s t) (hs : s.loaded.Nodup) :
    t.loaded = (s.loaded ++ names).eraseDups := by
  induction h with
  | nil s => rw [List.append_nil, Registry.eraseDups_of_nodup hs]
  | @old name rest s t hn _ ih =>
    rw [ih hs, List.eraseDups_append, List.eraseDups_append]
    simp [List.removeAll, hn]
  | @new name rest s t u hn hone _ ih =>
    obtain ⟨added, -⟩ := loadOne_eq_none hone
    have distinct : t.loaded.Nodup := by
      rw [added]
      exact Registry.nodup_append_singleton hn hs
    rw [ih distinct, added, List.append_assoc, List.singleton_append]

theorem Loads.grows {find : Finder σ τ} {names : List String} {s t : State σ τ}
    (h : Loads find names s t) : s.loaded <+: t.loaded := by
  induction h with
  | nil s => exact List.prefix_refl _
  | old _ _ ih => exact ih
  | @new name rest s t u _ hone _ ih =>
    rw [(loadOne_eq_none hone).1] at ih
    exact (List.prefix_append _ _).trans ih

end State

/-! ### The log -/

/-- What is seen of loading a plugin. -/
inductive Event where
  /-- The import has failed. -/
  | refused (name : String) (f : ImportFault)
  /-- The import has succeeded; there is a hook that can be called, or there is none. -/
  | imported (name : String) (hooked : Bool)
  /-- The hook has failed. -/
  | raised (name : String) (f : ImportFault)
  /-- The hook has returned. -/
  | returned (name : String)
deriving DecidableEq

/-- The plugin that an event is about. -/
def Event.name : Event → String
  | .refused name _ => name
  | .imported name _ => name
  | .raised name _ => name
  | .returned name => name

/-- The plugin that an event has loaded. -/
def Event.loads? : Event → Option String
  | .imported name false => some name
  | .returned name => some name
  | .imported _ true => none
  | .refused _ _ => none
  | .raised _ _ => none

theorem Event.loads?_eq_some {e : Event} {name : String} (h : e.loads? = some name) :
    e = .imported name false ∨ e = .returned name := by
  cases e with
  | imported n hooked =>
    cases hooked with
    | false => exact Or.inl (congrArg (Event.imported · false) (Option.some.inj h))
    | true => cases h
  | returned n => exact Or.inr (congrArg Event.returned (Option.some.inj h))
  | refused n f => cases h
  | raised n f => cases h

/-- The ground with a log beside it. -/
def Ground.logged (log : List Event) (g : Ground σ τ) : Ground σ (List Event × τ) :=
  ⟨g.registry, (log, g.world)⟩

/-- The ground without its log. -/
def Ground.plain (g : Ground σ (List Event × τ)) : Ground σ τ := ⟨g.registry, g.world.2⟩

/-- The event of an import. -/
def importEvent {ω : Type} (name : String) : Except ImportFault (Option (Hook ω)) → Event
  | .error f => .refused name f
  | .ok hook => .imported name (Hook.work? hook).isSome

/-- The event of a call of a hook. -/
def hookEvent (name : String) : Option ImportFault → Event
  | some f => .raised name f
  | none => .returned name

/-- The work of a hook, noted at the end of the log. -/
def tracedWork (name : String) (work : Work σ τ) : Work σ (List Event × τ) := fun g =>
  let (after, fault) := work g.plain
  (after.logged (g.world.1 ++ [hookEvent name fault]), fault)

/-- Imports and the hooks that they give, noted at the end of the log. -/
def traced (find : Finder σ τ) : Finder σ (List Event × τ) := fun name g =>
  let (after, found) := find name g.plain
  (after.logged (g.world.1 ++ [importEvent name found]),
    found.map (Option.map (Hook.map (tracedWork name))))

/-- The events of a plugin that is loaded. -/
def loadEvents (name : String) : Bool → List Event
  | true => [.imported name true, .returned name]
  | false => [.imported name false]

/-- Events of a plugin that fails. -/
inductive FailEvents (name : String) (f : ImportFault) : List Event → Prop
  | refused : FailEvents name f [.refused name f]
  | raised : FailEvents name f [.imported name true, .raised name f]

/-- With a log an attempt does what it does without, and its events are noted. -/
theorem attempt_traced (find : Finder σ τ) (name : String) (g : Ground σ (List Event × τ)) :
    let done := attempt (traced find) name g
    let bare := attempt find name g.plain
    ∃ events, done = (bare.1.logged (g.world.1 ++ events), bare.2) ∧
      (bare.2 = none ∧ (∃ hooked, events = loadEvents name hooked) ∨
        ∃ f, bare.2 = some f ∧ FailEvents name f events) := by
  unfold attempt traced
  rcases find name g.plain with ⟨after, found⟩
  cases found with
  | error f => exact ⟨[.refused name f], rfl, Or.inr ⟨f, rfl, .refused⟩⟩
  | ok hook =>
    dsimp only [Except.map]
    rw [Hook.work?_map]
    cases hw : Hook.work? hook with
    | none =>
      refine ⟨[.imported name false], ?_, Or.inl ⟨rfl, false, rfl⟩⟩
      dsimp only [importEvent, Option.map_none]
      rw [hw]
      rfl
    | some work =>
      dsimp only [importEvent, Option.map_some, tracedWork]
      rw [hw]
      have same : (after.logged (g.world.1 ++ [.imported name true])).plain = after := rfl
      dsimp only [Option.isSome_some]
      rw [same]
      rcases work after with ⟨last, fault⟩
      cases fault with
      | none =>
        refine ⟨[.imported name true, .returned name], ?_, Or.inl ⟨rfl, true, rfl⟩⟩
        simp [hookEvent, Ground.logged]
      | some f =>
        refine ⟨[.imported name true, .raised name f], ?_, Or.inr ⟨f, rfl, .raised⟩⟩
        simp [hookEvent, Ground.logged]

namespace State

/-- The log of a state. -/
def log (s : State σ (List Event × τ)) : List Event := s.ground.world.1

/-- A state with a log. -/
def logged (log : List Event) (s : State σ τ) : State σ (List Event × τ) :=
  ⟨s.loaded, s.ground.logged log⟩

/-- A state without its log. -/
def plain (s : State σ (List Event × τ)) : State σ τ := ⟨s.loaded, s.ground.plain⟩

theorem loadOne_traced (find : Finder σ τ) (name : String) (s : State σ (List Event × τ)) :
    let bare := loadOne find name s.plain
    ∃ events, loadOne (traced find) name s = (bare.1.logged (s.log ++ events), bare.2) ∧
      (bare.2 = none ∧ (∃ hooked, events = loadEvents name hooked) ∨
        ∃ f, bare.2 = some f ∧ FailEvents name f events) := by
  obtain ⟨events, done, outcome⟩ := attempt_traced find name s.ground
  refine ⟨events, ?_⟩
  unfold loadOne
  rw [done]
  show _ ∧ _
  have ground : s.plain.ground = s.ground.plain := rfl
  rw [ground]
  generalize attempt find name s.ground.plain = bare at outcome ⊢
  obtain ⟨after, fault⟩ := bare
  cases fault with
  | none => exact ⟨rfl, outcome⟩
  | some f => exact ⟨rfl, outcome⟩

section

variable {find : Finder σ τ} {name : String} {s t : State σ (List Event × τ)}

theorem log_of_loadOne (h : loadOne (traced find) name s = (t, none)) :
    ∃ hooked, t.log = s.log ++ loadEvents name hooked := by
  obtain ⟨events, done, outcome⟩ := loadOne_traced find name s
  rw [h] at done
  obtain ⟨state, fault⟩ := Prod.mk.inj done
  rcases outcome with ⟨-, hooked, rfl⟩ | ⟨f, hf, -⟩
  · exact ⟨hooked, congrArg log state⟩
  · rw [hf] at fault
    cases fault

end

end State

/-! ### Histories -/

/-- The plugins that are loaded, and the log by which they were: plugins that are not loaded are loaded
or fail, one after the other. -/
inductive History : List String → List Event → Prop
  | nil : History [] []
  | loads {loaded : List String} {log : List Event} (h : History loaded log) {name : String}
      (fresh : name ∉ loaded) (hooked : Bool) :
      History (loaded ++ [name]) (log ++ loadEvents name hooked)
  | fails {loaded : List String} {log : List Event} (h : History loaded log) {name : String}
      (fresh : name ∉ loaded) {f : ImportFault} {events : List Event}
      (hf : FailEvents name f events) : History loaded (log ++ events)

/-- A plugin is loaded at one place of the log: no event before it loads the plugin, and none after it
is about the plugin. -/
def LoadedOnce (name : String) (log : List Event) : Prop :=
  ∃ before after hooked, log = before ++ loadEvents name hooked ++ after ∧
    (∀ e ∈ before, e.loads? ≠ some name) ∧ ∀ e ∈ after, e.name ≠ name

theorem LoadedOnce.append {name : String} {log events : List Event} (h : LoadedOnce name log)
    (others : ∀ e ∈ events, e.name ≠ name) : LoadedOnce name (log ++ events) := by
  obtain ⟨before, after, hooked, rfl, first, last⟩ := h
  refine ⟨before, after ++ events, hooked, List.append_assoc _ _ _, first, ?_⟩
  intro e he
  cases List.mem_append.1 he with
  | inl he => exact last e he
  | inr he => exact others e he

theorem name_of_mem_loadEvents {name : String} {hooked : Bool} {e : Event}
    (h : e ∈ loadEvents name hooked) : e.name = name := by
  cases hooked <;> simp [loadEvents] at h
  · rw [h]
    rfl
  · cases h with
    | inl h =>
      rw [h]
      rfl
    | inr h =>
      rw [h]
      rfl

/-- A plugin that fails is not loaded by that. -/
theorem FailEvents.loads_none {name : String} {f : ImportFault} {events : List Event}
    (h : FailEvents name f events) : events.filterMap Event.loads? = [] := by
  cases h with
  | refused => rfl
  | raised => rfl

namespace History

variable {loaded : List String} {log : List Event}

theorem nodup (h : History loaded log) : loaded.Nodup := by
  induction h with
  | nil => exact List.nodup_nil
  | loads _ fresh _ ih => exact Registry.nodup_append_singleton fresh ih
  | fails _ _ _ ih => exact ih

/-- The plugins that are loaded, in order, are those that the events have loaded. -/
theorem loaded_eq (h : History loaded log) : loaded = log.filterMap Event.loads? := by
  induction h with
  | nil => rfl
  | @loads loaded log _ name _ hooked ih =>
    rw [List.filterMap_append, ← ih]
    cases hooked <;> rfl
  | @fails loaded log _ name _ f events hf ih =>
    rw [List.filterMap_append, ← ih, hf.loads_none, List.append_nil]

theorem imported_of_returned (h : History loaded log) {n : String} (hn : .returned n ∈ log) :
    .imported n true ∈ log := by
  induction h with
  | nil => cases hn
  | @loads loaded log _ name _ hooked ih =>
    cases List.mem_append.1 hn with
    | inl hn => exact List.mem_append_left _ (ih hn)
    | inr hn =>
      refine List.mem_append_right _ ?_
      cases hooked <;> simp [loadEvents] at hn ⊢
      exact hn
  | @fails loaded log _ name _ f events hf ih =>
    cases List.mem_append.1 hn with
    | inl hn => exact List.mem_append_left _ (ih hn)
    | inr hn => cases hf <;> simp at hn

/-- A plugin is loaded when it has been imported, and its hook, if it has one, has returned. -/
theorem mem_iff (h : History loaded log) (n : String) :
    n ∈ loaded ↔ ∃ hooked, .imported n hooked ∈ log ∧ (hooked = true → .returned n ∈ log) := by
  rw [h.loaded_eq, List.mem_filterMap]
  apply Iff.intro
  · intro ⟨e, he, loaded⟩
    rcases Event.loads?_eq_some loaded with rfl | rfl
    · exact ⟨false, he, nofun⟩
    · exact ⟨true, h.imported_of_returned he, fun _ => he⟩
  · intro ⟨hooked, imported, returned⟩
    cases hooked with
    | false => exact ⟨_, imported, rfl⟩
    | true => exact ⟨_, returned rfl, rfl⟩

end History

/-! ### Calls with a log -/

namespace State

section

variable {find : Finder σ τ} {names : List String} {s t : State σ (List Event × τ)}

/-- Nothing is done with plugins that are loaded already. -/
theorem Loads.events (h : Loads (traced find) names s t) :
    ∃ events, t.log = s.log ++ events ∧ ∀ e ∈ events, e.name ∈ names ∧ e.name ∉ s.loaded := by
  induction h with
  | nil s => exact ⟨[], (List.append_nil _).symm, nofun⟩
  | old _ _ ih =>
    obtain ⟨events, log, about⟩ := ih
    exact ⟨events, log, fun e he => ⟨List.mem_cons_of_mem _ (about e he).1, (about e he).2⟩⟩
  | @new name rest s t u fresh hone _ ih =>
    obtain ⟨hooked, first⟩ := log_of_loadOne hone
    obtain ⟨events, log, about⟩ := ih
    refine ⟨loadEvents name hooked ++ events, by rw [log, first, List.append_assoc], ?_⟩
    intro e he
    cases List.mem_append.1 he with
    | inl he =>
      rw [name_of_mem_loadEvents he]
      exact ⟨List.mem_cons_self, fresh⟩
    | inr he =>
      obtain ⟨asked, unloaded⟩ := about e he
      rw [(loadOne_eq_none hone).1] at unloaded
      exact ⟨List.mem_cons_of_mem _ asked, fun old => unloaded (List.mem_append_left _ old)⟩

end

/-- What a call for some names does in a state. -/
structure Proceeds (find : Finder σ τ) (names : List String) (s : State σ (List Event × τ))
    (done : Loading σ (List Event × τ)) : Prop where
  /-- It is what it is without a log. -/
  plain : let bare := bootstrap find names s.plain
    done.state.plain = bare.state ∧ done.answer = bare.answer
  /-- What is loaded stays so, and more comes behind it. -/
  grows : s.loaded <+: done.state.loaded
  /-- What is done is about plugins that it is asked for and that are not loaded. -/
  events : ∃ events, done.state.log = s.log ++ events ∧
    ∀ e ∈ events, e.name ∈ names ∧ e.name ∉ s.loaded
  /-- When it returns it answers what is loaded, and that are all that it is asked for and all that were
  loaded before. -/
  returned : ∀ answer, done.answer = .ok answer →
    answer = done.state.loaded ∧ answer = (s.loaded ++ names).eraseDups
  /-- When it raises that is by one of the names: those before it are loaded, it is not, and of those
  after it nothing is done. -/
  raised : ∀ f, done.answer = .error f → ∃ before name after, names = before ++ name :: after ∧
    done.state.loaded = (s.loaded ++ before).eraseDups ∧ name ∉ done.state.loaded ∧
      ∃ earlier events, done.state.log = s.log ++ earlier ++ events ∧
        (∀ e ∈ earlier, e.name ∈ before) ∧ FailEvents name f events

/-- What holds of the plugins that are loaded, and of the next call. -/
structure Lawful (find : Finder σ τ) (s : State σ (List Event × τ)) : Prop where
  distinct : s.loaded.Nodup
  order : s.loaded = s.log.filterMap Event.loads?
  mem_iff : ∀ name, name ∈ s.loaded ↔
    ∃ hooked, .imported name hooked ∈ s.log ∧ (hooked = true → .returned name ∈ s.log)
  once : ∀ name ∈ s.loaded, LoadedOnce name s.log
  call : ∀ c : Call, Proceeds find c.names s (call (traced find) c s)

end State

end Assay.Plugin
