import Assay.Proofs.Registry.Separation

/-!
# What holds after any steps on registries

Whatever steps have been taken, and whichever of them have failed, the registries of a store list
their names in the order in which they were first inserted, a step that fails changes nothing, and no
registry is changed but by a step on itself.

* `insertions` — the names inserted into each registry, in order;
* `Registers`, `Replaces`, `Makes` — what a single step does;
* `Lawful` — the laws of a store, `Sound` — the invariant that carries them;
* `Store.lawful_performAll` — the laws hold after any steps.
-/

namespace Assay.Registry

variable {σ : Type}

/-! ### Insertions -/

/-- The names inserted into each registry, in order, after steps from a store. -/
def insertionsFrom (st : Store σ) (logs : List (List String)) : List (Step σ) → List (List String)
  | [] => logs
  | step :: steps =>
    let after := st.perform step
    insertionsFrom after.1 (noted after.2 logs (step.logged st.views logs)) steps

/-- The names inserted into each registry, in order: all since the shared one was emptied last. -/
def insertions (steps : List (Step σ)) : List (List String) := insertionsFrom .initial [[]] steps

/-! ### Laws of a store -/

/-- What registering comes to: a fault, and the registry before and after. -/
structure Registers (name : String) (e : Entry σ) (before after : Registry σ) (fault : Option Fault) :
    Prop where
  notCallable : fault = some (.notCallable name) ↔ e.isCallable = false
  taken : fault = some (.taken name) ↔ e.isCallable = true ∧ name ∈ before.names
  /-- There is no other fault. -/
  only : fault = none ∨ fault = some (.notCallable name) ∨ fault = some (.taken name)
  added : fault = none → after.entries = before.entries ++ [(name, e)]
  /-- What stood under a name stays there. -/
  keeps : ∀ n f, before.find? n = some f → after.find? n = some f

/-- What putting an entry under a present name comes to: nothing but the entry changes. -/
structure Replaces (name : String) (e : Entry σ) (before after : Registry σ) (fault : Option Fault) :
    Prop where
  fault : fault = none
  names : after.names = before.names
  entry : ∀ n, after.find? n = if name = n then some e else before.find? n

/-- What a step comes to that makes a registry: a fault, or one more registry of the value that is
made; those that were there are as before. -/
structure Makes (made : Except Fault (Registry σ)) (st : Store σ) (step : Step σ) : Prop where
  fault : ∀ f, (st.perform step).2 = some f ↔ made = .error f
  value : ∀ r, made = .ok r → (st.perform step).1.count = st.count + 1 ∧
    (st.perform step).1.view st.count = r
  others : ∀ o < st.count, (st.perform step).1.view o = st.view o

/-- What holds of a store whose registries have had these names inserted, and of the steps that may
follow. -/
structure Lawful (st : Store σ) (inserted : List (List String)) : Prop where
  /-- The names of a registry are pairwise distinct. -/
  distinct : ∀ o, (st.view o).names.Nodup
  /-- They stand in the order of their first insertion. -/
  ordered : ∀ o, (st.view o).names = (inserted[o]?.getD []).eraseDups
  /-- A step that fails leaves every registry as it was, and makes none. -/
  atomic : ∀ step f, (st.perform step).2 = some f →
    (st.perform step).1.count = st.count ∧ ∀ o, (st.perform step).1.view o = st.view o
  register : ∀ o < st.count, ∀ name e, let done := st.perform (.register o name e)
    Registers name e (st.view o) (done.1.view o) done.2
  /-- Announcing registers in the shared registry, under a name that there may be none of. -/
  announce : ∀ given own e,
    (∀ name, announcedName given own = .ok name →
      st.perform (.announce given own e) = st.perform (.register 0 name e)) ∧
    ∀ f, announcedName given own = .error f → st.perform (.announce given own e) = (st, some f)
  update : ∀ o < st.count, ∀ name e, name ∈ (st.view o).names →
    let done := st.perform (.update o name e)
    Replaces name e (st.view o) (done.1.view o) done.2
  construct : ∀ es, Makes (ofEntries es) st (.construct es)
  copy : ∀ o, Makes (st.view o).copy st (.copy o)
  merge : ∀ o cover, Makes ((st.view o).merged (st.entriesOf st.holders cover)) st (.merge o cover)
  /-- However many steps follow, a registry is changed by those on it alone.  So what is done to a copy
  or a merger does not show in what it was made of, and the other way round. -/
  apart : ∀ o < st.count, ∀ later : List (Step σ), (∀ step ∈ later, step.target? ≠ some o) →
    (st.performAll later).view o = st.view o

namespace Store

section Laws

variable {st : Store σ} (h : st.Separate)

include h

/-- What a registry holds after a step. -/
theorem view_perform (step : Step σ) (o : Nat) :
    (st.perform step).1.view o = nth o (step.apply st.views).1 := by
  rw [view_eq_nth, (refines_perform h step).1]

theorem count_perform (step : Step σ) :
    (st.perform step).1.count = (step.apply st.views).1.length := by
  rw [← length_views, (refines_perform h step).1]

theorem atomic_perform {step : Step σ} {f : Fault} (hf : (st.perform step).2 = some f) :
    (st.perform step).1.count = st.count ∧ ∀ o, (st.perform step).1.view o = st.view o := by
  rw [(refines_perform h step).2.1] at hf
  have same := step.apply_of_fault hf
  refine ⟨by rw [count_perform h, same, length_views], fun o => ?_⟩
  rw [view_perform h, same, view_eq_nth]

/-- A step on a registry that is there comes to what is made of its value. -/
theorem perform_of_workOn {step : Step σ} {o : Nat} {f : Registry σ → Except Fault (Registry σ)}
    (hs : step.apply st.views = workOn o f st.views) (ho : o < st.count) :
    ((st.perform step).2, (st.perform step).1.view o) =
      match f (st.view o) with
      | .error fault => (some fault, st.view o)
      | .ok r => (none, r) := by
  rw [view_perform h, (refines_perform h step).2.1, hs, view_eq_nth]
  exact workOn_eq (by rwa [length_views])

theorem registers_perform {o : Nat} (ho : o < st.count) (name : String) (e : Entry σ) :
    Registers name e (st.view o) ((st.perform (.register o name e)).1.view o)
      (st.perform (.register o name e)).2 := by
  have applied : (Step.register o name e).apply st.views =
      workOn o (Registry.register name e) st.views := rfl
  obtain ⟨fault, after⟩ := Prod.mk.inj (perform_of_workOn h applied ho)
  rcases register_cases name e (st.view o) with ⟨hc, hr⟩ | ⟨hc, hn, hr⟩ | ⟨hc, hn, hr⟩
  · rw [hr] at fault after
    rw [fault, after]
    constructor <;> simp [hc]
  · rw [hr] at fault after
    rw [fault, after]
    constructor <;> simp [hc, hn]
  · have keeps := fun n f => find?_register (n := n) (f := f) hr
    rw [hr] at fault after
    rw [fault, after]
    constructor
    case keeps => exact keeps
    all_goals simp [hc, hn]

theorem replaces_perform {o : Nat} (ho : o < st.count) {name : String} (e : Entry σ)
    (hn : name ∈ (st.view o).names) :
    Replaces name e (st.view o) ((st.perform (.update o name e)).1.view o)
      (st.perform (.update o name e)).2 := by
  have applied : (Step.update o name e).apply st.views =
      workOn o (fun r => .ok (r.put name e)) st.views := rfl
  obtain ⟨fault, after⟩ := Prod.mk.inj (perform_of_workOn h applied ho)
  rw [fault, after]
  exact ⟨rfl, by rw [names_put, if_pos hn], fun n => find?_put n name e (st.view o)⟩

theorem makes_perform {step : Step σ} {made : Except Fault (Registry σ)}
    (hs : step.apply st.views = adding made st.views) : Makes made st step := by
  have fault := (refines_perform h step).2.1
  rw [hs] at fault
  refine ⟨fun f => ?_, fun r hr => ?_, fun o ho => ?_⟩
  · rw [fault]
    cases made <;> simp [adding]
  · subst hr
    constructor
    · rw [count_perform h, hs, ← length_views]
      exact List.length_append
    · rw [view_perform h, hs, ← length_views]
      exact nth_length_append r
  · rw [view_perform h, hs, view_eq_nth]
    exact nth_adding (by rwa [length_views])

/-- No registry is lost. -/
theorem count_le_perform (step : Step σ) : st.count ≤ (st.perform step).1.count := by
  rw [count_perform h, ← length_views]
  exact step.length_le_apply st.views

/-- Many steps change no registry but those that they are on. -/
theorem view_performAll (later : List (Step σ)) {o : Nat} (ho : o < st.count)
    (ht : ∀ step ∈ later, step.target? ≠ some o) : (st.performAll later).view o = st.view o := by
  induction later generalizing st with
  | nil => rfl
  | cons step later ih =>
    rw [List.forall_mem_cons] at ht
    have kept : (st.perform step).1.view o = st.view o := by
      rw [view_perform h, view_eq_nth]
      exact step.nth_apply ht.1 (by rwa [length_views])
    have present := Nat.lt_of_lt_of_le ho (count_le_perform h step)
    exact (ih (refines_perform h step).2.2 present ht.2).trans kept

end Laws

/-- Announcing under a name is registering in the shared registry. -/
theorem perform_announce {given : String} {own : Except String String} {name : String}
    (hn : announcedName given own = .ok name) (e : Entry σ) (st : Store σ) :
    st.perform (.announce given own e) = st.perform (.register 0 name e) := by
  have same : Registry.announce given own e = Registry.register name e := by
    funext r
    rw [announce, hn]
    rfl
  show st.onRegistry 0 (rewrite (Registry.announce given own e)) = _
  rw [same]
  rfl

theorem perform_announce_of_error {given : String} {own : Except String String} {f : Fault}
    (hn : announcedName given own = .error f) (e : Entry σ) {st : Store σ} (h : 0 < st.count) :
    st.perform (.announce given own e) = (st, some f) := by
  have shared : st.holders[0]? = some st.holders[0] := List.getElem?_eq_getElem h
  rw [perform, onRegistry, shared]
  dsimp only
  rw [rewrite, announce, hn]
  rfl

/-- What carries the laws: registries do not share, their names are those inserted, and there is a
shared one. -/
structure Sound (st : Store σ) (inserted : List (List String)) : Prop where
  separate : st.Separate
  lists : List.Forall₂ Lists inserted st.views
  shared : 0 < st.count

theorem sound_initial : Sound (initial : Store σ) [[]] :=
  ⟨separate_initial, .cons lists_empty .nil, Nat.one_pos⟩

/-- A step keeps a store sound. -/
theorem Sound.perform {st : Store σ} {inserted : List (List String)} (h : Sound st inserted)
    (step : Step σ) : Sound (st.perform step).1
      (noted (st.perform step).2 inserted (step.logged st.views inserted)) := by
  obtain ⟨views, fault, separate⟩ := refines_perform h.separate step
  refine ⟨separate, ?_, ?_⟩
  · rw [views, fault]
    exact step.lists_apply h.lists
  · exact Nat.lt_of_lt_of_le h.shared (count_le_perform h.separate step)

/-- A store that is sound is sound after any steps. -/
theorem Sound.performAll {st : Store σ} {inserted : List (List String)} (h : Sound st inserted)
    (steps : List (Step σ)) :
    Sound (st.performAll steps) (insertionsFrom st inserted steps) := by
  induction steps generalizing st inserted with
  | nil => exact h
  | cons step steps ih => exact ih (h.perform step)

theorem Sound.lists_view {st : Store σ} {inserted : List (List String)} (h : Sound st inserted)
    (o : Nat) : Lists (inserted[o]?.getD []) (st.view o) := by
  rw [view_eq_nth, nth]
  by_cases ho : o < inserted.length
  · have bound : o < st.views.length := by
      rwa [← h.lists.length_eq]
    rw [List.getElem?_eq_getElem ho, List.getElem?_eq_getElem bound]
    exact h.lists.get ho bound
  · have past : st.views.length ≤ o := by
      rw [← h.lists.length_eq]
      exact Nat.le_of_not_lt ho
    rw [List.getElem?_eq_none (Nat.le_of_not_lt ho), List.getElem?_eq_none past]
    exact lists_empty

theorem Sound.lawful {st : Store σ} {inserted : List (List String)} (h : Sound st inserted) :
    Lawful st inserted where
  distinct o := (h.lists_view o).nodup
  ordered o := h.lists_view o
  atomic _ _ hf := atomic_perform h.separate hf
  register _ ho name e := registers_perform h.separate ho name e
  announce _ _ e := ⟨fun _ hn => perform_announce hn e st,
    fun _ hn => perform_announce_of_error hn e h.shared⟩
  update _ ho _ e hn := replaces_perform h.separate ho e hn
  construct _ := makes_perform h.separate rfl
  copy o := makes_perform h.separate (by rw [Step.apply, view_eq_nth])
  merge o cover := makes_perform h.separate (by rw [Step.apply, view_eq_nth, entriesOf_eq])
  apart _ ho later ht := view_performAll h.separate later ho ht

/-- **The laws of registries hold after any steps, whichever of them have failed.** -/
theorem lawful_performAll (steps : List (Step σ)) :
    Lawful (performAll .initial steps) (insertions steps) :=
  (sound_initial.performAll steps).lawful

end Store

end Assay.Registry
