import Assay.Proofs.Registry.Laws

/-!
# What registries hold can be called

Registering asks whether an entry can be called.  Putting one over what is there does not ask, neither
by itself nor where entries are laid over a copy.  So what cannot be called has come in through such a
step, and from then on neither copying nor merging that registry succeeds.

* `AllCallable` — everything that a registry holds can be called;
* `Step.lays` — the entries that a step lays down unasked;
* `Step.callableOr_apply`, `callableOr_performAll` — nothing else can fail to be callable, after one
  step and after all;
* `copy_cases` — what copying comes to;
* `Store.callability_performAll` — where the uncallable comes from, and what it does.
-/

namespace Assay.Registry

variable {σ : Type}

/-! ### Entries that can be called -/

/-- Everything that the registry holds can be called. -/
def AllCallable (r : Registry σ) : Prop := ∀ x ∈ r.entries, x.2.isCallable = true

/-- What the registry holds can be called, or it is an exception. -/
def CallableOr (P : String × Entry σ → Prop) (r : Registry σ) : Prop :=
  ∀ x ∈ r.entries, x.2.isCallable = true ∨ P x

theorem mem_putInto {name : String} {e : Entry σ} {es : List (String × Entry σ)}
    {x : String × Entry σ} (h : x ∈ putInto name e es) : x = (name, e) ∨ x ∈ es := by
  induction es with
  | nil => exact Or.inl (List.mem_singleton.1 h)
  | cons y es ih =>
    obtain ⟨n, old⟩ := y
    by_cases hn : n = name
    · rw [putInto, if_pos hn, hn, List.mem_cons] at h
      exact h.imp_right (List.mem_cons_of_mem _)
    · rw [putInto, if_neg hn, List.mem_cons] at h
      cases h with
      | inl h => exact Or.inr (h ▸ List.mem_cons_self)
      | inr h => exact (ih h).imp_right (List.mem_cons_of_mem _)

section CallableOr

variable {P : String × Entry σ → Prop} {r r' : Registry σ}

theorem callableOr_empty : CallableOr P (empty : Registry σ) := by
  intro x hx
  cases hx

theorem CallableOr.put (h : CallableOr P r) {name : String} {e : Entry σ}
    (he : e.isCallable = true ∨ P (name, e)) : CallableOr P (r.put name e) := by
  intro x hx
  cases mem_putInto hx with
  | inl hx => exact hx ▸ he
  | inr hx => exact h x hx

theorem CallableOr.putAll (h : CallableOr P r) {es : List (String × Entry σ)}
    (hes : ∀ x ∈ es, x.2.isCallable = true ∨ P x) : CallableOr P (r.putAll es) := by
  induction es generalizing r with
  | nil => exact h
  | cons e es ih =>
    rw [List.forall_mem_cons] at hes
    exact ih (h.put hes.1) hes.2

/-- Registering adds nothing that cannot be called. -/
theorem CallableOr.register (h : CallableOr P r) {name : String} {e : Entry σ}
    (hr : r.register name e = .ok r') : CallableOr P r' := by
  obtain ⟨hc, -, rfl⟩ := register_eq_ok hr
  intro x hx
  cases List.mem_append.1 hx with
  | inl hx => exact h x hx
  | inr hx =>
    rw [List.mem_singleton] at hx
    exact Or.inl (hx ▸ hc)

theorem CallableOr.registerAll (h : CallableOr P r) {es : List (String × Entry σ)}
    (hr : registerAll es r = .ok r') : CallableOr P r' := by
  induction es generalizing r with
  | nil =>
    cases hr
    exact h
  | cons e es ih =>
    obtain ⟨s, hs, hr⟩ := bind_eq_ok_iff.1 hr
    exact ih (h.register hs) hr

theorem callableOr_ofEntries {es : List (String × Entry σ)} (hr : ofEntries es = .ok r) :
    CallableOr P r :=
  callableOr_empty.registerAll hr

end CallableOr

/-! ### Copies -/

/-- Entries under new names are registered up to the first that cannot be called. -/
theorem registerAll_cases (es : List (String × Entry σ)) (r : Registry σ)
    (hn : (r.names ++ es.map Prod.fst).Nodup) :
    (∀ x ∈ es, x.2.isCallable = true) ∧ registerAll es r = .ok ⟨r.entries ++ es⟩ ∨
      ∃ x ∈ es, x.2.isCallable = false ∧ registerAll es r = .error (.notCallable x.1) := by
  induction es generalizing r with
  | nil =>
    refine Or.inl ⟨nofun, ?_⟩
    rw [List.append_nil]
    rfl
  | cons e es ih =>
    rcases register_cases e.1 e.2 r with ⟨hc, hr⟩ | ⟨-, taken, -⟩ | ⟨hc, -, hr⟩
    · refine Or.inr ⟨e, List.mem_cons_self, hc, ?_⟩
      rw [registerAll, hr]
      rfl
    · have apart := (List.nodup_append.1 hn).2.2
      exact absurd rfl (apart _ taken e.1 List.mem_cons_self)
    · have rest : registerAll (e :: es) r = registerAll es ⟨r.entries ++ [e]⟩ := by
        rw [registerAll, hr]
        rfl
      have names : (⟨r.entries ++ [e]⟩ : Registry σ).names ++ es.map Prod.fst =
          r.names ++ (e :: es).map Prod.fst := by
        simp only [Registry.names, List.map_append, List.map_cons, List.map_nil, List.append_assoc,
          List.singleton_append]
      rw [rest]
      rcases ih ⟨r.entries ++ [e]⟩ (by rwa [names]) with ⟨hes, ok⟩ | ⟨x, hx, hxc, fault⟩
      · refine Or.inl ⟨List.forall_mem_cons.2 ⟨hc, hes⟩, ?_⟩
        rw [ok, List.append_assoc, List.singleton_append]
      · exact Or.inr ⟨x, List.mem_cons_of_mem _ hx, hxc, fault⟩

/-- **A copy is the registry itself, or what cannot be called keeps it from being made.** -/
theorem copy_cases {r : Registry σ} (hn : r.names.Nodup) :
    r.AllCallable ∧ r.copy = .ok r ∨
      ∃ x ∈ r.entries, x.2.isCallable = false ∧ r.copy = .error (.notCallable x.1) :=
  registerAll_cases r.entries empty hn

/-- Merging fails as copying does, whatever is laid over the copy. -/
theorem merged_cases {r : Registry σ} (hn : r.names.Nodup) (others : List (String × Entry σ)) :
    r.AllCallable ∧ r.merged others = .ok (r.putAll others) ∨
      ∃ x ∈ r.entries, x.2.isCallable = false ∧ r.merged others = .error (.notCallable x.1) := by
  rcases copy_cases hn with ⟨hr, ok⟩ | ⟨x, hx, hxc, fault⟩
  · refine Or.inl ⟨hr, ?_⟩
    rw [merged, ok]
    rfl
  · refine Or.inr ⟨x, hx, hxc, ?_⟩
    rw [merged, fault]
    rfl

/-- Entries that are laid over a registry leave other names alone. -/
theorem find?_putAll_of_not_mem {name : String} {es : List (String × Entry σ)}
    (h : name ∉ es.map Prod.fst) (r : Registry σ) : (r.putAll es).find? name = r.find? name := by
  induction es generalizing r with
  | nil => rfl
  | cons e es ih =>
    rw [List.map_cons, List.mem_cons, not_or] at h
    show (putAll es (r.put e.1 e.2)).find? name = r.find? name
    rw [ih h.2, find?_put, if_neg (Ne.symm h.1)]

/-- Of entries under distinct names each stands under its own in the end. -/
theorem find?_putAll {name : String} {e : Entry σ} {es : List (String × Entry σ)}
    (hn : (es.map Prod.fst).Nodup) (he : (name, e) ∈ es) (r : Registry σ) :
    (r.putAll es).find? name = some e := by
  induction es generalizing r with
  | nil => cases he
  | cons x es ih =>
    rw [List.map_cons, List.nodup_cons] at hn
    show (putAll es (r.put x.1 x.2)).find? name = some e
    cases List.mem_cons.1 he with
    | inl he =>
      subst he
      rw [find?_putAll_of_not_mem hn.1, find?_put, if_pos rfl]
    | inr he => exact ih hn.2 he _

/-- What stands under a name, where all can be called, is an operation. -/
theorem AllCallable.operations {r : Registry σ} (h : r.AllCallable) {name : String}
    (hn : name ∈ r.names) : ∃ f, r.find? name = some (.operation f) ∧ r.operations name = some f := by
  obtain ⟨x, hx, rfl⟩ := List.mem_map.1 hn
  have present : (r.entries.find? fun e => e.1 == x.1).isSome = true := by
    rw [List.find?_isSome]
    exact ⟨x, hx, beq_self_eq_true _⟩
  obtain ⟨y, hy⟩ := Option.isSome_iff_exists.1 present
  have found : r.find? x.1 = some y.2 := by
    rw [find?, hy]
    rfl
  obtain ⟨f, hf, called⟩ := operations_of_find? found (h y (List.mem_of_find?_eq_some hy))
  exact ⟨f, hf ▸ found, called⟩

/-! ### Steps -/

/-- The entries that a step lays down without asking whether they can be called. -/
def Step.lays : Step σ → List (String × Entry σ)
  | .update _ name e => [(name, e)]
  | .merge _ (.entries es) => es
  | _ => []

section Values

variable {P : Registry σ → Prop} {rs : List (Registry σ)}

theorem forall_workOn (h : ∀ r ∈ rs, P r) {o : Nat} {f : Registry σ → Except Fault (Registry σ)}
    (hf : ∀ r r', P r → f r = .ok r' → P r') : ∀ r ∈ (workOn o f rs).1, P r := by
  intro r hr
  unfold workOn at hr
  cases ho : rs[o]? with
  | none =>
    rw [ho] at hr
    exact h r hr
  | some s =>
    rw [ho] at hr
    dsimp only at hr
    cases hs : f s with
    | error fault =>
      rw [hs] at hr
      exact h r hr
    | ok s' =>
      rw [hs] at hr
      cases List.mem_or_eq_of_mem_set hr with
      | inl hr => exact h r hr
      | inr hr => exact hr ▸ hf s s' (h s (List.mem_of_getElem? ho)) hs

theorem forall_adding (h : ∀ r ∈ rs, P r) {made : Except Fault (Registry σ)}
    (hm : ∀ r, made = .ok r → P r) : ∀ r ∈ (adding made rs).1, P r := by
  intro r hr
  unfold adding at hr
  cases made with
  | error fault => exact h r hr
  | ok s =>
    cases List.mem_append.1 hr with
    | inl hr => exact h r hr
    | inr hr => exact hm r (congrArg _ (List.mem_singleton.1 hr).symm)

theorem forall_nth (h : ∀ r ∈ rs, P r) (he : P .empty) (o : Nat) : P (nth o rs) := by
  rw [nth]
  cases ho : rs[o]? with
  | none => exact he
  | some r => exact h r (List.mem_of_getElem? ho)

end Values

/-- **A step adds nothing that cannot be called but what it lays down.** -/
theorem Step.callableOr_apply {P : String × Entry σ → Prop} {rs : List (Registry σ)}
    (h : ∀ r ∈ rs, CallableOr P r) (step : Step σ)
    (hP : ∀ x ∈ step.lays, x.2.isCallable = true ∨ P x) :
    ∀ r ∈ (step.apply rs).1, CallableOr P r := by
  cases step with
  | construct es => exact forall_adding h fun r hr => callableOr_ofEntries hr
  | copy o => exact forall_adding h fun r hr => callableOr_ofEntries hr
  | merge o cover =>
    refine forall_adding h fun r hr => ?_
    obtain ⟨s, hs, ⟨⟩⟩ := bind_eq_ok_iff.1 hr
    refine (callableOr_ofEntries hs).putAll ?_
    -- What is laid over the copy is another registry, or it is given.
    cases cover with
    | registry p => exact forall_nth h callableOr_empty p
    | entries es => exact hP
  | register o name e => exact forall_workOn h fun r r' hr hok => hr.register hok
  | update o name e =>
    refine forall_workOn h fun r r' hr hok => ?_
    cases hok
    exact hr.put (hP (name, e) (List.mem_singleton.2 rfl))
  | announce given own e =>
    refine forall_workOn h fun r r' hr hok => ?_
    obtain ⟨name, -, hok⟩ := bind_eq_ok_iff.1 hok
    exact hr.register hok
  | clear =>
    refine forall_workOn h fun r r' _ hok => ?_
    cases hok
    exact callableOr_empty

/-- A step that makes a registry, where what is made hangs on a registry alone. -/
theorem Makes.fault_cases {made : Except Fault (Registry σ)} {st : Store σ} {step : Step σ}
    (h : Makes made st step) {r r' : Registry σ}
    (hm : r.AllCallable ∧ made = .ok r' ∨
      ∃ x ∈ r.entries, x.2.isCallable = false ∧ made = .error (.notCallable x.1)) :
    ((st.perform step).2 = none ↔ r.AllCallable) ∧ ∀ f, (st.perform step).2 = some f →
      ∃ x ∈ r.entries, x.2.isCallable = false ∧ f = .notCallable x.1 := by
  rcases hm with ⟨hr, ok⟩ | ⟨x, hx, hxc, fault⟩
  · have none : (st.perform step).2 = none := by
      cases hf : (st.perform step).2 with
      | none => rfl
      | some f =>
        rw [h.fault, ok] at hf
        cases hf
    exact ⟨iff_of_true none hr, by simp [none]⟩
  · have some : (st.perform step).2 = some (.notCallable x.1) := (h.fault _).2 fault
    refine ⟨iff_of_false (by simp [some]) fun hr => ?_, fun f hf => ⟨x, hx, hxc, ?_⟩⟩
    · rw [hr x hx] at hxc
      cases hxc
    · exact Option.some.inj (hf.symm.trans some)

namespace Store

theorem callableOr_performAll {P : String × Entry σ → Prop} {st : Store σ} (hs : st.Separate)
    (h : ∀ r ∈ st.views, CallableOr P r) (steps : List (Step σ))
    (hP : ∀ step ∈ steps, ∀ x ∈ step.lays, x.2.isCallable = true ∨ P x) :
    ∀ r ∈ (st.performAll steps).views, CallableOr P r := by
  induction steps generalizing st with
  | nil => exact h
  | cons step steps ih =>
    rw [List.forall_mem_cons] at hP
    obtain ⟨views, -, separate⟩ := refines_perform hs step
    refine ih separate ?_ hP.2
    rw [views]
    exact step.callableOr_apply h hP.1

/-! ### What holds after any steps -/

/-- What holds, after steps from the start, of what registries hold. -/
structure Callability (steps : List (Step σ)) (st : Store σ) : Prop where
  /-- What cannot be called was laid down by an update, or given to be laid over a copy. -/
  origin : ∀ o, ∀ x ∈ (st.view o).entries,
    x.2.isCallable = true ∨ ∃ step ∈ steps, x ∈ step.lays
  /-- If these steps have laid down nothing of that kind, everything can be called. -/
  callable : (∀ step ∈ steps, ∀ x ∈ step.lays, x.2.isCallable = true) →
    ∀ o, (st.view o).AllCallable
  /-- An update puts down whatever it is given. -/
  update : ∀ o < st.count, ∀ name e,
    ((st.perform (.update o name e)).1.view o).find? name = some e
  /-- So does a merger, with a mapping that is laid over a copy. -/
  overlay : ∀ o es, (es.map Prod.fst).Nodup → (st.view o).AllCallable → ∀ name e, (name, e) ∈ es →
    ((st.perform (.merge o (.entries es))).1.view st.count).find? name = some e
  /-- A registry is copied exactly if all that it holds can be called, -/
  copy : ∀ o, (st.perform (.copy o)).2 = none ↔ (st.view o).AllCallable
  /-- and merged under the same condition, whatever is laid over it. -/
  merge : ∀ o cover, (st.perform (.merge o cover)).2 = none ↔ (st.view o).AllCallable
  /-- The fault names what cannot be called. -/
  fault : ∀ o cover f, ((st.perform (.copy o)).2 = some f ∨ (st.perform (.merge o cover)).2 = some f) →
    ∃ x ∈ (st.view o).entries, x.2.isCallable = false ∧ f = .notCallable x.1
  /-- Where all can be called, each name stands for an operation, and a call of it is a call of that. -/
  calls : ∀ o, (st.view o).AllCallable → ∀ name ∈ (st.view o).names,
    ∃ f, (st.view o).find? name = some (.operation f) ∧ (st.view o).operations name = some f

/-- **What cannot be called has come in through an update or over a copy, and stops every copy.** -/
theorem callability_performAll (steps : List (Step σ)) :
    Callability steps (performAll .initial steps) := by
  have sound := sound_initial.performAll (σ := σ) steps
  have laws := sound.lawful
  have origin (o : Nat) : CallableOr (fun x => ∃ step ∈ steps, x ∈ step.lays)
      ((performAll .initial steps).view o) := by
    rw [view_eq_nth]
    refine forall_nth (callableOr_performAll separate_initial ?_ steps ?_) callableOr_empty o
    · intro r hr
      rw [List.mem_singleton.1 hr]
      exact callableOr_empty
    · exact fun step hstep x hx => Or.inr ⟨step, hstep, hx⟩
  have copied (o : Nat) := (laws.copy o).fault_cases (copy_cases (laws.distinct o))
  have merged (o : Nat) (cover : Operand σ) :=
    (laws.merge o cover).fault_cases (merged_cases (laws.distinct o) _)
  refine ⟨origin, ?_, ?_, ?_, fun o => (copied o).1, fun o cover => (merged o cover).1, ?_, ?_⟩
  · intro hsteps o x hx
    cases origin o x hx with
    | inl callable => exact callable
    | inr laid =>
      obtain ⟨step, hstep, hx⟩ := laid
      exact hsteps step hstep x hx
  · intro o ho name e
    have applied : (Step.update o name e).apply (performAll .initial steps).views =
        workOn o (fun r => .ok (r.put name e)) (performAll .initial steps).views := rfl
    obtain ⟨-, after⟩ := Prod.mk.inj (perform_of_workOn sound.separate applied ho)
    rw [after, find?_put, if_pos rfl]
  · intro o es hn hr name e he
    rcases merged_cases (laws.distinct o) es with ⟨-, ok⟩ | ⟨x, hx, hxc, -⟩
    · rw [((laws.merge o (.entries es)).value _ ok).2]
      exact find?_putAll hn he _
    · rw [hr x hx] at hxc
      cases hxc
  · intro o cover f hf
    cases hf with
    | inl hf => exact (copied o).2 f hf
    | inr hf => exact (merged o cover).2 f hf
  · exact fun o hr name hn => hr.operations hn

/-- A number is put under a name in the shared registry, and laid over a copy of it.  Neither is refused;
afterwards no registry of the two can be copied or merged, and a call of the name fails. -/
theorem uncallable_overlay :
    let number : Entry Unit := .inert (.int 5)
    let updated : Store Unit := performAll .initial [.update 0 "x" number]
    let merged : Store Unit := performAll .initial [.merge 0 (.entries [("x", number)])]
    ¬ (updated.view 0).AllCallable ∧ ¬ (merged.view 1).AllCallable ∧
      (updated.perform (.copy 0)).2 = some (.notCallable "x") ∧
      (updated.perform (.merge 0 (.entries []))).2 = some (.notCallable "x") ∧
      (merged.perform (.copy 1)).2 = some (.notCallable "x") ∧
      ((updated.view 0).operations "x").map (fun f => ((f .null ()).1.awaited,
        match (f .null ()).1.outcome with
        | .raised e => some e.className
        | _ => none)) = some (false, some "TypeError") := by
  refine ⟨fun h => ?_, fun h => ?_, rfl, rfl, rfl, rfl⟩
  · cases h ("x", .inert (.int 5)) (List.mem_singleton.2 rfl)
  · cases h ("x", .inert (.int 5)) (List.mem_singleton.2 rfl)

end Store

end Assay.Registry
