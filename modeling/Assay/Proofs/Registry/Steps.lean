import Assay.Proofs.Registry.Names
import Assay.Registry.Store
import Mathlib.Data.List.Forall2

/-!
# Steps on the values of registries

A step on registries that are plain values, in a list: it replaces one of them or puts a new one at
the end, or it fails and leaves the list as it is.

* `Step.apply` — a step on such a list, `Step.target?` — the one that it is on;
* `Step.apply_cases` — the two kinds of steps, and from it what a step leaves as it is;
* `Step.logged` — the names that steps insert into each registry;
* `Step.lists_apply` — the registries list these names, each at its first place.
-/

namespace Assay.Registry

variable {σ : Type}

/-! ### Steps on values -/

/-- Works on the value of a registry. -/
def workOn (o : Nat) (f : Registry σ → Except Fault (Registry σ)) (rs : List (Registry σ)) :
    List (Registry σ) × Option Fault :=
  match rs[o]? with
  | none => (rs, none)
  | some r =>
    match f r with
    | .error fault => (rs, some fault)
    | .ok r' => (rs.set o r', none)

/-- Puts a new registry at the end. -/
def adding (made : Except Fault (Registry σ)) (rs : List (Registry σ)) :
    List (Registry σ) × Option Fault :=
  match made with
  | .error fault => (rs, some fault)
  | .ok r => (rs ++ [r], none)

/-- The value of a registry; one that is not there is empty. -/
def nth (o : Nat) (rs : List (Registry σ)) : Registry σ := rs[o]?.getD .empty

/-- The entries that an operand stands for. -/
def laid (rs : List (Registry σ)) : Operand σ → List (String × Entry σ)
  | .registry o => (nth o rs).entries
  | .entries es => es

/-- Takes a step on the values of registries. -/
def Step.apply (rs : List (Registry σ)) : Step σ → List (Registry σ) × Option Fault
  | .construct es => adding (ofEntries es) rs
  | .copy o => adding (nth o rs).copy rs
  | .merge o cover => adding ((nth o rs).merged (laid rs cover)) rs
  | .register o name e => workOn o (Registry.register name e) rs
  | .update o name e => workOn o (fun r => .ok (r.put name e)) rs
  | .announce given own e => workOn 0 (Registry.announce given own e) rs
  | .clear => workOn 0 (fun _ => .ok .empty) rs

/-- The registry that a step is on; one that makes a registry is on none. -/
def Step.target? : Step σ → Option Nat
  | .construct _ => none
  | .copy _ => none
  | .merge _ _ => none
  | .register o _ _ => some o
  | .update o _ _ => some o
  | .announce _ _ _ => some 0
  | .clear => some 0

section Values

variable {rs : List (Registry σ)} {o p : Nat} {f : Registry σ → Except Fault (Registry σ)}
  {made : Except Fault (Registry σ)} {fault : Fault}

theorem workOn_of_fault (h : (workOn o f rs).2 = some fault) : (workOn o f rs).1 = rs := by
  unfold workOn at h ⊢
  split at h
  · rfl
  · split at h
    · rfl
    · cases h

theorem adding_of_fault (h : (adding made rs).2 = some fault) : (adding made rs).1 = rs := by
  unfold adding at h ⊢
  split at h
  · rfl
  · cases h

theorem nth_workOn (h : p ≠ o) : nth p (workOn o f rs).1 = nth p rs := by
  unfold workOn
  split
  · rfl
  · split
    · rfl
    · rw [nth, List.getElem?_set_ne (Ne.symm h)]
      rfl

theorem nth_adding (h : p < rs.length) : nth p (adding made rs).1 = nth p rs := by
  unfold adding
  split
  · rfl
  · rw [nth, List.getElem?_append_left h]
    rfl

theorem length_workOn : (workOn o f rs).1.length = rs.length := by
  unfold workOn
  split
  · rfl
  · split
    · rfl
    · exact List.length_set

theorem length_le_adding : rs.length ≤ (adding made rs).1.length := by
  unfold adding
  split
  · exact Nat.le_refl _
  · rw [List.length_append]
    exact Nat.le_add_right _ _

/-- Work on a registry that is there comes to what is made of its value. -/
theorem workOn_eq (h : o < rs.length) :
    ((workOn o f rs).2, nth o (workOn o f rs).1) =
      match f (nth o rs) with
      | .error fault => (some fault, nth o rs)
      | .ok r => (none, r) := by
  have found : rs[o]? = some (nth o rs) := by
    rw [nth, List.getElem?_eq_getElem h]
    rfl
  unfold workOn
  rw [found]
  dsimp only
  cases f (nth o rs) with
  | error fault => rfl
  | ok r =>
    dsimp only
    rw [nth, List.getElem?_set_self h]
    rfl

theorem nth_length_append (r : Registry σ) : nth rs.length (rs ++ [r]) = r := by
  rw [nth, List.getElem?_concat_length]
  rfl

end Values

/-- A step makes a registry, or it works on the one that it is on. -/
theorem Step.apply_cases (step : Step σ) (rs : List (Registry σ)) :
    (∃ made, step.target? = none ∧ step.apply rs = adding made rs) ∨
      ∃ o f, step.target? = some o ∧ step.apply rs = workOn o f rs := by
  cases step with
  | construct es => exact Or.inl ⟨_, rfl, rfl⟩
  | copy o => exact Or.inl ⟨_, rfl, rfl⟩
  | merge o cover => exact Or.inl ⟨_, rfl, rfl⟩
  | register o name e => exact Or.inr ⟨o, _, rfl, rfl⟩
  | update o name e => exact Or.inr ⟨o, fun r => .ok (r.put name e), rfl, rfl⟩
  | announce given own e => exact Or.inr ⟨0, _, rfl, rfl⟩
  | clear => exact Or.inr ⟨0, fun _ => .ok .empty, rfl, rfl⟩

/-- A step that fails leaves the values as they are. -/
theorem Step.apply_of_fault {step : Step σ} {rs : List (Registry σ)} {fault : Fault}
    (h : (step.apply rs).2 = some fault) : (step.apply rs).1 = rs := by
  rcases step.apply_cases rs with ⟨made, -, hs⟩ | ⟨o, f, -, hs⟩
  · rw [hs] at h ⊢
    exact adding_of_fault h
  · rw [hs] at h ⊢
    exact workOn_of_fault h

/-- A step changes no value but that of the registry that it is on. -/
theorem Step.nth_apply {step : Step σ} {rs : List (Registry σ)} {o : Nat} (h : step.target? ≠ some o)
    (ho : o < rs.length) : nth o (step.apply rs).1 = nth o rs := by
  rcases step.apply_cases rs with ⟨made, -, hs⟩ | ⟨p, f, hp, hs⟩
  · rw [hs]
    exact nth_adding ho
  · have other : o ≠ p := by
      rintro rfl
      exact h hp
    rw [hs]
    exact nth_workOn other

/-- No registry is ever lost. -/
theorem Step.length_le_apply (step : Step σ) (rs : List (Registry σ)) :
    rs.length ≤ (step.apply rs).1.length := by
  rcases step.apply_cases rs with ⟨made, -, hs⟩ | ⟨o, f, -, hs⟩
  · rw [hs]
    exact length_le_adding
  · rw [hs]
    exact Nat.le_of_eq length_workOn.symm

/-! ### Insertions -/

/-- What has been inserted after a step: nothing more if it has failed. -/
def noted (fault : Option Fault) (old new : List (List String)) : List (List String) :=
  match fault with
  | some _ => old
  | none => new

/-- The names inserted into each registry, after a step that has not failed. -/
def Step.logged (rs : List (Registry σ)) (logs : List (List String)) : Step σ → List (List String)
  | .construct es => logs ++ [es.map Prod.fst]
  | .copy o => logs ++ [(nth o rs).names]
  | .merge o cover => logs ++ [(nth o rs).names ++ (laid rs cover).map Prod.fst]
  | .register o name _ => logs.modify o (· ++ [name])
  | .update o name _ => logs.modify o (· ++ [name])
  | .announce given own _ => logs.modify 0 (· ++ (announcedName given own).toOption.toList)
  | .clear => logs.modify 0 fun _ => []

theorem forall₂_modify {α β : Type} {R : α → β → Prop} {as : List α} {bs : List β}
    (h : List.Forall₂ R as bs) {o : Nat} {b b' : β} {f : α → α} (hb : bs[o]? = some b)
    (hf : ∀ a, R a b → R (f a) b') : List.Forall₂ R (as.modify o f) (bs.set o b') := by
  induction h generalizing o with
  | nil => cases hb
  | cons hab hrest ih =>
    cases o with
    | zero =>
      cases hb
      exact .cons (hf _ hab) hrest
    | succ o => exact .cons hab (ih hb)

/-- Work that inserts names keeps the lists of the registries, and so does failing. -/
theorem lists_workOn {rs : List (Registry σ)} {logs : List (List String)}
    (h : List.Forall₂ Lists logs rs) {o : Nat} {f : Registry σ → Except Fault (Registry σ)}
    {g : List String → List String}
    (hf : ∀ log r r', Lists log r → f r = .ok r' → Lists (g log) r') :
    List.Forall₂ Lists (noted (workOn o f rs).2 logs (logs.modify o g)) (workOn o f rs).1 := by
  unfold workOn
  cases ho : rs[o]? with
  | none =>
    have past : logs.length ≤ o := by
      rw [h.length_eq]
      exact List.getElem?_eq_none_iff.1 ho
    rw [noted, List.modify_eq_self past]
    exact h
  | some r =>
    dsimp only
    cases hr : f r with
    | error fault => exact h
    | ok r' => exact forall₂_modify h ho fun log hlog => hf log r r' hlog hr

theorem lists_adding {rs : List (Registry σ)} {logs : List (List String)}
    (h : List.Forall₂ Lists logs rs) {made : Except Fault (Registry σ)} {log : List String}
    (hm : ∀ r, made = .ok r → Lists log r) :
    List.Forall₂ Lists (noted (adding made rs).2 logs (logs ++ [log])) (adding made rs).1 := by
  unfold adding
  cases made with
  | error fault => exact h
  | ok r => exact List.rel_append h (.cons (hm r rfl) .nil)

theorem lists_ofEntries {es : List (String × Entry σ)} {r : Registry σ} (h : ofEntries es = .ok r) :
    Lists (es.map Prod.fst) r :=
  lists_empty.registerAll h

/-- **A step keeps the names of every registry in the order of their first insertion.** -/
theorem Step.lists_apply {rs : List (Registry σ)} {logs : List (List String)}
    (h : List.Forall₂ Lists logs rs) (step : Step σ) :
    List.Forall₂ Lists (noted (step.apply rs).2 logs (step.logged rs logs)) (step.apply rs).1 := by
  cases step with
  | construct es => exact lists_adding h fun r hr => lists_ofEntries hr
  | copy o => exact lists_adding h fun r hr => lists_ofEntries hr
  | merge o cover =>
    refine lists_adding h fun r hr => ?_
    obtain ⟨s, hs, ⟨⟩⟩ := bind_eq_ok_iff.1 hr
    exact (lists_ofEntries hs).putAll (laid rs cover)
  | register o name e => exact lists_workOn h fun log r r' hlog hr => hlog.register hr
  | update o name e =>
    refine lists_workOn h fun log r r' hlog hr => ?_
    cases hr
    exact hlog.put name e
  | announce given own e =>
    refine lists_workOn h fun log r r' hlog hr => ?_
    obtain ⟨name, hname, hr⟩ := bind_eq_ok_iff.1 hr
    rw [hname]
    exact hlog.register hr
  | clear =>
    refine lists_workOn h fun log r r' _ hr => ?_
    cases hr
    exact lists_empty

end Assay.Registry
