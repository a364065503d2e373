import Assay.Proofs.Registry.Layering

/-!
# The operations of a module

A module is made by bindings in order, of which each gives a name a place or a new attribute.  Its names
stand in the order of their first bindings, with the attributes of their last.  Which of them are
operations is decided by the attribute that a name has in the end: without a list of exports by the name
and the origin of a function, with a list by the list and by whether the attribute can be called.

* `lastBound` — the attribute that bindings leave a name with;
* `boundTo?_ofStatements`, `names_ofStatements` — what the bindings of a module come to;
* `Says` — the names that a module says it exports, `IsOperation` — whether a name is an operation;
* `Yields` — the operations of a module;
* `operations_of_bindings` — the law, and `operations_unanswered` — modules that answer for exports or
  have another name than before.
-/

namespace Assay.Module

open Registry

variable {σ : Type}

/-! ### Bindings in order -/

/-- The attribute that bindings in order leave a name with: that of the last one. -/
def lastBound (name : String) (bs : List (String × Attribute σ)) : Option (Attribute σ) :=
  boundTo? name bs.reverse

section Bindings

variable {n : String} {b : String × Attribute σ} {bs : List (String × Attribute σ)}

theorem boundTo?_cons (n : String) (b : String × Attribute σ) (bs : List (String × Attribute σ)) :
    boundTo? n (b :: bs) = if b.1 = n then some b.2 else boundTo? n bs := by
  by_cases h : b.1 = n <;> simp [boundTo?, h]

/-- Under distinct names each binding is found. -/
theorem boundTo?_of_mem (h : (bs.map Prod.fst).Nodup) (hb : b ∈ bs) : boundTo? b.1 bs = some b.2 := by
  induction bs with
  | nil => cases hb
  | cons x bs ih =>
    obtain ⟨fresh, distinct⟩ := List.nodup_cons.1 h
    rw [boundTo?_cons]
    cases List.mem_cons.1 hb with
    | inl hb => rw [hb, if_pos rfl]
    | inr hb =>
      have other : x.1 ≠ b.1 := fun same => fresh (same ▸ List.mem_map_of_mem hb)
      rw [if_neg other, ih distinct hb]

/-- Binding keeps the place of a name that is there and puts a new one last. -/
theorem names_bind (name : String) (a : Attribute σ) (bs : List (String × Attribute σ)) :
    (bind name a bs).map Prod.fst =
      if name ∈ bs.map Prod.fst then bs.map Prod.fst else bs.map Prod.fst ++ [name] := by
  induction bs with
  | nil => rfl
  | cons b bs ih =>
    by_cases same : b.1 = name
    · rw [bind, if_pos same, List.map_cons, List.map_cons, same, if_pos List.mem_cons_self]
    · rw [bind, if_neg same, List.map_cons, List.map_cons, ih]
      simp only [List.mem_cons, Ne.symm same, false_or]
      split <;> rfl

theorem boundTo?_bind (n name : String) (a : Attribute σ) (bs : List (String × Attribute σ)) :
    boundTo? n (bind name a bs) = if name = n then some a else boundTo? n bs := by
  induction bs with
  | nil => exact boundTo?_cons n (name, a) []
  | cons b bs ih =>
    by_cases same : b.1 = name
    · rw [bind, if_pos same, boundTo?_cons, boundTo?_cons, same]
      split <;> rfl
    · rw [bind, if_neg same, boundTo?_cons, boundTo?_cons, ih]
      by_cases found : name = n
      · rw [if_neg (fun h => same (h.trans found.symm)), if_pos found, if_pos found]
      · rw [if_neg found, if_neg found]

theorem ofStatements_concat (bs : List (String × Attribute σ)) (b : String × Attribute σ) :
    ofStatements (bs ++ [b]) = bind b.1 b.2 (ofStatements bs) := by
  simp only [ofStatements, List.foldl_append, List.foldl_cons, List.foldl_nil]

/-- **The names of a module stand in the order of their first bindings.** -/
theorem names_ofStatements (bs : List (String × Attribute σ)) :
    (ofStatements bs).map Prod.fst = (bs.map Prod.fst).eraseDups := by
  induction bs using List.reverseRecOn with
  | nil => rfl
  | append_singleton bs b ih =>
    rw [ofStatements_concat, names_bind, ih, List.map_append, List.map_singleton, eraseDups_concat]
    simp only [List.mem_eraseDups]

/-- **They have the attributes of their last bindings.** -/
theorem boundTo?_ofStatements (n : String) (bs : List (String × Attribute σ)) :
    boundTo? n (ofStatements bs) = lastBound n bs := by
  induction bs using List.reverseRecOn with
  | nil => rfl
  | append_singleton bs b ih =>
    rw [ofStatements_concat, boundTo?_bind, ih, lastBound, lastBound, List.reverse_concat, boundTo?_cons]

theorem nodup_ofStatements (bs : List (String × Attribute σ)) :
    ((ofStatements bs).map Prod.fst).Nodup := by
  rw [names_ofStatements]
  exact nodup_eraseDups _

end Bindings

/-! ### What a module exports -/

/-- The names that a module says it exports: those of the list that it binds, or none in particular if it
binds no list and does not answer for it either. -/
inductive Says (bs : List (String × Attribute σ)) (answer : Option (String → Except Failure (Attribute σ))) :
    Option (List String) → Prop
  | listed {names : List String} (h : lastBound "__all__" bs = some (.exports (.listed names))) :
    Says bs answer (some names)
  | unlisted (h : lastBound "__all__" bs = none)
    (ha : ∀ f, answer = some f → ∃ e, f "__all__" = .error e ∧ e.className = "AttributeError") :
    Says bs answer none

/-- Whether a name that stands for an attribute is an operation of a module that exports these names, or
that does not say. -/
def IsOperation (exports : Option (List String)) (n : String) (a : Attribute σ) : Prop :=
  match exports with
  | some names => n ∈ names ∧ a.toEntry.isCallable = true
  | none => n.startsWith "_" = false ∧ ∃ f, a = .function true f

theorem offers_iff {exports : Option (List String)} {n : String} {a : Attribute σ} :
    offers (exports.map .listed) n a = true ↔ IsOperation exports n a := by
  cases exports with
  | some names =>
    show (names.contains n && a.toEntry.isCallable) = true ↔ _
    rw [Bool.and_eq_true, List.contains_iff_mem]
    rfl
  | none =>
    cases a with
    | function own f => cases own <;> simp [offers, IsOperation]
    | _ => simp [offers, IsOperation]

theorem exported_of_says {m : Module σ} {bs : List (String × Attribute σ)}
    {exports : Option (List String)} (hm : m.bindings = ofStatements bs)
    (h : Says bs m.answer exports) : m.exported = .ok (exports.map .listed) := by
  have bound : m.attribute? "__all__" = lastBound "__all__" bs := by
    rw [attribute?, hm, boundTo?_ofStatements]
  cases h with
  | listed h =>
    rw [exported, give, attributeOrCommon?, bound, h]
    rfl
  | unlisted h ha =>
    have lacking : m.attributeOrCommon? "__all__" = none := by
      rw [attributeOrCommon?, bound, h]
      rfl
    have nothing : m.give "__all__" = .ok none := by
      rw [give, lacking]
      cases hf : m.answer with
      | none => rfl
      | some f =>
        obtain ⟨e, refused, missing⟩ := ha f hf
        simp only [refused, if_pos missing]
    rw [exported, nothing]
    rfl

/-! ### Operations -/

/-- The operations of a module that bindings have made: the names that are operations by what they stand
for in the end, in the order in which they were bound first. -/
structure Yields (m : Module σ) (bs : List (String × Attribute σ)) (exports : Option (List String))
    (r : Registry σ) : Prop where
  loaded : m.operations = .ok r
  order : r.names.Sublist (bs.map Prod.fst).eraseDups
  mem_iff : ∀ n, n ∈ r.names ↔ ∃ a, lastBound n bs = some a ∧ IsOperation exports n a
  entry : ∀ n ∈ r.names, ∃ a, lastBound n bs = some a ∧ r.find? n = some a.toEntry
  regular : r.Regular

/-- Registering what a module offers never fails: the names are distinct, and all can be called. -/
theorem ofEntries_offered {m : Module σ} (h : (m.bindings.map Prod.fst).Nodup) (exports : Option Exports) :
    ofEntries (m.offered exports) = .ok ⟨m.offered exports⟩ := by
  have names : ((m.offered exports).map Prod.fst).Sublist (m.bindings.map Prod.fst) := by
    rw [offered, List.map_map]
    exact List.filter_sublist.map _
  rcases registerAll_cases (m.offered exports) empty (names.nodup h) with ⟨-, ok⟩ | ⟨e, he, uncallable, -⟩
  · exact ok
  · rw [isCallable_of_mem_offered he] at uncallable
    cases uncallable

theorem mem_offered_iff {m : Module σ} {exports : Option Exports} {n : String} {e : Entry σ}
    (h : (m.bindings.map Prod.fst).Nodup) : (n, e) ∈ m.offered exports ↔
      ∃ a, boundTo? n m.bindings = some a ∧ offers exports n a = true ∧ e = a.toEntry := by
  rw [offered, List.mem_map]
  constructor
  · rintro ⟨b, hb, same⟩
    obtain ⟨mem, offered⟩ := List.mem_filter.1 hb
    cases same
    exact ⟨b.2, boundTo?_of_mem h mem, offered, rfl⟩
  · rintro ⟨a, found, offered, rfl⟩
    obtain ⟨b, hb, rfl⟩ := Option.map_eq_some_iff.1 found
    have same : b.1 = n :=
      beq_iff_eq.1 (List.find?_some (p := fun b : String × Attribute σ => b.1 == n) hb)
    subst same
    exact ⟨b, List.mem_filter.2 ⟨List.mem_of_find?_eq_some hb, offered⟩, rfl⟩

/-- **Every module, made of any bindings, yields its operations**: those that it exports, or its public
own functions if it neither lists nor answers for exports. -/
theorem operations_of_bindings (m : Module σ) (bs : List (String × Attribute σ))
    (exports : Option (List String)) (hm : m.bindings = ofStatements bs) (h : Says bs m.answer exports) :
    ∃ r, Yields m bs exports r := by
  have distinct : (m.bindings.map Prod.fst).Nodup := hm ▸ nodup_ofStatements bs
  have made := ofEntries_offered distinct (exports.map .listed)
  have regular := (regular_of_ofEntries made).1
  have bound (n : String) : boundTo? n m.bindings = lastBound n bs := by
    rw [hm, boundTo?_ofStatements]
  refine ⟨⟨m.offered (exports.map .listed)⟩, ?_, ?_, fun n => ?_, fun n hn => ?_, regular⟩
  · rw [operations, exported_of_says hm h]
    exact congrArg (Except.mapError ImportFault.registry) made
  · rw [← names_ofStatements, ← hm, names, offered, List.map_map]
    exact List.filter_sublist.map _
  · simp only [names, List.mem_map, Prod.exists, exists_and_right, exists_eq_right,
      mem_offered_iff distinct, bound, offers_iff]
    constructor
    · rintro ⟨e, a, found, operation, -⟩
      exact ⟨a, found, operation⟩
    · rintro ⟨a, found, operation⟩
      exact ⟨a.toEntry, a, found, operation, rfl⟩
  · obtain ⟨x, hx, rfl⟩ := List.mem_map.1 hn
    obtain ⟨a, ha, -, he⟩ := (mem_offered_iff distinct).1 hx
    rw [bound] at ha
    refine ⟨a, ha, ?_⟩
    rw [← he]
    exact (find?_of_registerAll made hx).2

/-- Names that are bound again: without a list of exports, what counts is the last function; with a list,
so do imports, classes and hidden names. -/
theorem operations_of_bindings_again :
    let f : Operation Unit := fun v s => (.value v, s)
    let bs : List (String × Attribute Unit) := [("a", .function true f), ("b", .inert (.int 3)),
      ("b", .function true f), ("a", .function false f), ("_c", .function true f), ("k", .callable "type" f)]
    let listing := bs ++ [("__all__", .exports (.listed ["k", "_c", "absent", "a"]))]
    (∃ r, Yields { name := "m", bindings := ofStatements bs } bs none r) ∧
    ∃ r, Yields { name := "m", bindings := ofStatements listing } listing
      (some ["k", "_c", "absent", "a"]) r := by
  intro f bs listing
  constructor
  · exact operations_of_bindings _ bs none rfl (.unlisted rfl nofun)
  · exact operations_of_bindings _ listing _ rfl (.listed rfl)

/-- A module that answers for names with a failure of another kind cannot tell its operations, and one
that has another name than when it defined a function does not offer that function. -/
theorem operations_unanswered :
    let f : Operation Unit := fun v s => (.value v, s)
    let answering : List (String × Attribute Unit) := [("__getattr__", .inert (.int 3))]
    let renamed : List (String × Attribute Unit) := [("f", .function false f), ("__name__", .inert (.int 3))]
    (¬ ∃ r, Yields { name := "m", bindings := ofStatements answering
                     answer := some fun _ => .error (.type "'int' object is not callable") }
      answering none r) ∧
    ∀ r, Yields { name := "3", bindings := ofStatements renamed } renamed none r → "f" ∉ r.names := by
  intro f answering renamed
  constructor
  · rintro ⟨r, yields⟩
    cases yields.loaded
  · intro r yields defined
    obtain ⟨a, bound, -, g, same⟩ := (yields.mem_iff "f").1 defined
    cases bound
    cases same

end Assay.Module
