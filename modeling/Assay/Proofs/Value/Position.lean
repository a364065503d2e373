import Assay.Proofs.Value.KeySet

/-!
# Corresponding positions of two values

Two values are walked at once: under a key of a mapping to the value that the other mapping has under
the same key, and to the items of two sequences at one index.  `Meets` is where such a walk leads.

* `Below` — one step of the walk, `Meets` — any number of steps;
* `pair_cases` — two values are sequences, mappings or leaves, and `forall_below_of_items` and
  `forall_below_of_entries` say which steps lead from the first two;
* `ShapeAt` — the lengths and the sets of keys agree at a position;
* `meets_iff` — a property of pairs that unfolds to a local condition and the same property one step
  further holds exactly if the local condition holds wherever the walk leads.  A state that each step
  may change is carried along, so that one induction serves every comparison.
-/

namespace Assay.Value

variable {τ : Type}

/-- One step into a value: under a key of a mapping, or to an item of a sequence. -/
inductive Step (τ : Type := String) where
  | key (k : Value τ)
  | item (i : Nat)

/-- The items of a sequence of either kind. -/
def items? : Value τ → Option (List (Value τ))
  | .list xs => some xs
  | .tuple xs => some xs
  | _ => none

/-- The entries of a mapping of either kind. -/
def entries? : Value τ → Option (Entries τ)
  | .map _ es => some es
  | _ => none

theorem entries?_eq_some {a : Value τ} {as : Entries τ} (h : a.entries? = some as) :
    ∃ frozen, a = .map frozen as := by
  cases a with
  | map frozen es =>
    cases h
    exact ⟨frozen, rfl⟩
  | _ => cases h

theorem items?_eq_some {a : Value τ} {xs : List (Value τ)} (h : a.items? = some xs) :
    a = .list xs ∨ a = .tuple xs := by
  cases a with
  | list ys =>
    cases h
    exact Or.inl rfl
  | tuple ys =>
    cases h
    exact Or.inr rfl
  | _ => cases h

theorem entries?_of_items {a : Value τ} {xs : List (Value τ)} (h : a.items? = some xs) :
    a.entries? = none := by
  rcases items?_eq_some h with rfl | rfl <;> rfl

/-! ### Pairs -/

/-- The sequences and mappings of a pair are not of one kind. -/
def IsLeafPair (a b : Value τ) : Prop :=
  (a.items? = none ∨ b.items? = none) ∧ (a.entries? = none ∨ b.entries? = none)

/-- A pair is two sequences, two mappings or a pair of leaves. -/
theorem pair_cases (a b : Value τ) :
    (∃ xs ys, a.items? = some xs ∧ b.items? = some ys) ∨
      (∃ as bs, a.entries? = some as ∧ b.entries? = some bs) ∨ IsLeafPair a b := by
  cases ha : a.items? with
  | some xs =>
    cases hb : b.items? with
    | some ys => exact Or.inl ⟨xs, ys, rfl, rfl⟩
    | none => exact Or.inr (Or.inr ⟨Or.inr hb, Or.inl (entries?_of_items ha)⟩)
  | none =>
    cases hae : a.entries? with
    | none => exact Or.inr (Or.inr ⟨Or.inl ha, Or.inl hae⟩)
    | some as =>
      cases hbe : b.entries? with
      | none => exact Or.inr (Or.inr ⟨Or.inl ha, Or.inr hbe⟩)
      | some bs => exact Or.inr (Or.inl ⟨as, bs, rfl, rfl⟩)

theorem not_isLeafPair_of_items {a b : Value τ} {xs ys : List (Value τ)} (ha : a.items? = some xs)
    (hb : b.items? = some ys) : ¬ IsLeafPair a b := by
  rintro ⟨hi, -⟩
  simp [ha, hb] at hi

theorem not_isLeafPair_of_entries {a b : Value τ} {as bs : Entries τ} (ha : a.entries? = some as)
    (hb : b.entries? = some bs) : ¬ IsLeafPair a b := by
  rintro ⟨-, he⟩
  simp [ha, hb] at he

/-! ### Positions -/

variable [DecidableEq τ]

/-- One step from two values at once; a key is spelled as in the first. -/
inductive Below : Value τ → Value τ → Step τ → Value τ → Value τ → Prop
  | key {a b k v w : Value τ} {as bs : Entries τ} (ha : a.entries? = some as) (hb : b.entries? = some bs)
      (hv : (k, v) ∈ as) (hw : lookup k bs = some w) : Below a b (.key k) v w
  | item {a b v w : Value τ} {xs ys : List (Value τ)} {i : Nat} (ha : a.items? = some xs)
      (hb : b.items? = some ys) (hv : xs[i]? = some v) (hw : ys[i]? = some w) :
      Below a b (.item i) v w

/-- Steps from two values at once lead to two values. -/
inductive Meets : Value τ → Value τ → List (Step τ) → Value τ → Value τ → Prop
  | here (a b : Value τ) : Meets a b [] a b
  | step {a b c d x y : Value τ} {s : Step τ} {p : List (Step τ)} (h : Below a b s c d)
      (h' : Meets c d p x y) : Meets a b (s :: p) x y

/-- What two values of one shape have in common at a position: sequences are of one length, and
mappings have the same keys. -/
structure ShapeAt (x y : Value τ) : Prop where
  lengths : ∀ xs ys, x.items? = some xs → y.items? = some ys → xs.length = ys.length
  keys : ∀ as bs, x.entries? = some as → y.entries? = some bs → SameKeys as bs

theorem shapeAt_of_items {a b : Value τ} {xs ys : List (Value τ)} (ha : a.items? = some xs)
    (hb : b.items? = some ys) : ShapeAt a b ↔ xs.length = ys.length := by
  constructor
  · intro h
    exact h.lengths xs ys ha hb
  · intro h
    refine ⟨?_, ?_⟩
    · intro xs' ys' ha' hb'
      cases ha.symm.trans ha'
      cases hb.symm.trans hb'
      exact h
    · intro as bs ha'
      rw [entries?_of_items ha] at ha'
      cases ha'

theorem shapeAt_of_entries {a b : Value τ} {as bs : Entries τ} (ha : a.entries? = some as)
    (hb : b.entries? = some bs) : ShapeAt a b ↔ SameKeys as bs := by
  constructor
  · intro h
    exact h.keys as bs ha hb
  · intro h
    refine ⟨?_, ?_⟩
    · intro xs ys ha'
      rw [entries?_of_items ha'] at ha
      cases ha
    · intro as' bs' ha' hb'
      cases ha.symm.trans ha'
      cases hb.symm.trans hb'
      exact h

/-- Leaves have no shape to differ in. -/
theorem shapeAt_of_isLeafPair {a b : Value τ} (h : IsLeafPair a b) : ShapeAt a b :=
  ⟨fun _ _ ha hb => absurd h (not_isLeafPair_of_items ha hb),
    fun _ _ ha hb => absurd h (not_isLeafPair_of_entries ha hb)⟩

/-! ### One step -/

/-- The steps from two sequences. -/
theorem forall_below_of_items {a b : Value τ} {xs ys : List (Value τ)} (ha : a.items? = some xs)
    (hb : b.items? = some ys) {P : Step τ → Value τ → Value τ → Prop} :
    (∀ s x y, Below a b s x y → P s x y) ↔
      ∀ (i : Nat) (x y : Value τ), xs[i]? = some x → ys[i]? = some y → P (.item i) x y := by
  constructor
  · intro h i x y hx hy
    exact h (.item i) x y (.item ha hb hx hy)
  · intro h s x y hs
    cases hs with
    | key ha' hb' hv hw =>
      rw [entries?_of_items ha] at ha'
      cases ha'
    | item ha' hb' hx hy =>
      cases ha.symm.trans ha'
      cases hb.symm.trans hb'
      exact h _ x y hx hy

/-- The steps from two mappings. -/
theorem forall_below_of_entries {a b : Value τ} {as bs : Entries τ} (ha : a.entries? = some as)
    (hb : b.entries? = some bs) {P : Step τ → Value τ → Value τ → Prop} :
    (∀ s x y, Below a b s x y → P s x y) ↔
      ∀ k v w, (k, v) ∈ as → lookup k bs = some w → P (.key k) v w := by
  constructor
  · intro h k v w hv hw
    exact h (.key k) v w (.key ha hb hv hw)
  · intro h s x y hs
    cases hs with
    | key ha' hb' hv hw =>
      cases ha.symm.trans ha'
      cases hb.symm.trans hb'
      exact h _ x y hv hw
    | item ha' hb' hx hy =>
      rw [entries?_of_items ha'] at ha
      cases ha

/-- No step leads from two leaves. -/
theorem not_below_of_isLeafPair {a b x y : Value τ} {s : Step τ} (h : IsLeafPair a b) :
    ¬ Below a b s x y := by
  intro hs
  cases hs with
  | key ha hb hv hw => exact not_isLeafPair_of_entries ha hb h
  | item ha hb hv hw => exact not_isLeafPair_of_items ha hb h

/-- A local condition at two leaves, with nothing further to ask. -/
theorem and_forall_below_of_isLeafPair {a b : Value τ} (h : IsLeafPair a b) {Q : Prop}
    {P : Step τ → Value τ → Value τ → Prop} : (Q ∧ ∀ s x y, Below a b s x y → P s x y) ↔ Q :=
  and_iff_left fun _ _ _ hs => absurd hs (not_below_of_isLeafPair h)

/-- A step leads to a smaller value. -/
theorem Below.sizeOf_lt [SizeOf τ] {a b x y : Value τ} {s : Step τ} (h : Below a b s x y) : sizeOf x < sizeOf a := by
  cases h with
  | key ha hb hv hw =>
    obtain ⟨frozen, rfl⟩ := entries?_eq_some ha
    have := List.sizeOf_lt_of_mem hv
    simp only [Prod.mk.sizeOf_spec, map.sizeOf_spec] at this ⊢
    omega
  | item ha hb hv hw =>
    have := List.sizeOf_lt_of_mem (List.mem_of_getElem? hv)
    rcases items?_eq_some ha with rfl | rfl
    · simp only [list.sizeOf_spec]
      omega
    · simp only [tuple.sizeOf_spec]
      omega

theorem WellKeyed.distinctKeys {a : Value τ} (h : WellKeyed a) {as : Entries τ}
    (ha : a.entries? = some as) : DistinctKeys as := by
  obtain ⟨frozen, rfl⟩ := entries?_eq_some ha
  exact (wellKeyed_map.1 h).1

/-- A step stays among values with pairwise different keys. -/
theorem Below.wellKeyed {a b x y : Value τ} {s : Step τ} (h : Below a b s x y) (ha : WellKeyed a)
    (hb : WellKeyed b) : WellKeyed x ∧ WellKeyed y := by
  cases h with
  | key hea heb hv hw =>
    obtain ⟨frozen, rfl⟩ := entries?_eq_some hea
    obtain ⟨frozen', rfl⟩ := entries?_eq_some heb
    obtain ⟨k', hm, -⟩ := mem_of_lookup hw
    exact ⟨(wellKeyed_map.1 ha).2 _ hv, (wellKeyed_map.1 hb).2 _ hm⟩
  | item hia hib hv hw =>
    have hx := List.mem_of_getElem? hv
    have hy := List.mem_of_getElem? hw
    constructor
    · rcases items?_eq_some hia with rfl | rfl
      · exact wellKeyed_list.1 ha _ hx
      · exact wellKeyed_tuple.1 ha _ hx
    · rcases items?_eq_some hib with rfl | rfl
      · exact wellKeyed_list.1 hb _ hy
      · exact wellKeyed_tuple.1 hb _ hy

section Walk

variable {σ : Type} (next : σ → Step τ → Option σ)

/-- The state after some steps, unless a step has none. -/
def walk : σ → List (Step τ) → Option σ
  | t, [] => some t
  | t, s :: p => (next t s).bind fun u => walk u p

variable {next} {inv : Value τ → Value τ → Prop} {localAt holds : σ → Value τ → Value τ → Prop}

/-- **A property of pairs that unfolds step by step holds exactly if its local condition holds
wherever the steps lead.** -/
theorem meets_iff (hinv : ∀ {a b s x y}, inv a b → Below a b s x y → inv x y)
    (unfold : ∀ {t a b}, inv a b → (holds t a b ↔
      localAt t a b ∧ ∀ s x y, Below a b s x y → ∃ u, next t s = some u ∧ holds u x y))
    {t : σ} {a b : Value τ} (hab : inv a b) :
    holds t a b ↔ ∀ p x y, Meets a b p x y → ∃ u, walk next t p = some u ∧ localAt u x y := by
  constructor
  · intro h p x y m
    induction m generalizing t with
    | here a b => exact ⟨t, rfl, ((unfold hab).1 h).1⟩
    | step hs _ ih =>
      obtain ⟨u, hu, hc⟩ := ((unfold hab).1 h).2 _ _ _ hs
      obtain ⟨w, hw, hl⟩ := ih (hinv hab hs) hc
      refine ⟨w, ?_, hl⟩
      rw [walk, hu]
      exact hw
  · intro h
    -- The values shrink at each step.
    induction hn : sizeOf a using Nat.strongRecOn generalizing t a b with
    | ind n ih =>
      subst hn
      rw [unfold hab]
      refine ⟨?_, ?_⟩
      · obtain ⟨u, hu, hl⟩ := h [] a b (.here a b)
        cases hu
        exact hl
      · intro s x y hs
        obtain ⟨u, hu, -⟩ := h [s] x y (.step hs (.here x y))
        rw [walk] at hu
        obtain ⟨w, hw, -⟩ := Option.bind_eq_some_iff.1 hu
        refine ⟨w, hw, ih _ hs.sizeOf_lt (hinv hab hs) ?_ rfl⟩
        intro p x' y' m
        obtain ⟨v, hv, hl⟩ := h (s :: p) x' y' (.step hs m)
        rw [walk, hw] at hv
        exact ⟨v, hv, hl⟩

end Walk

/-- The same without a state. -/
theorem meets_iff_of_unfold {inv localAt holds : Value τ → Value τ → Prop}
    (hinv : ∀ {a b s x y}, inv a b → Below a b s x y → inv x y)
    (unfold : ∀ {a b}, inv a b → (holds a b ↔ localAt a b ∧ ∀ s x y, Below a b s x y → holds x y))
    {a b : Value τ} (hab : inv a b) :
    holds a b ↔ ∀ p x y, Meets a b p x y → localAt x y := by
  have stateless : ∀ p, walk (fun (_ : Unit) (_ : Step τ) => some ()) () p = some () := by
    intro p
    induction p with
    | nil => rfl
    | cons s p ih => exact ih
  have walked := @meets_iff τ _ Unit (fun _ _ => some ()) inv (fun _ => localAt) (fun _ => holds) hinv
    (fun h => (unfold h).trans
      (and_congr_right fun _ => forall₄_congr fun _ _ _ _ => ⟨fun g => ⟨(), rfl, g⟩, fun ⟨_, _, g⟩ => g⟩))
    () a b hab
  rw [walked]
  exact forall₄_congr fun p _ _ _ => ⟨fun ⟨_, _, g⟩ => g, fun g => ⟨(), stateless p, g⟩⟩

end Assay.Value
