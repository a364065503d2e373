import Assay.Comparison.Mode
import Assay.Proofs.Comparison.Deep

/-!
# Approximate equality, position by position

Approximate equality walks two values together with a tolerance.  This file says what it decides:

* `Tolerance.step` — what a tolerance becomes under a key or at an index;
* `Agrees` — the shapes agree at every position, leaves that are no numbers are deeply equal, and
  numbers are within the tolerance that the keys on the way lead to;
* `approxEqual_iff` — approximate equality holds exactly if the values agree and every key that a
  structure is led through has a text;
* `approxEqual_decides` — the same together with a number and the structure of its value, which decide
  alike.
-/

namespace Assay

open Value (Step Below Meets WellKeyed SameKeys Entries)

namespace Tolerance

/-- What a tolerance becomes one step further: a plain bound stays what it is, a structure changes
under a key that names one of its fields only.  A key without a text leads a structure nowhere. -/
def step : Tolerance → Step → Option Tolerance
  | t, .item _ => some t
  | .plain bound, .key _ => some (.plain bound)
  | .structured abs rel fields, .key k =>
    match k.text with
    | .ok name => some ((fields.lookup name).getD (.structured abs rel fields))
    | .error _ => none

/-- The tolerance that some steps lead to. -/
def along (t : Tolerance) (p : List Step) : Option Tolerance := Value.walk step t p

theorem find?_map_eq_lookup (name : String) (fields : List (String × Tolerance)) :
    (fields.find? fun f => f.1 == name).map Prod.snd = fields.lookup name := by
  induction fields with
  | nil => rfl
  | cons f fields ih =>
    obtain ⟨n, u⟩ := f
    by_cases h : n = name
    · subst h
      simp
    · have hne : (n == name) = false := by simpa using h
      have hne' : (name == n) = false := by simpa using fun e => h e.symm
      rw [List.find?_cons, List.lookup_cons, hne, hne']
      exact ih

theorem forKey_eq_ok_iff {t u : Tolerance} {k : Value} :
    t.forKey k = .ok u ↔ t.step (.key k) = some u := by
  cases t with
  | plain b => simp [forKey, step]
  | structured a r fs =>
    cases hk : k.text with
    | error f => simp [forKey, step, hk, bind, Except.bind]
    | ok name =>
      simp [forKey, step, hk, bind, Except.bind, pure, Except.pure, forField, find?_map_eq_lookup]

end Tolerance

namespace Value

/-! ### One step of the comparison -/

theorem approxAll_iff {t : Tolerance} {xs ys : List Value} :
    approxAll t xs ys = .ok true ↔
      ∀ (i : Nat) (x y : Value), xs[i]? = some x → ys[i]? = some y → approxEqual t x y = .ok true := by
  induction xs generalizing ys with
  | nil => simp [approxAll]
  | cons x xs ih =>
    cases ys with
    | nil => simp [approxAll]
    | cons y ys => rw [approxAll, bind_ite_ok_iff, ih, forall_getElem?_cons]

theorem approxEntries_iff {t : Tolerance} {as bs : Entries} :
    approxEntries t bs as = .ok true ↔
      ∀ k v, (k, v) ∈ as → ∃ u w, t.step (.key k) = some u ∧ lookup k bs = some w ∧
        approxEqual u v w = .ok true := by
  induction as with
  | nil => simp [approxEntries]
  | cons e es ih =>
    obtain ⟨k, v⟩ := e
    rw [forall_mem_entries_cons, ← ih, approxEntries]
    cases hf : t.forKey k with
    | error f =>
      have nowhere : ∀ u, t.step (.key k) ≠ some u := by
        intro u hu
        rw [Tolerance.forKey_eq_ok_iff.2 hu] at hf
        cases hf
      simp [nowhere, bind, Except.bind]
    | ok u =>
      rw [Tolerance.forKey_eq_ok_iff.1 hf]
      cases hw : lookup k bs with
      | none => simp [bind, Except.bind, pure, Except.pure]
      | some w =>
        simp only [Option.some.injEq, exists_and_left, exists_eq_left', bind, Except.bind]
        exact bind_ite_ok_iff

theorem approxEqual_of_items {t : Tolerance} {a b : Value} {xs ys : List Value}
    (ha : a.items? = some xs) (hb : b.items? = some ys) :
    approxEqual t a b = if xs.length = ys.length then approxAll t xs ys else .ok false := by
  rcases items?_eq_some ha with rfl | rfl <;> rcases items?_eq_some hb with rfl | rfl <;> rfl

theorem approxEqual_of_entries {t : Tolerance} {a b : Value} {as bs : Entries}
    (ha : a.entries? = some as) (hb : b.entries? = some bs) :
    approxEqual t a b = if sameKeySet as bs then approxEntries t bs as else .ok false := by
  obtain ⟨_, rfl⟩ := entries?_eq_some ha
  obtain ⟨_, rfl⟩ := entries?_eq_some hb
  rfl

theorem approxEqual_of_isLeafPair {t : Tolerance} {a b : Value} (h : IsLeafPair a b) :
    approxEqual t a b = if a.isNumber && b.isNumber then t.within a b else deepEqual a b := by
  obtain ⟨hi, he⟩ := h
  cases a <;> cases b <;> first | rfl | simp [items?, entries?] at hi he

/-! ### What agrees at a position -/

/-- What must hold of two values at a position, under the tolerance that is in effect there, if there
is one. -/
structure AgreesAt (t : Option Tolerance) (x y : Value) : Prop extends ShapeAt x y where
  family : x.family = y.family
  leaf : IsLeafPair x y → ¬ (x.isNumber = true ∧ y.isNumber = true) → deepEqual x y = .ok true
  number : x.isNumber = true → y.isNumber = true → ∃ u, t = some u ∧ u.within x y = .ok true

/-- Two values agree at every position, under the tolerance that the keys on the way lead to. -/
def Agrees (t : Tolerance) (a b : Value) : Prop :=
  ∀ p x y, Meets a b p x y → AgreesAt (t.along p) x y

/-- The tolerance leads to every position: no structure meets a key without a text. -/
def Leads (t : Tolerance) (a b : Value) : Prop := ∀ p x y, Meets a b p x y → (t.along p).isSome = true

theorem isNumber_of_items {a : Value} {xs : List Value} (h : a.items? = some xs) :
    a.isNumber = false := by
  rcases items?_eq_some h with rfl | rfl <;> rfl

theorem isNumber_of_entries {a : Value} {as : Entries} (h : a.entries? = some as) :
    a.isNumber = false := by
  obtain ⟨_, rfl⟩ := entries?_eq_some h
  rfl

/-- At two sequences the only question is their length. -/
theorem agreesAt_of_items {t : Option Tolerance} {a b : Value} {xs ys : List Value}
    (ha : a.items? = some xs) (hb : b.items? = some ys) : AgreesAt t a b ↔ xs.length = ys.length := by
  rw [← shapeAt_of_items ha hb]
  constructor
  · intro h
    exact h.toShapeAt
  · intro h
    refine ⟨h, ?_, fun hl => absurd hl (not_isLeafPair_of_items ha hb), ?_⟩
    · rcases items?_eq_some ha with rfl | rfl <;> rcases items?_eq_some hb with rfl | rfl <;> rfl
    · intro hn
      rw [isNumber_of_items ha] at hn
      cases hn

/-- At two mappings the only question is the set of their keys. -/
theorem agreesAt_of_entries {t : Option Tolerance} {a b : Value} {as bs : Entries}
    (ha : a.entries? = some as) (hb : b.entries? = some bs) : AgreesAt t a b ↔ SameKeys as bs := by
  rw [← shapeAt_of_entries ha hb]
  constructor
  · intro h
    exact h.toShapeAt
  · intro h
    refine ⟨h, ?_, fun hl => absurd hl (not_isLeafPair_of_entries ha hb), ?_⟩
    · obtain ⟨_, rfl⟩ := entries?_eq_some ha
      obtain ⟨_, rfl⟩ := entries?_eq_some hb
      rfl
    · intro hn
      rw [isNumber_of_entries ha] at hn
      cases hn

/-- At two leaves the comparison itself is the question. -/
theorem agreesAt_of_isLeafPair {t : Tolerance} {a b : Value} (h : IsLeafPair a b) :
    AgreesAt (some t) a b ↔ approxEqual t a b = .ok true := by
  rw [approxEqual_of_isLeafPair h]
  by_cases hn : a.isNumber = true ∧ b.isNumber = true
  · rw [if_pos (Bool.and_eq_true_iff.2 hn)]
    constructor
    · intro g
      obtain ⟨u, hu, hw⟩ := g.number hn.1 hn.2
      cases hu
      exact hw
    · intro g
      refine ⟨shapeAt_of_isLeafPair h, ?_, fun _ hne => absurd hn hne, fun _ _ => ⟨t, rfl, g⟩⟩
      rw [family_of_isNumber hn.1, family_of_isNumber hn.2]
  · rw [if_neg (mt Bool.and_eq_true_iff.1 hn)]
    constructor
    · intro g
      exact g.leaf h hn
    · intro g
      exact ⟨shapeAt_of_isLeafPair h, family_eq_of_deepEqual g, fun _ _ => g,
        fun ha hb => absurd ⟨ha, hb⟩ hn⟩

/-- One step of approximate equality: the pair agrees, and so does what stands one step further. -/
theorem approxEqual_step {t : Tolerance} {a b : Value} (hab : WellKeyed a ∧ WellKeyed b) :
    approxEqual t a b = .ok true ↔ AgreesAt (some t) a b ∧
      ∀ s x y, Below a b s x y → ∃ u, t.step s = some u ∧ approxEqual u x y = .ok true := by
  rcases pair_cases a b with ⟨xs, ys, ha, hb⟩ | ⟨as, bs, ha, hb⟩ | h
  · rw [approxEqual_of_items ha hb, ite_ok_iff, agreesAt_of_items ha hb, forall_below_of_items ha hb,
      approxAll_iff]
    simp only [Tolerance.step, Option.some.injEq, exists_eq_left']
  · rw [approxEqual_of_entries ha hb, ite_ok_iff, agreesAt_of_entries ha hb,
      forall_below_of_entries ha hb, ← sameKeySet_iff (hab.1.distinctKeys ha) (hab.2.distinctKeys hb),
      approxEntries_iff]
    apply and_congr_right
    intro hk
    constructor
    · intro h k v w hv hw
      obtain ⟨u, w', hu, hw', he⟩ := h k v hv
      cases hw.symm.trans hw'
      exact ⟨u, hu, he⟩
    · intro h k v hv
      obtain ⟨w, hw⟩ := exists_lookup_of_sameKeySet hk hv
      obtain ⟨u, hu, he⟩ := h k v w hv hw
      exact ⟨u, w, hu, hw, he⟩
  · rw [and_forall_below_of_isLeafPair h, agreesAt_of_isLeafPair h]

/-- **Approximate equality, position by position.** -/
theorem approxEqual_iff {t : Tolerance} {a b : Value} (ha : WellKeyed a) (hb : WellKeyed b) :
    approxEqual t a b = .ok true ↔ Agrees t a b ∧ Leads t a b := by
  have walked : approxEqual t a b = .ok true ↔
      ∀ p x y, Meets a b p x y → ∃ u, t.along p = some u ∧ AgreesAt (some u) x y :=
    @meets_iff String _ Tolerance Tolerance.step (fun a b => WellKeyed a ∧ WellKeyed b)
      (fun u x y => AgreesAt (some u) x y) (fun u x y => approxEqual u x y = .ok true)
      (fun h hs => hs.wellKeyed h.1 h.2) approxEqual_step t a b ⟨ha, hb⟩
  rw [walked]
  constructor
  · intro h
    refine ⟨fun p x y m => ?_, fun p x y m => ?_⟩
    · obtain ⟨u, hu, hg⟩ := h p x y m
      rw [hu]
      exact hg
    · obtain ⟨u, hu, -⟩ := h p x y m
      rw [hu]
      rfl
  · rintro ⟨hg, hl⟩ p x y m
    obtain ⟨u, hu⟩ := Option.isSome_iff_exists.1 (hl p x y m)
    refine ⟨u, hu, ?_⟩
    rw [← hu]
    exact hg p x y m

/-! ### Tolerances that decide alike -/

theorem approxAll_congr {t u : Tolerance} {xs ys : List Value}
    (h : ∀ (i : Nat) (x y : Value), xs[i]? = some x → ys[i]? = some y →
      approxEqual t x y = approxEqual u x y) :
    approxAll t xs ys = approxAll u xs ys := by
  induction xs generalizing ys with
  | nil => rfl
  | cons x xs ih =>
    cases ys with
    | nil => rfl
    | cons y ys =>
      rw [approxAll, approxAll, h 0 x y rfl rfl, ih fun i x' y' hx hy => h (i + 1) x' y' hx hy]

theorem approxEntries_congr {t u : Tolerance} {as bs : Entries}
    (h : ∀ k v, (k, v) ∈ as → ∃ t' u', t.step (.key k) = some t' ∧ u.step (.key k) = some u' ∧
      ∀ w, lookup k bs = some w → approxEqual t' v w = approxEqual u' v w) :
    approxEntries t bs as = approxEntries u bs as := by
  induction as with
  | nil => rfl
  | cons e es ih =>
    obtain ⟨k, v⟩ := e
    obtain ⟨t', u', ht, hu, hw⟩ := h k v List.mem_cons_self
    have rest := ih fun k' v' hm => h k' v' (List.mem_cons_of_mem _ hm)
    rw [approxEntries, approxEntries, Tolerance.forKey_eq_ok_iff.2 ht, Tolerance.forKey_eq_ok_iff.2 hu]
    cases hl : lookup k bs with
    | none => rfl
    | some w =>
      show (approxEqual t' v w >>= fun r => _) = (approxEqual u' v w >>= fun r => _)
      rw [hw w hl, rest]

/-- Two tolerances decide alike when, wherever the steps lead, both of them lead there to tolerances
that decide numbers alike. -/
theorem approxEqual_congr {t u : Tolerance} {a b : Value} (ha : WellKeyed a) (hb : WellKeyed b)
    (h : ∀ p x y, Meets a b p x y → ∃ t' u', t.along p = some t' ∧ u.along p = some u' ∧
      t'.within x y = u'.within x y) :
    approxEqual t a b = approxEqual u a b := by
  induction hn : sizeOf a using Nat.strongRecOn generalizing t u a b with
  | ind n ih =>
    subst hn
    have next : ∀ s x y, Below a b s x y → ∃ t' u', t.step s = some t' ∧ u.step s = some u' ∧
        approxEqual t' x y = approxEqual u' x y := by
      intro s x y hs
      obtain ⟨t₁, u₁, ht₁, hu₁, -⟩ := h [s] x y (.step hs (.here x y))
      obtain ⟨t', ht, -⟩ := Option.bind_eq_some_iff.1 ht₁
      obtain ⟨u', hu, -⟩ := Option.bind_eq_some_iff.1 hu₁
      obtain ⟨hx, hy⟩ := hs.wellKeyed ha hb
      refine ⟨t', u', ht, hu, ih _ hs.sizeOf_lt hx hy ?_ rfl⟩
      intro p x' y' m
      obtain ⟨t₂, u₂, ht₂, hu₂, hw⟩ := h (s :: p) x' y' (.step hs m)
      rw [Tolerance.along, Value.walk, ht] at ht₂
      rw [Tolerance.along, Value.walk, hu] at hu₂
      exact ⟨t₂, u₂, ht₂, hu₂, hw⟩
    rcases pair_cases a b with ⟨xs, ys, hxs, hys⟩ | ⟨as, bs, has, hbs⟩ | hl
    · rw [approxEqual_of_items hxs hys, approxEqual_of_items hxs hys, approxAll_congr]
      intro i x y hx hy
      obtain ⟨t', u', ht, hu, he⟩ := next (.item i) x y (.item hxs hys hx hy)
      cases ht
      cases hu
      exact he
    · rw [approxEqual_of_entries has hbs, approxEqual_of_entries has hbs]
      split
      · rename_i hk
        apply approxEntries_congr
        intro k v hv
        -- The key is found on the other side, so the tolerances do lead under it.
        obtain ⟨w, hw⟩ := exists_lookup_of_sameKeySet hk hv
        obtain ⟨t', u', ht, hu, he⟩ := next (.key k) v w (.key has hbs hv hw)
        refine ⟨t', u', ht, hu, ?_⟩
        intro w' hw'
        cases hw.symm.trans hw'
        exact he
      · rfl
    · obtain ⟨t', u', ht, hu, hw⟩ := h [] a b (.here a b)
      cases ht
      cases hu
      rw [approxEqual_of_isLeafPair hl, approxEqual_of_isLeafPair hl, hw]

/-- A number and the structure of its value as the absolute bound decide numbers alike. -/
theorem within_plain_eq {n : Value} {q : Quantity} {r : Rat} {x : Bound} (hq : Quantity.bound? n = some q)
    (hr : q.rational? = some r) (hx : (Quantity.ofBound x).rational? = some r) (a b : Value) :
    Tolerance.within (.plain n) a b = Tolerance.within (.structured (some x) none []) a b := by
  have same : ∀ d : Quantity, d.le q = d.le (.ofBound x) := by
    intro d
    unfold Quantity.le
    rw [hr, hx]
    cases d.rational? <;> rfl
  show (Quantity.difference a b >>= fun d => Tolerance.atMost d n) =
    (Quantity.difference a b >>= fun d => if (some x).any (fun x => d.le (.ofBound x)) then pure true
      else pure false)
  congr 1
  funext d
  rw [Tolerance.atMost, hq]
  show Except.ok (d.le q) = if d.le (.ofBound x) then pure true else pure false
  rw [same]
  cases d.le (.ofBound x) <;> rfl

theorem along_plain (n : Value) (p : List Step) : Tolerance.along (.plain n) p = some (.plain n) := by
  induction p with
  | nil => rfl
  | cons s p ih =>
    cases s with
    | key k => exact ih
    | item i => exact ih

/-- A structure without fields stays itself wherever it leads. -/
theorem along_unnamed {abs rel : Option Bound} {p : List Step} {u : Tolerance}
    (h : Tolerance.along (.structured abs rel []) p = some u) : u = .structured abs rel [] := by
  induction p with
  | nil =>
    cases h
    rfl
  | cons s p ih =>
    rw [Tolerance.along, walk] at h
    obtain ⟨v, hv, hu⟩ := Option.bind_eq_some_iff.1 h
    have stays : v = .structured abs rel [] := by
      cases s with
      | item i =>
        cases hv
        rfl
      | key k =>
        rw [Tolerance.step] at hv
        split at hv
        · cases hv
          rfl
        · cases hv
    subst stays
    exact ih hu

/-- **What approximate equality decides.**  It holds exactly if the values agree at every position,
each pair of numbers within the tolerance that its keys lead to, and every key that a structure is led
through has a text.  A number, and the structure that has its value as the absolute bound, decide
alike. -/
theorem approxEqual_decides {a b : Value} (ha : WellKeyed a) (hb : WellKeyed b) :
    (∀ t, approxEqual t a b = .ok true ↔ Agrees t a b ∧ Leads t a b) ∧
      ∀ (n : Value) (q : Quantity) (r : Rat) (x : Bound), Quantity.bound? n = some q →
        q.rational? = some r → (Quantity.ofBound x).rational? = some r → Leads (.structured (some x) none []) a b →
          approxEqual (.plain n) a b = approxEqual (.structured (some x) none []) a b := by
  refine ⟨fun t => approxEqual_iff ha hb, ?_⟩
  intro n q r x hq hr hx hl
  apply approxEqual_congr ha hb
  intro p y z m
  obtain ⟨u, hu⟩ := Option.isSome_iff_exists.1 (hl p y z m)
  cases along_unnamed hu
  exact ⟨_, _, along_plain n p, hu, within_plain_eq hq hr hx y z⟩

/-- Two pairs under a key, a list against a tuple: numbers within 2, and a text. -/
theorem approxEqual_decides_pair :
    let a : Value := .dict [(.str "x", .list [.int 10, .str "m"])]
    let b : Value := .dict [(.str "x", .tuple [.int 12, .str "m"])]
    let two : Bound := .float (.finite false ⟨1024 * binade, by decide⟩)
    let t : Tolerance := .structured none none [("x", .plain (.int 2))]
    Agrees t a b ∧ Leads t a b ∧
      approxEqual (.plain (.int 2)) a b = approxEqual (.structured (some two) none []) a b := by
  intro a b two t
  have ha : WellKeyed a := by
    simp [a, dict, wellKeyed_map, wellKeyed_list, wellKeyed_leaf, DistinctKeys]
  have hb : WellKeyed b := by
    simp [b, dict, wellKeyed_map, wellKeyed_tuple, wellKeyed_leaf, DistinctKeys]
  obtain ⟨decides, alike⟩ := approxEqual_decides ha hb
  obtain ⟨agrees, leads⟩ := (decides t).1 (by rfl)
  have leads' : Leads (.structured (some two) none []) a b := ((decides _).1 (by rfl)).2
  exact ⟨agrees, leads, alike (.int 2) (.int 2) 2 two (by rfl) (by decide +kernel)
    (by decide +kernel) leads'⟩

/-- A mapping with an integer as its one key. -/
def keyedBy (i : Int) : Value := .dict [(.int i, .str "m")]

/-- Under a structure the comparison of a value with itself fails at a key without a text, although
the values agree at every position. -/
theorem approxEqual_keyedBy {i : Int} (hi : integerText i = .error .longInteger) :
    WellKeyed (keyedBy i) ∧ Agrees (.structured none none []) (keyedBy i) (keyedBy i) ∧
      approxEqual (.structured none none []) (keyedBy i) (keyedBy i) = .error .longInteger := by
  have entries : (keyedBy i).entries? = some [(.int i, .str "m")] := rfl
  have same : sameKey (.int i : Value) (.int i) = true := by
    rw [sameKey_int, beq_self_eq_true]
  refine ⟨?_, ?_, ?_⟩
  · simp [keyedBy, dict, wellKeyed_map, wellKeyed_leaf, DistinctKeys]
  · intro p x y m
    cases m with
    | here =>
      rw [agreesAt_of_entries entries entries]
      simp [SameKeys, same]
    | step hs m =>
      cases hs with
      | item hx => cases hx
      | key hx hy hv hw =>
        cases entries.symm.trans hx
        cases entries.symm.trans hy
        cases List.mem_singleton.1 hv
        rw [lookup, if_pos same] at hw
        cases hw
        have leaf : IsLeafPair (.str "m") (.str "m") := ⟨Or.inl rfl, Or.inl rfl⟩
        cases m with
        | step hs => exact absurd hs (not_below_of_isLeafPair leaf)
        | here =>
          exact ⟨shapeAt_of_isLeafPair leaf, rfl, fun _ _ => rfl,
            fun h => absurd h (by simp [isNumber, unwrapped])⟩
  · have keys : sameKeySet [(.int i, .str "m")] [(.int i, .str "m")] = true := by
      simp [sameKeySet, hasKey, same]
    rw [approxEqual_of_entries entries entries, if_pos keys, approxEntries]
    show ((integerText i >>= fun _ => _) >>= fun _ => _) = _
    rw [hi]
    rfl

/-- The least integer with more digits than are written is such a key. -/
theorem approxEqual_longKeyed :
    WellKeyed (keyedBy digitBound) ∧
      Agrees (.structured none none []) (keyedBy digitBound) (keyedBy digitBound) ∧
        approxEqual (.structured none none []) (keyedBy digitBound) (keyedBy digitBound) =
          .error .longInteger := by
  refine approxEqual_keyedBy ?_
  rw [integerText, Int.natAbs_natCast, if_neg (Nat.lt_irrefl _)]

end Value

end Assay
