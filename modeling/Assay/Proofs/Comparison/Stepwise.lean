import Assay.Proofs.Comparison.Approx
import Assay.Proofs.Comparison.Family
import Assay.Proofs.Related
import Assay.Proofs.Value.Writable

/-!
# Comparisons that go step by step

Deep and approximate equality are one recursion: it goes through the items of sequences and through the
entries of mappings in order, stops at the first pair that does not agree, and carries a state that
keys change.  What is said here of every such comparison holds of both.

* `Comparison.IsStepwise` — the recursion, and `isStepwise_deep`, `isStepwise_approx` — its two instances;
* `Comparison.Reaches` — the pairs that a comparison comes to, all before them having agreed;
* `Comparison.eq_error_iff` — a comparison fails exactly if it reaches a pair where it fails at once;
* `Comparison.Refines` — a comparison agrees on fewer leaves than another one, and
  `Comparison.Refines.settles` — then on fewer values.
-/

namespace Assay

open Value (Entries Step Below Meets IsLeafPair lookup sameKeySet)

/-- The item stands in the list, and all items before it have a property. -/
def FirstAt {α : Type} (P : α → Prop) (x : α) (xs : List α) : Prop :=
  ∃ before after, xs = before ++ x :: after ∧ ∀ y ∈ before, P y

namespace FirstAt

variable {α : Type} {P Q : α → Prop} {a x : α} {as : List α}

theorem mem (h : FirstAt P x as) : x ∈ as := by
  obtain ⟨before, after, rfl, -⟩ := h
  exact List.mem_append_right before List.mem_cons_self

theorem head (P : α → Prop) (a : α) (as : List α) : FirstAt P a (a :: as) :=
  ⟨[], as, rfl, nofun⟩

theorem cons (ha : P a) (h : FirstAt P x as) : FirstAt P x (a :: as) := by
  obtain ⟨before, after, rfl, hp⟩ := h
  exact ⟨a :: before, after, rfl, List.forall_mem_cons.2 ⟨ha, hp⟩⟩

theorem not_nil (h : FirstAt P x []) : False := List.not_mem_nil h.mem

/-- An item stands at the head of a list, or further on after a head that has the property. -/
theorem exists_cons_iff :
    (∃ x, FirstAt P x (a :: as) ∧ Q x) ↔ Q a ∨ P a ∧ ∃ x, FirstAt P x as ∧ Q x := by
  constructor
  · rintro ⟨x, ⟨before, after, hl, hp⟩, hq⟩
    cases before with
    | nil =>
      cases hl
      exact Or.inl hq
    | cons b before =>
      cases hl
      obtain ⟨ha, hp⟩ := List.forall_mem_cons.1 hp
      exact Or.inr ⟨ha, x, ⟨before, after, rfl, hp⟩, hq⟩
  · rintro (hq | ⟨ha, x, h, hq⟩)
    · exact ⟨a, head P a as, hq⟩
    · exact ⟨x, h.cons ha, hq⟩

theorem cons_iff : FirstAt P x (a :: as) ↔ a = x ∨ P a ∧ FirstAt P x as := by
  have found : (∃ y, FirstAt P y (a :: as) ∧ y = x) ↔ a = x ∨ P a ∧ ∃ y, FirstAt P y as ∧ y = x :=
    exists_cons_iff
  rwa [exists_eq_right, exists_eq_right] at found

/-- If some item does not have the property, one is the first of these. -/
theorem exists_of_mem (hx : x ∈ as) (hp : ¬ P x) : ∃ y, FirstAt P y as ∧ ¬ P y := by
  induction as with
  | nil => cases hx
  | cons a as ih =>
    rw [exists_cons_iff]
    by_cases ha : P a
    · rcases List.mem_cons.1 hx with rfl | later
      · exact absurd ha hp
      · exact Or.inr ⟨ha, ih later⟩
    · exact Or.inl ha

end FirstAt

/-- The first items of two related lists are related. -/
theorem exists_firstAt {α β : Type} {R : α → β → Prop} {P : α → Prop} {Q : β → Prop}
    (hPQ : ∀ x y, R x y → (P x ↔ Q y)) {xs : List α} {ys : List β} (h : List.Forall₂ R xs ys) {x : α}
    (hx : FirstAt P x xs) : ∃ y, FirstAt Q y ys ∧ R x y := by
  induction h with
  | nil => exact hx.not_nil.elim
  | @cons a b as bs hab _ ih =>
    rcases FirstAt.cons_iff.1 hx with rfl | ⟨ha, hx⟩
    · exact ⟨b, FirstAt.head Q b bs, hab⟩
    · obtain ⟨y, hy, hxy⟩ := ih hx
      exact ⟨y, hy.cons ((hPQ a b hab).1 ha), hxy⟩

/-- A comparison of values under a state that keys change. -/
structure Comparison (σ : Type) where
  under : σ → Value → Except Fault σ
  decide : σ → Value → Value → Except Fault Bool

namespace Comparison

variable {σ τ : Type} (c : Comparison σ)

/-! ### The recursion -/

/-- The comparison of two sequences item by item. -/
def items (s : σ) : List Value → List Value → Except Fault Bool
  | x :: xs, y :: ys => do if ← c.decide s x y then items s xs ys else return false
  | _, _ => .ok true

/-- The comparison of entries with the values that other entries have under the same keys. -/
def entries (s : σ) (bs : Entries) : Entries → Except Fault Bool
  | [] => .ok true
  | (k, v) :: es => do
    let u ← c.under s k
    match lookup k bs with
    | none => return false
    | some w => if ← c.decide u v w then entries s bs es else return false

/-- Sequences are compared item by item and mappings entry by entry. -/
structure IsStepwise : Prop where
  items {s : σ} {a b : Value} {xs ys : List Value} (ha : a.items? = some xs) (hb : b.items? = some ys) :
    c.decide s a b = if xs.length = ys.length then c.items s xs ys else .ok false
  entries {s : σ} {a b : Value} {as bs : Entries} (ha : a.entries? = some as)
    (hb : b.entries? = some bs) :
    c.decide s a b = if sameKeySet as bs then c.entries s bs as else .ok false

/-- Deep equality, which has no state. -/
def deep : Comparison Unit where
  under := fun _ _ => .ok ()
  decide := fun _ => Value.deepEqual

/-- Approximate equality, which carries a tolerance. -/
def approx : Comparison Tolerance where
  under := Tolerance.forKey
  decide := Value.approxEqual

theorem items_deep (xs ys : List Value) : deep.items () xs ys = Value.deepAll xs ys := by
  induction xs generalizing ys with
  | nil => exact (Value.deepAll_nil ys).symm
  | cons x xs ih =>
    cases ys with
    | nil => rfl
    | cons y ys =>
      rw [items, Value.deepAll, ih]
      rfl

theorem entries_deep (as bs : Entries) : deep.entries () bs as = Value.deepEntries bs as := by
  induction as with
  | nil => rfl
  | cons e es ih =>
    obtain ⟨k, v⟩ := e
    rw [entries, Value.deepEntries, ih]
    cases Value.lookup k bs <;> rfl

theorem items_approx (t : Tolerance) (xs ys : List Value) :
    approx.items t xs ys = Value.approxAll t xs ys := by
  induction xs generalizing ys with
  | nil => rfl
  | cons x xs ih =>
    cases ys with
    | nil => rfl
    | cons y ys =>
      rw [items, Value.approxAll, ih]
      rfl

theorem entries_approx (t : Tolerance) (as bs : Entries) :
    approx.entries t bs as = Value.approxEntries t bs as := by
  induction as with
  | nil => rfl
  | cons e es ih =>
    obtain ⟨k, v⟩ := e
    rw [entries, Value.approxEntries, ih]
    rfl

theorem isStepwise_deep : deep.IsStepwise where
  items ha hb := by
    rw [items_deep]
    exact Value.deepEqual_of_items ha hb
  entries ha hb := by
    rw [entries_deep]
    exact Value.deepEqual_of_entries ha hb

theorem isStepwise_approx : approx.IsStepwise where
  items ha hb := by
    rw [items_approx]
    exact Value.approxEqual_of_items ha hb
  entries ha hb := by
    rw [entries_approx]
    exact Value.approxEqual_of_entries ha hb

/-! ### Where a comparison fails -/

/-- An entry agrees with the one that the other entries have under its key. -/
def EntryAgrees (s : σ) (bs : Entries) (e : Value × Value) : Prop :=
  ∃ u w, c.under s e.1 = .ok u ∧ lookup e.1 bs = some w ∧ c.decide u e.2 w = .ok true

/-- The comparison goes from one pair to another one further inside: all pairs before it have agreed. -/
inductive Next : σ → Value → Value → σ → Value → Value → Prop
  | item {s : σ} {a b x y : Value} {xs ys : List Value} (ha : a.items? = some xs)
      (hb : b.items? = some ys) (hl : xs.length = ys.length)
      (h : FirstAt (fun e : Value × Value => c.decide s e.1 e.2 = .ok true) (x, y) (xs.zip ys)) :
      Next s a b s x y
  | key {s u : σ} {a b k x y : Value} {as bs : Entries} (ha : a.entries? = some as)
      (hb : b.entries? = some bs) (hk : sameKeySet as bs = true)
      (h : FirstAt (c.EntryAgrees s bs) (k, x) as) (hu : c.under s k = .ok u)
      (hy : lookup k bs = some y) : Next s a b u x y

/-- The comparison comes from one pair to another one. -/
inductive Reaches : σ → Value → Value → σ → Value → Value → Prop
  | here (s : σ) (a b : Value) : Reaches s a b s a b
  | step {s u v : σ} {a b x y p q : Value} (h : c.Next s a b u x y) (h' : Reaches u x y v p q) :
      Reaches s a b v p q

/-- The comparison fails at a pair itself: at leaves, or because a key that it comes to has no state. -/
inductive FailsAt (s : σ) (a b : Value) (f : Fault) : Prop
  | leaf (h : IsLeafPair a b) (hf : c.decide s a b = .error f)
  | key {k x : Value} {as bs : Entries} (ha : a.entries? = some as) (hb : b.entries? = some bs)
      (hk : sameKeySet as bs = true) (h : FirstAt (c.EntryAgrees s bs) (k, x) as)
      (hf : c.under s k = .error f)

variable {c} {s u : σ} {a b x y : Value} {f : Fault}

theorem bind_ite_error_iff {r q : Except Fault Bool} :
    (do if ← r then q else return false) = .error f ↔ r = .error f ∨ r = .ok true ∧ q = .error f := by
  cases r with
  | error g => simp [bind, Except.bind]
  | ok b => cases b <;> simp [bind, Except.bind, pure, Except.pure]

theorem items_eq_error_iff {xs ys : List Value} : c.items s xs ys = .error f ↔
    ∃ e, FirstAt (fun e : Value × Value => c.decide s e.1 e.2 = .ok true) e (xs.zip ys) ∧
      c.decide s e.1 e.2 = .error f := by
  induction xs generalizing ys with
  | nil => exact iff_of_false (by simp [items]) fun ⟨_, h, _⟩ => h.not_nil
  | cons x xs ih =>
    cases ys with
    | nil => exact iff_of_false (by simp [items]) fun ⟨_, h, _⟩ => h.not_nil
    | cons y ys => rw [items, bind_ite_error_iff, ih, List.zip_cons_cons, FirstAt.exists_cons_iff]

theorem entries_eq_error_iff {as bs : Entries} : c.entries s bs as = .error f ↔
    ∃ e, FirstAt (c.EntryAgrees s bs) e as ∧ (c.under s e.1 = .error f ∨
      ∃ u w, c.under s e.1 = .ok u ∧ lookup e.1 bs = some w ∧ c.decide u e.2 w = .error f) := by
  induction as with
  | nil => exact iff_of_false (by simp [entries]) fun ⟨_, h, _⟩ => h.not_nil
  | cons e es ih =>
    obtain ⟨k, v⟩ := e
    rw [FirstAt.exists_cons_iff, ← ih, entries, EntryAgrees]
    cases hu : c.under s k with
    | error g => simp [bind, Except.bind]
    | ok u =>
      cases hw : lookup k bs with
      | none => simp [bind, Except.bind, pure, Except.pure]
      | some w =>
        simp only [Except.ok.injEq, Option.some.injEq, exists_and_left, exists_eq_left', reduceCtorEq,
          false_or]
        exact bind_ite_error_iff

theorem ite_error_iff {p : Prop} [Decidable p] {r : Except Fault Bool} :
    (if p then r else .ok false) = .error f ↔ p ∧ r = .error f := by
  by_cases h : p
  · rw [if_pos h]
    exact (and_iff_right h).symm
  · rw [if_neg h]
    simp [h]

/-- A comparison fails at a pair itself or one step further. -/
theorem eq_error_iff_next (hc : c.IsStepwise) : c.decide s a b = .error f ↔
    c.FailsAt s a b f ∨ ∃ u x y, c.Next s a b u x y ∧ c.decide u x y = .error f := by
  rcases Value.pair_cases a b with ⟨xs, ys, ha, hb⟩ | ⟨as, bs, ha, hb⟩ | h
  · rw [hc.items ha hb, ite_error_iff, items_eq_error_iff]
    constructor
    · rintro ⟨hl, ⟨x, y⟩, first, hf⟩
      exact Or.inr ⟨s, x, y, .item ha hb hl first, hf⟩
    · rintro (hf | ⟨u, x, y, next, hf⟩)
      · cases hf with
        | leaf h => exact absurd h (Value.not_isLeafPair_of_items ha hb)
        | key ha' =>
          rw [Value.entries?_of_items ha] at ha'
          cases ha'
      · cases next with
        | item ha' hb' hl first =>
          cases ha.symm.trans ha'
          cases hb.symm.trans hb'
          exact ⟨hl, (x, y), first, hf⟩
        | key ha' =>
          rw [Value.entries?_of_items ha] at ha'
          cases ha'
  · rw [hc.entries ha hb, ite_error_iff, entries_eq_error_iff]
    constructor
    · rintro ⟨hk, ⟨k, x⟩, first, hf | ⟨u, y, hu, hy, hf⟩⟩
      · exact Or.inl (.key ha hb hk first hf)
      · exact Or.inr ⟨u, x, y, .key ha hb hk first hu hy, hf⟩
    · rintro (hf | ⟨u, x, y, next, hf⟩)
      · cases hf with
        | leaf h => exact absurd h (Value.not_isLeafPair_of_entries ha hb)
        | key ha' hb' hk first hf =>
          cases ha.symm.trans ha'
          cases hb.symm.trans hb'
          exact ⟨hk, _, first, Or.inl hf⟩
      · cases next with
        | item ha' =>
          rw [Value.entries?_of_items ha'] at ha
          cases ha
        | key ha' hb' hk first hu hy =>
          cases ha.symm.trans ha'
          cases hb.symm.trans hb'
          exact ⟨hk, _, first, Or.inr ⟨u, y, hu, hy, hf⟩⟩
  · constructor
    · intro hf
      exact Or.inl (.leaf h hf)
    · rintro (hf | ⟨u, x, y, next, -⟩)
      · cases hf with
        | leaf _ hf => exact hf
        | key ha hb => exact absurd h (Value.not_isLeafPair_of_entries ha hb)
      · cases next with
        | item ha hb => exact absurd h (Value.not_isLeafPair_of_items ha hb)
        | key ha hb => exact absurd h (Value.not_isLeafPair_of_entries ha hb)

/-- One step of a comparison is a step into both values. -/
theorem Next.below (h : c.Next s a b u x y) :
    (∃ i, Below a b (.item i) x y ∧ u = s) ∨ ∃ k, Below a b (.key k) x y ∧ c.under s k = .ok u := by
  cases h with
  | item ha hb hl h =>
    obtain ⟨i, hi⟩ := List.mem_iff_getElem?.1 h.mem
    obtain ⟨hx, hy⟩ := List.getElem?_zip_eq_some.1 hi
    exact Or.inl ⟨i, .item ha hb hx hy, rfl⟩
  | key ha hb hk h hu hy => exact Or.inr ⟨_, .key ha hb h.mem hy, hu⟩

/-- **A comparison fails exactly if it reaches a pair where it fails at once.** -/
theorem eq_error_iff (hc : c.IsStepwise) : c.decide s a b = .error f ↔
    ∃ u x y, c.Reaches s a b u x y ∧ c.FailsAt u x y f := by
  constructor
  · intro hf
    -- The values shrink at each step.
    induction hn : sizeOf a using Nat.strongRecOn generalizing s a b with
    | ind n ih =>
      subst hn
      rcases (eq_error_iff_next hc).1 hf with here | ⟨u, x, y, next, hf⟩
      · exact ⟨s, a, b, .here s a b, here⟩
      · have smaller : sizeOf x < sizeOf a := by
          rcases next.below with ⟨i, h, -⟩ | ⟨k, h, -⟩ <;> exact h.sizeOf_lt
        obtain ⟨v, p, q, reaches, fails⟩ := ih _ smaller hf rfl
        exact ⟨v, p, q, .step next reaches, fails⟩
  · rintro ⟨u, x, y, reaches, fails⟩
    induction reaches with
    | here => exact (eq_error_iff_next hc).2 (Or.inl fails)
    | step next _ ih => exact (eq_error_iff_next hc).2 (Or.inr ⟨_, _, _, next, ih fails⟩)

/-- What each step keeps of state and pair is kept on the way to every pair. -/
theorem Reaches.keeps {P : σ → Value → Value → Prop}
    (step : ∀ {s u a b x y}, P s a b → c.Next s a b u x y → P u x y) (h : c.Reaches s a b u x y)
    (hp : P s a b) : P u x y := by
  induction h with
  | here => exact hp
  | step next _ ih => exact ih (step hp next)

variable {d : Comparison τ} {t : τ}

/-- Under related states the second comparison agrees at leaves wherever the first one does, and the
relation is kept by every step, unless the second comparison fails at a key in an expected way. -/
structure Refines (c : Comparison σ) (d : Comparison τ) (R : σ → τ → Value → Value → Prop)
    (E : Fault → Prop) : Prop where
  item {s : σ} {t : τ} {a b x y : Value} {i : Nat} : R s t a b → Below a b (.item i) x y → R s t x y
  key {s u : σ} {t : τ} {a b k x y : Value} : R s t a b → Below a b (.key k) x y → c.under s k = .ok u →
    (∃ v, d.under t k = .ok v ∧ R u v x y) ∨ ∃ f, d.under t k = .error f ∧ E f
  leaf {s : σ} {t : τ} {a b : Value} : R s t a b → IsLeafPair a b → c.decide s a b = .ok true →
    d.decide t a b = .ok true

/-- A comparison agrees, or fails in an expected way. -/
def Settles (E : Fault → Prop) (r : Except Fault Bool) : Prop := r = .ok true ∨ ∃ f, r = .error f ∧ E f

variable {R : σ → τ → Value → Value → Prop} {E : Fault → Prop}

theorem settles_bind_ite {r q : Except Fault Bool} (hr : Settles E r) (hq : Settles E q) :
    Settles E (do if ← r then q else return false) := by
  rcases hr with rfl | ⟨f, rfl, hf⟩
  · exact hq
  · exact Or.inr ⟨f, rfl, hf⟩

theorem settles_items {xs ys : List Value} (h : c.items s xs ys = .ok true)
    (settles : ∀ (i : Nat) (x y : Value), xs[i]? = some x → ys[i]? = some y →
      c.decide s x y = .ok true → Settles E (d.decide t x y)) : Settles E (d.items t xs ys) := by
  induction xs generalizing ys with
  | nil => exact Or.inl rfl
  | cons x xs ih =>
    cases ys with
    | nil => exact Or.inl rfl
    | cons y ys =>
      rw [items, Value.bind_ite_ok_iff] at h
      rw [items]
      exact settles_bind_ite (settles 0 x y rfl rfl h.1)
        (ih h.2 fun i v w hv hw => settles (i + 1) v w hv hw)

theorem settles_entries {as bs : Entries} (h : c.entries s bs as = .ok true)
    (settles : ∀ k x y u, (k, x) ∈ as → lookup k bs = some y → c.under s k = .ok u →
      c.decide u x y = .ok true → Settles E (do d.decide (← d.under t k) x y)) :
    Settles E (d.entries t bs as) := by
  induction as with
  | nil => exact Or.inl rfl
  | cons e es ih =>
    obtain ⟨k, v⟩ := e
    rw [entries] at h
    obtain ⟨u, hu, h⟩ := bind_eq_ok_iff.1 h
    cases hw : lookup k bs with
    | none =>
      rw [hw] at h
      cases h
    | some w =>
      rw [hw] at h
      obtain ⟨agrees, rest⟩ := Value.bind_ite_ok_iff.1 h
      have here := settles k v w u List.mem_cons_self hw hu agrees
      have later := ih rest fun k' x y u' hm => settles k' x y u' (List.mem_cons_of_mem _ hm)
      rw [entries]
      cases hv : d.under t k with
      | error f =>
        rw [hv] at here
        exact here
      | ok t' =>
        rw [hv] at here
        rw [hw]
        exact settles_bind_ite here later

/-- **What the first comparison agrees on, the second one does, or it fails at a key.** -/
theorem Refines.settles (h : c.Refines d R E) (hc : c.IsStepwise) (hd : d.IsStepwise) (hr : R s t a b)
    (hs : c.decide s a b = .ok true) : Settles E (d.decide t a b) := by
  induction hn : sizeOf a using Nat.strongRecOn generalizing s t a b with
  | ind n ih =>
    subst hn
    rcases Value.pair_cases a b with ⟨xs, ys, ha, hb⟩ | ⟨as, bs, ha, hb⟩ | hl
    · rw [hc.items ha hb, Value.ite_ok_iff] at hs
      rw [hd.items ha hb, if_pos hs.1]
      refine settles_items hs.2 ?_
      intro i x y hx hy agrees
      have below : Below a b (.item i) x y := .item ha hb hx hy
      exact ih _ below.sizeOf_lt (h.item hr below) agrees rfl
    · rw [hc.entries ha hb, Value.ite_ok_iff] at hs
      rw [hd.entries ha hb, if_pos hs.1]
      refine settles_entries hs.2 ?_
      intro k x y u hx hy hu agrees
      have below : Below a b (.key k) x y := .key ha hb hx hy
      rcases h.key hr below hu with ⟨v, hv, hr'⟩ | ⟨f, hf, expected⟩
      · rw [hv]
        exact ih _ below.sizeOf_lt hr' agrees rfl
      · rw [hf]
        exact Or.inr ⟨f, rfl, expected⟩
    · exact Or.inl (h.leaf hr hl hs)

end Comparison

/-! ### Tolerances under a key -/

namespace Tolerance

variable {t u : Tolerance} {k : Value}

/-- Under a key a tolerance stays itself, or it is that of a field. -/
theorem step_key_cases (h : t.step (.key k) = some u) : u = t ∨
    ∃ abs rel fields, t = .structured abs rel fields ∧ ∃ name, (name, u) ∈ fields := by
  cases t with
  | plain n =>
    cases h
    exact Or.inl rfl
  | structured abs rel fields =>
    rw [step] at h
    split at h
    · rename_i name _
      cases hu : fields.lookup name with
      | none =>
        rw [hu] at h
        cases h
        exact Or.inl rfl
      | some v =>
        rw [hu] at h
        cases h
        obtain ⟨before, after, rfl, -⟩ := List.lookup_eq_some_iff.1 hu
        exact Or.inr ⟨abs, rel, _, rfl, name, by simp⟩
    · cases h

/-- No tolerance is found under a key exactly if that of a structure is looked for and the key has no
text: there is a long integer in it. -/
theorem forKey_eq_error_iff {f : Fault} : t.forKey k = .error f ↔
    (∃ abs rel fields, t = .structured abs rel fields) ∧ ¬ k.Writable ∧ f = .longInteger := by
  cases t with
  | plain n => exact iff_of_false (by simp [forKey]) (by simp)
  | structured abs rel fields =>
    have failing : (Tolerance.structured abs rel fields).forKey k = .error f ↔ k.text = .error f := by
      rw [forKey]
      cases k.text <;> simp [bind, Except.bind, pure, Except.pure]
    rw [failing, (Value.text_succeedsIff k).eq_error_iff]
    exact (and_iff_right ⟨abs, rel, fields, rfl⟩).symm

end Tolerance

/-! ### Leaves and positions of approximately equal values -/

namespace Value

/-- Leaves that are not both numbers are compared as by deep equality. -/
theorem approxEqual_of_leaves {t : Tolerance} {a b : Value} (h : IsLeafPair a b)
    (hn : ¬ (a.isNumber = true ∧ b.isNumber = true)) : approxEqual t a b = deepEqual a b := by
  rw [approxEqual_of_isLeafPair h, if_neg (mt Bool.and_eq_true_iff.1 hn)]

/-- One step further approximate equality holds under the tolerance that the step leads to. -/
theorem approxEqual_of_below {t : Tolerance} {a b x y : Value} {s : Step}
    (h : approxEqual t a b = .ok true) (hs : Below a b s x y) :
    ∃ u, t.step s = some u ∧ approxEqual u x y = .ok true := by
  cases hs with
  | key ha hb hv hw =>
    rw [approxEqual_of_entries ha hb, ite_ok_iff, approxEntries_iff] at h
    obtain ⟨u, w, hu, hw', he⟩ := h.2 _ x hv
    cases hw.symm.trans hw'
    exact ⟨u, hu, he⟩
  | item ha hb hx hy =>
    rw [approxEqual_of_items ha hb, ite_ok_iff, approxAll_iff] at h
    exact ⟨t, rfl, h.2 _ x y hx hy⟩

/-- Approximately equal values are so wherever the steps lead, under the tolerance that they lead to. -/
theorem approxEqual_of_meets {t : Tolerance} {a b x y : Value} {p : List Step}
    (h : approxEqual t a b = .ok true) (m : Meets a b p x y) :
    ∃ u, t.along p = some u ∧ approxEqual u x y = .ok true := by
  induction m generalizing t with
  | here => exact ⟨t, rfl, h⟩
  | step hs _ ih =>
    obtain ⟨u, hu, he⟩ := approxEqual_of_below h hs
    obtain ⟨v, hv, he⟩ := ih he
    refine ⟨v, ?_, he⟩
    rw [Tolerance.along, walk, hu]
    exact hv

end Value

end Assay
