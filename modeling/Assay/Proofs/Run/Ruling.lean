import Assay.Proofs.Value.Occurs
import Assay.Run.Evaluation

/-!
# What a verdict says

An evaluation leaves by one of eight exits.  `Judged` lists them with all that holds at each, and
`judged_of_result` reads the exit off a verdict.  From that list alone:

* `Ruling` — for each kind of verdict the exact condition under which it is given, and what the
  verdict carries;
* `ofHeld_noting` — a table that notes its calls is evaluated like the plain one, and the notes tell
  how often the operation was called;
* `ruling_of_result` — every verdict is ruled so, also where the operation changes what the case holds;
* `passes_without_actual` — what an operation can return that no verdict tells.
-/

namespace Assay

/-- The operations of a table, each call noted at the end of a log with the name that was looked up
and the input. -/
def Operations.logged {σ : Type} (ops : Operations σ) : Operations (σ × List (String × Value)) :=
  ops.noting fun name input log => log ++ [(name, input)]

namespace Evaluation

variable {σ : Type}

/-- The case is skipped: its entry for that is a text. -/
def IsSkipped (c : Case) : Prop := ∃ v s, c.test.skip = some v ∧ v.unwrapped = .str s

/-- The case is compared approximately, and no tolerance is in effect or a null one. -/
def LacksTolerance (c : Case) : Prop :=
  c.compare.unwrapped = .str "approx" ∧ (c.tolerance = none ∨ c.tolerance = some (.plain .null))

/-- The case is not skipped, and the operation that it names comes to an outcome on its input. -/
def ComesTo (ops : Operations σ) (h : Held σ) (s : σ) (o : Outcome) : Prop :=
  ¬ IsSkipped h.case ∧ ∃ f, ops h.case.test.op = some f ∧ (f (h.input s) (h.hand s)).1.outcome = o

/-- The operation returns, and `out` is the normal form of what it returns. -/
def Returns (ops : Operations σ) (h : Held σ) (s : σ) (out : Value) : Prop :=
  ∃ v, ComesTo ops h s (.returned v) ∧ out = v.normalized

/-- The operation fails: it raises an error, or what it returns has no normal form. -/
def Fails (ops : Operations σ) (h : Held σ) (s : σ) : Prop :=
  ∃ f, ComesTo ops h s (.raised f) ∨ ComesTo ops h s (.unreadable f)

/-- What the case expects, as it reads once the operation has been called. -/
def expectedAfter (ops : Operations σ) (h : Held σ) (s : σ) : Value := h.expected (ofHeld ops h s).state

/-- The normal result is fit to be compared, and `answer` is what the comparison gives. -/
def Compares (ops : Operations σ) (h : Held σ) (s : σ) (out : Value) (answer : Except Fault Bool) :
    Prop :=
  Returns ops h s out ∧ ¬ out.HoldsNonFinite ∧ ¬ LacksTolerance h.case ∧
    Value.compare h.case.compare h.case.tolerance out (expectedAfter ops h s) = answer

/-! ### Each stage is decided once -/

theorem isSkipped_iff {c : Case} : IsSkipped c ↔ ∃ s, skipText? c = some s := by
  constructor
  · rintro ⟨v, s, hv, hs⟩
    exact ⟨s, by simp [skipText?, hv, hs]⟩
  · rintro ⟨s, h⟩
    unfold skipText? at h
    split at h
    · rename_i t ht
      obtain ⟨v, hv, hu⟩ := Option.map_eq_some_iff.1 ht
      exact ⟨v, t, hv, hu⟩
    · exact absurd h (by simp)

theorem ofValue?_eq_approx_iff {v : Value} :
    Mode.ofValue? v = some .approx ↔ v.unwrapped = .str "approx" := by
  unfold Mode.ofValue?
  split
  · rename_i s hs
    rw [hs]
    constructor
    · intro h
      have found := List.find?_some h
      rw [← eq_of_beq found]
      rfl
    · intro h
      cases h
      rfl
  · rename_i h
    constructor
    · intro e
      exact absurd e (by simp)
    · intro e
      exact absurd e (h _)

theorem lacksTolerance_iff {c : Case} :
    LacksTolerance c ↔ Mode.ofValue? c.compare = some .approx ∧ ¬ c.hasTolerance := by
  rw [LacksTolerance, ofValue?_eq_approx_iff, Case.hasTolerance]
  refine and_congr_right fun _ => ?_
  cases c.tolerance with
  | none => simp [Tolerance.isGiven]
  | some t =>
    cases t with
    | plain b => cases b <;> simp [Tolerance.isGiven]
    | structured a r fs => simp [Tolerance.isGiven]

/-- A tolerance of null compares like none. -/
theorem compare_effectiveTolerance (c : Case) (a b : Value) :
    Value.compare c.compare (effectiveTolerance c) a b = Value.compare c.compare c.tolerance a b := by
  unfold effectiveTolerance
  split
  · rfl
  · rename_i h
    have null : c.tolerance = none ∨ c.tolerance = some (.plain .null) := by
      revert h
      rw [Case.hasTolerance]
      cases c.tolerance with
      | none => simp
      | some t =>
        cases t with
        | plain b => cases b <;> simp [Tolerance.isGiven]
        | structured a r fs => simp [Tolerance.isGiven]
    rcases null with h | h
    · rw [h]
    · rw [h]
      unfold Value.compare
      cases Mode.ofValue? c.compare with
      | none => rfl
      | some m => cases m <;> rfl

/-! ### The eight exits -/

/-- The exits of an evaluation, each with what holds there and the verdict that it gives. -/
inductive Judged (ops : Operations σ) (h : Held σ) (s : σ) : Verdict → Prop
  | skipped (text : String) (hs : IsSkipped h.case) :
      Judged ops h s ⟨h.read (ofHeld ops h s).state, .skip, some text, none, none⟩
  | missing (text : String) (hs : ¬ IsSkipped h.case) (ho : ops h.case.test.op = none) :
      Judged ops h s (errorVerdict (h.read (ofHeld ops h s).state) .missingOperation text none)
  | failed (text : String) (hf : Fails ops h s) :
      Judged ops h s (errorVerdict (h.read (ofHeld ops h s).state) .invocationFailure text none)
  | special (text : String) (out : Value) (hr : Returns ops h s out) (hn : out.HoldsNonFinite) :
      Judged ops h s
        (errorVerdict (h.read (ofHeld ops h s).state) .forbiddenSpecialValue text out.present?)
  | lacking (text : String) (out : Value) (hr : Returns ops h s out) (hn : ¬ out.HoldsNonFinite)
      (hl : LacksTolerance h.case) :
      Judged ops h s (errorVerdict (h.read (ofHeld ops h s).state) .toleranceRequired text out.present?)
  | incomparable (text : String) (out : Value) (f : Fault) (hc : Compares ops h s out (.error f)) :
      Judged ops h s (errorVerdict (h.read (ofHeld ops h s).state) .comparisonFailure text out.present?)
  | passed (out : Value) (matched : Bool) (hc : Compares ops h s out (.ok matched))
      (hx : matched ≠ h.case.test.xfail.truth) :
      Judged ops h s ⟨h.read (ofHeld ops h s).state, .pass, none, out.present?, none⟩
  | mismatched (text : String) (out : Value) (matched : Bool) (hc : Compares ops h s out (.ok matched))
      (hx : matched = h.case.test.xfail.truth) :
      Judged ops h s ⟨h.read (ofHeld ops h s).state, .fail, some text, out.present?, none⟩

/-- An error verdict describes an error whose text can be asked for. -/
theorem describing_eq_ok {c : Case} {kind : ErrorKind} {lead : String} {f : Failure}
    {actual : Option Value} {v : Verdict} (h : describing c kind lead f actual = .ok v) :
    ∃ text, f.describe = .ok text ∧ v = errorVerdict c kind (lead ++ text) actual := by
  unfold describing at h
  cases hd : f.describe with
  | error g =>
    rw [hd] at h
    cases h
  | ok text =>
    rw [hd] at h
    cases h
    exact ⟨text, rfl, rfl⟩

/-- The verdict on a normal result is one of the last five exits. -/
theorem judged_of_judge {ops : Operations σ} {h : Held σ} {s : σ} {out : Value} {v : Verdict}
    (hr : Returns ops h s out) (hj : judge (h.read (ofHeld ops h s).state) out = .ok v) :
    Judged ops h s v := by
  unfold judge at hj
  split at hj
  · rename_i hs
    cases hj
    exact .special _ out hr ((Value.isSpecial_iff out).1 hs)
  · rename_i hs
    rw [Value.isSpecial_iff out] at hs
    split at hj
    · rename_i hl
      cases hj
      exact .lacking _ out hr hs (lacksTolerance_iff.2 hl)
    · rename_i hl
      rw [← lacksTolerance_iff] at hl
      rw [compare_effectiveTolerance] at hj
      cases ha : Value.compare h.case.compare h.case.tolerance out (expectedAfter ops h s) with
      | error f =>
        have compared : Value.compare (h.read (ofHeld ops h s).state).compare
          (h.read (ofHeld ops h s).state).tolerance out
          (h.read (ofHeld ops h s).state).test.expected = .error f := ha
        rw [compared] at hj
        obtain ⟨text, -, rfl⟩ := describing_eq_ok hj
        exact .incomparable _ out f ⟨hr, hs, hl, ha⟩
      | ok matched =>
        have compared : Value.compare (h.read (ofHeld ops h s).state).compare
          (h.read (ofHeld ops h s).state).tolerance out
          (h.read (ofHeld ops h s).state).test.expected = .ok matched := ha
        have expected : (h.read (ofHeld ops h s).state).test.xfail = h.case.test.xfail := rfl
        simp only [compared, expected, bne_iff_ne] at hj
        split at hj
        · rename_i hx
          cases hj
          exact .passed out matched ⟨hr, hs, hl, ha⟩ hx
        · rename_i hx
          obtain ⟨text, -, ⟨⟩⟩ := bind_eq_ok_iff.1 hj
          exact .mismatched text out matched ⟨hr, hs, hl, ha⟩ (Decidable.not_not.1 hx)

/-- What an operation comes to decides the result of the evaluation. -/
theorem ComesTo.result {ops : Operations σ} {h : Held σ} {s : σ} {o : Outcome} (hc : ComesTo ops h s o) :
    (ofHeld ops h s).result = judgeOutcome (h.read (ofHeld ops h s).state) o := by
  obtain ⟨hs, f, hf, rfl⟩ := hc
  have unskipped : skipText? h.case = none := by
    rw [Option.eq_none_iff_forall_not_mem]
    intro t ht
    exact hs (isSkipped_iff.2 ⟨t, ht⟩)
  unfold ofHeld
  simp only [unskipped, hf]

theorem ofHeld_of_skip {h : Held σ} {t : String} (ht : skipText? h.case = some t) (ops : Operations σ)
    (s : σ) : ofHeld ops h s = ⟨.ok ⟨h.read s, .skip, some t, none, none⟩, false, s⟩ := by
  unfold ofHeld
  rw [ht]

theorem ofHeld_of_missing {ops : Operations σ} {h : Held σ} (ht : skipText? h.case = none)
    (ho : ops h.case.test.op = none) (s : σ) : ∃ text, ofHeld ops h s =
      ⟨.ok (errorVerdict (h.read s) .missingOperation text none), false, s⟩ := by
  unfold ofHeld
  rw [ht]
  simp only [ho]
  exact ⟨_, rfl⟩

/-- The case is skipped, its operation is missing, or the operation comes to something. -/
theorem comesTo_cases (ops : Operations σ) (h : Held σ) (s : σ) :
    (∃ t, skipText? h.case = some t) ∨ (skipText? h.case = none ∧ ops h.case.test.op = none) ∨
      ∃ o, ComesTo ops h s o := by
  cases ht : skipText? h.case with
  | some t => exact Or.inl ⟨t, rfl⟩
  | none =>
    have hs : ¬ IsSkipped h.case := by
      rw [isSkipped_iff, ht]
      simp
    cases ho : ops h.case.test.op with
    | none => exact Or.inr (Or.inl ⟨rfl, rfl⟩)
    | some f => exact Or.inr (Or.inr ⟨_, hs, f, ho, rfl⟩)

/-- **Every verdict leaves by one of the eight exits.** -/
theorem judged_of_result {ops : Operations σ} {h : Held σ} {s : σ} {v : Verdict}
    (hv : (ofHeld ops h s).result = .ok v) : Judged ops h s v := by
  rcases comesTo_cases ops h s with ⟨t, ht⟩ | ⟨ht, ho⟩ | ⟨o, comes⟩
  · have skips : Judged ops h s ⟨h.read (ofHeld ops h s).state, .skip, some t, none, none⟩ :=
      .skipped t (isSkipped_iff.2 ⟨t, ht⟩)
    rw [ofHeld_of_skip ht] at hv skips
    cases hv
    exact skips
  · obtain ⟨text, made⟩ := ofHeld_of_missing ht ho s
    have misses : Judged ops h s
        (errorVerdict (h.read (ofHeld ops h s).state) .missingOperation text none) :=
      .missing text (by rw [isSkipped_iff, ht]; simp) ho
    rw [made] at hv misses
    cases hv
    exact misses
  · rw [comes.result] at hv
    cases o with
    | returned w => exact judged_of_judge ⟨w, comes, rfl⟩ (mapError_eq_ok_iff.1 hv)
    | unreadable f =>
      obtain ⟨text, -, rfl⟩ := describing_eq_ok (mapError_eq_ok_iff.1 hv)
      exact .failed _ ⟨f, Or.inr comes⟩
    | raised f =>
      obtain ⟨text, -, rfl⟩ := describing_eq_ok (mapError_eq_ok_iff.1 hv)
      exact .failed _ ⟨f, Or.inl comes⟩
    | ended e => cases hv

/-! ### What an exit excludes -/

section Exits

variable {ops : Operations σ} {h : Held σ} {s : σ} {out out' : Value} {o o' : Outcome}

/-- An operation comes to one outcome. -/
theorem ComesTo.iff (hc : ComesTo ops h s o) : ComesTo ops h s o' ↔ o' = o := by
  obtain ⟨hs, f, hf, ho⟩ := hc
  constructor
  · rintro ⟨-, g, hg, ho'⟩
    rw [hf] at hg
    cases hg
    exact ho'.symm.trans ho
  · rintro rfl
    exact ⟨hs, f, hf, ho⟩

/-- An operation returns one value. -/
theorem Returns.iff (hr : Returns ops h s out) : Returns ops h s out' ↔ out' = out := by
  obtain ⟨w, hw, rfl⟩ := hr
  constructor
  · rintro ⟨w', hw', rfl⟩
    cases hw.iff.1 hw'
    rfl
  · rintro rfl
    exact ⟨w, hw, rfl⟩

/-- A comparison has one answer. -/
theorem Compares.iff {a a' : Except Fault Bool} (hc : Compares ops h s out a) :
    Compares ops h s out' a' ↔ out' = out ∧ a' = a := by
  obtain ⟨hr, hn, hl, ha⟩ := hc
  constructor
  · rintro ⟨hr', -, -, ha'⟩
    cases hr.iff.1 hr'
    exact ⟨rfl, ha'.symm.trans ha⟩
  · rintro ⟨rfl, rfl⟩
    exact ⟨hr, hn, hl, ha⟩

theorem Returns.comesTo_iff (hr : Returns ops h s out) (ho : ∀ w, o ≠ .returned w) :
    ComesTo ops h s o ↔ False := by
  obtain ⟨w, hw, -⟩ := hr
  rw [hw.iff, iff_false]
  exact ho w

theorem ComesTo.not_skipped (hc : ComesTo ops h s o) : ¬ IsSkipped h.case := hc.1

theorem ComesTo.found (hc : ComesTo ops h s o) : ops h.case.test.op ≠ none := by
  obtain ⟨-, f, hf, -⟩ := hc
  rw [hf]
  exact Option.some_ne_none f

/-- An operation that returns does not fail. -/
theorem Returns.not_fails (hr : Returns ops h s out) : ¬ Fails ops h s := by
  rintro ⟨f, hf | hf⟩
  · exact (hr.comesTo_iff fun w => by simp).1 hf
  · exact (hr.comesTo_iff fun w => by simp).1 hf

theorem Fails.not_returns (hf : Fails ops h s) (out : Value) : ¬ Returns ops h s out :=
  fun hr => hr.not_fails hf

theorem Fails.called (hf : Fails ops h s) : ¬ IsSkipped h.case ∧ ops h.case.test.op ≠ none := by
  obtain ⟨f, hf | hf⟩ := hf
  · exact ⟨hf.not_skipped, hf.found⟩
  · exact ⟨hf.not_skipped, hf.found⟩

theorem Returns.called (hr : Returns ops h s out) : ¬ IsSkipped h.case ∧ ops h.case.test.op ≠ none := by
  obtain ⟨w, hw, -⟩ := hr
  exact ⟨hw.not_skipped, hw.found⟩

/-- Nothing is compared before the operation has come to something. -/
theorem not_comesTo (hn : IsSkipped h.case ∨ ops h.case.test.op = none) (o : Outcome) :
    ¬ ComesTo ops h s o := by
  intro ho
  rcases hn with hn | hn
  · exact ho.not_skipped hn
  · exact ho.found hn

theorem not_returns (hn : IsSkipped h.case ∨ ops h.case.test.op = none) (out : Value) :
    ¬ Returns ops h s out := by
  rintro ⟨w, hw, -⟩
  exact not_comesTo hn _ hw

theorem not_fails (hn : IsSkipped h.case ∨ ops h.case.test.op = none) : ¬ Fails ops h s := by
  rintro ⟨f, hf | hf⟩
  · exact not_comesTo hn _ hf
  · exact not_comesTo hn _ hf

end Exits

/-! ### Calls -/

/-- The calls that an evaluation makes: with the input as it reads when it begins. -/
def calls (ops : Operations σ) (h : Held σ) (s : σ) : List (String × Value) :=
  match skipText? h.case with
  | some _ => []
  | none => ((ops h.case.test.op).map fun _ => (h.case.test.op, h.input s)).toList

/-- **Noting the calls changes nothing but the notes.** -/
theorem ofHeld_noting {ρ : Type} (ops : Operations σ) (note : String → Value → ρ → ρ) (h : Held σ) (s : σ)
    (r : ρ) : ofHeld (ops.noting note) h.onFirst (s, r) =
      ⟨(ofHeld ops h s).result, (ofHeld ops h s).awaited,
        ((ofHeld ops h s).state, (calls ops h s).foldl (fun r k => note k.1 k.2 r) r)⟩ := by
  unfold ofHeld calls
  have same : (h.onFirst : Held (σ × ρ)).case = h.case := rfl
  rw [same]
  cases skipText? h.case with
  | some t => rfl
  | none =>
    unfold Operations.noting
    cases ops h.case.test.op <;> rfl

theorem calls_eq_nil {ops : Operations σ} {h : Held σ} (hn : IsSkipped h.case ∨ ops h.case.test.op = none)
    (s : σ) : calls ops h s = [] := by
  unfold calls
  rcases hn with hs | ho
  · obtain ⟨t, ht⟩ := isSkipped_iff.1 hs
    rw [ht]
  · cases skipText? h.case with
    | some t => rfl
    | none => rw [ho]; rfl

theorem calls_eq_singleton {ops : Operations σ} {h : Held σ} (hs : ¬ IsSkipped h.case)
    (ho : ops h.case.test.op ≠ none) (s : σ) : calls ops h s = [(h.case.test.op, h.input s)] := by
  unfold calls
  cases ht : skipText? h.case with
  | some t => exact absurd (isSkipped_iff.2 ⟨t, ht⟩) hs
  | none =>
    obtain ⟨f, hf⟩ := Option.ne_none_iff_exists'.1 ho
    rw [hf]
    rfl

theorem ofHeld_logged (ops : Operations σ) (h : Held σ) (s : σ) (log : List (String × Value)) :
    (ofHeld ops.logged h.onFirst (s, log)).state.2 = log ++ calls ops h s := by
  rw [Operations.logged, ofHeld_noting]
  unfold calls
  cases skipText? h.case with
  | some t => exact (List.append_nil log).symm
  | none =>
    cases ops h.case.test.op with
    | none => exact (List.append_nil log).symm
    | some f => rfl

/-! ### The ruling -/

/-- The verdict is an error of a kind. -/
def IsError (v : Verdict) (kind : ErrorKind) : Prop := v.status = .error ∧ v.errorKind = some kind

/-- What a verdict on a case says: each status and each kind of error under its exact condition, the
calls that were made, and what the verdict carries. -/
structure Ruling (ops : Operations σ) (h : Held σ) (s : σ) (v : Verdict) : Prop where
  skipped : v.status = .skip ↔ IsSkipped h.case
  missing : IsError v .missingOperation ↔ ¬ IsSkipped h.case ∧ ops h.case.test.op = none
  failed : IsError v .invocationFailure ↔ Fails ops h s
  special : IsError v .forbiddenSpecialValue ↔ ∃ out, Returns ops h s out ∧ out.HoldsNonFinite
  lacking : IsError v .toleranceRequired ↔
    ∃ out, Returns ops h s out ∧ ¬ out.HoldsNonFinite ∧ LacksTolerance h.case
  incomparable : IsError v .comparisonFailure ↔ ∃ out f, Compares ops h s out (.error f)
  passed : v.status = .pass ↔
    ∃ out matched, Compares ops h s out (.ok matched) ∧ matched ≠ h.case.test.xfail.truth
  mismatched : v.status = .fail ↔
    ∃ out matched, Compares ops h s out (.ok matched) ∧ matched = h.case.test.xfail.truth
  noLookup : IsSkipped h.case → ∀ ops' : Operations σ, ofHeld ops' h s = ofHeld ops h s
  noCall : IsSkipped h.case ∨ ops h.case.test.op = none →
    ∀ log, (ofHeld ops.logged h.onFirst (s, log)).state.2 = log
  oneCall : ¬ IsSkipped h.case → ops h.case.test.op ≠ none →
    ∀ log, (ofHeld ops.logged h.onFirst (s, log)).state.2 = log ++ [(h.case.test.op, h.input s)]
  case : v.case = h.read (ofHeld ops h s).state
  errorKind : v.errorKind ≠ none ↔ v.status = .error
  /-- Nothing is told of what the operation has returned if it has not returned, or if what it has returned
  is the mark of absence. -/
  noActual : v.actual = none ↔ v.status = .skip ∨ IsError v .missingOperation ∨
    IsError v .invocationFailure ∨ Returns ops h s .absent
  actual : ∀ out, v.actual = some out → Returns ops h s out

theorem present?_eq_none_iff {v : Value} : v.present? = none ↔ v = .absent := by
  cases v <;> simp [Value.present?]

theorem eq_of_present? {v w : Value} (h : v.present? = some w) : w = v := by
  cases v <;> simp_all [Value.present?]

/-- What a verdict carries where the operation has returned. -/
theorem Returns.carries {ops : Operations σ} {h : Held σ} {s : σ} {out : Value}
    (hr : Returns ops h s out) :
    (out.present? = none ↔ Returns ops h s .absent) ∧
      ∀ w, out.present? = some w → Returns ops h s w := by
  refine ⟨?_, fun w hw => eq_of_present? hw ▸ hr⟩
  rw [present?_eq_none_iff, hr.iff, eq_comm]

/-- The fields of a ruling that speak of the verdict, as they stand at one exit. -/
theorem Judged.ruling {ops : Operations σ} {h : Held σ} {s : σ} {v : Verdict}
    (hj : Judged ops h s v) : Ruling ops h s v := by
  have noLookup : IsSkipped h.case → ∀ ops' : Operations σ, ofHeld ops' h s = ofHeld ops h s := by
    intro hs ops'
    obtain ⟨t, ht⟩ := isSkipped_iff.1 hs
    rw [ofHeld_of_skip ht ops', ofHeld_of_skip ht ops]
  have noCall : IsSkipped h.case ∨ ops h.case.test.op = none →
      ∀ log, (ofHeld ops.logged h.onFirst (s, log)).state.2 = log := by
    intro hn log
    rw [ofHeld_logged, calls_eq_nil hn]
    exact List.append_nil log
  have oneCall : ¬ IsSkipped h.case → ops h.case.test.op ≠ none →
      ∀ log, (ofHeld ops.logged h.onFirst (s, log)).state.2 = log ++ [(h.case.test.op, h.input s)] := by
    intro hs ho log
    rw [ofHeld_logged, calls_eq_singleton hs ho]
  -- At each exit every condition is settled by what holds there.
  cases hj with
  | skipped text hs =>
    have none : ∀ out, ¬ Returns ops h s out := not_returns (Or.inl hs)
    have unfailed : ¬ Fails ops h s := not_fails (Or.inl hs)
    constructor <;> simp_all [IsError, Compares]
  | missing text hs ho =>
    have none := not_returns (s := s) (Or.inr ho)
    have unfailed := not_fails (s := s) (Or.inr ho)
    constructor <;> simp_all [IsError, errorVerdict, Compares]
  | failed text hf =>
    obtain ⟨hs, ho⟩ := hf.called
    have none := hf.not_returns
    constructor <;> simp_all [IsError, errorVerdict, Compares]
  | special text out hr hn =>
    obtain ⟨hs, ho⟩ := hr.called
    obtain ⟨absent, carried⟩ := hr.carries
    have unfailed := hr.not_fails
    constructor <;> simp_all [IsError, errorVerdict, Compares, hr.iff]
  | lacking text out hr hn hl =>
    obtain ⟨hs, ho⟩ := hr.called
    obtain ⟨absent, carried⟩ := hr.carries
    have unfailed := hr.not_fails
    constructor <;> simp_all [IsError, errorVerdict, Compares, hr.iff]
  | incomparable text out f hc =>
    have hr := hc.1
    obtain ⟨hs, ho⟩ := hr.called
    obtain ⟨absent, carried⟩ := hr.carries
    have unfailed := hr.not_fails
    have hn := hc.2.1
    have hl := hc.2.2.1
    constructor <;> simp_all [IsError, errorVerdict, hr.iff, hc.iff]
  | passed out matched hc hx =>
    have hr := hc.1
    obtain ⟨hs, ho⟩ := hr.called
    obtain ⟨absent, carried⟩ := hr.carries
    have unfailed := hr.not_fails
    have hn := hc.2.1
    have hl := hc.2.2.1
    constructor
    case passed => exact ⟨fun _ => ⟨out, matched, hc, hx⟩, fun _ => rfl⟩
    case mismatched =>
      refine iff_of_false (by simp) ?_
      rintro ⟨out', m, hm, he⟩
      cases (hc.iff.1 hm).2
      exact hx he
    all_goals simp_all [IsError, hr.iff, hc.iff]
  | mismatched text out matched hc hx =>
    have hr := hc.1
    obtain ⟨hs, ho⟩ := hr.called
    obtain ⟨absent, carried⟩ := hr.carries
    have unfailed := hr.not_fails
    have hn := hc.2.1
    have hl := hc.2.2.1
    constructor
    case mismatched => exact ⟨fun _ => ⟨out, matched, hc, hx⟩, fun _ => rfl⟩
    case passed =>
      refine iff_of_false (by simp) ?_
      rintro ⟨out', m, hm, he⟩
      cases (hc.iff.1 hm).2
      exact he hx
    all_goals simp_all [IsError, hr.iff, hc.iff]

/-- **Every verdict is ruled.** -/
theorem ruling_of_result {ops : Operations σ} {h : Held σ} {s : σ} {v : Verdict}
    (hv : (ofHeld ops h s).result = .ok v) : Ruling ops h s v :=
  (judged_of_result hv).ruling

/-- An infinity deep in the output is reported before the tolerance is missed: the one operation of
the table returns a pair of null and a mapping that holds an infinity, and the comparison would be
approximate. -/
theorem ruling_of_result_infinity :
    let out : Value := .tuple [.null, .dict [(.str "x", .float (.infinite false))]]
    let ops : Operations Unit := fun name =>
      if name = "probe" then some fun _ s => (Reply.value out, s) else none
    let c : Case := ⟨{ id := "t", op := "probe", input := .null, expected := .null }, ["g"],
      .str "approx", none⟩
    let v : Verdict := errorVerdict c .forbiddenSpecialValue specialMessage (some out.normalized)
    (ofHeld ops (.still c) ()).result = .ok v ∧ Ruling ops (.still c) () v := by
  intro out ops c v
  have h : (ofHeld ops (.still c) ()).result = .ok v := by rfl
  exact ⟨h, ruling_of_result h⟩

/-- **A case can pass without an actual value**: where the operation returns the mark of absence.  And where
it returns something without a normal form, that is told like an error of the call. -/
theorem passes_without_actual :
    let ops (o : Outcome) : Operations Unit := fun name =>
      if name = "probe" then some fun _ s => (⟨false, o⟩, s) else none
    let c : Case := ⟨{ id := "t", op := "probe", input := .null, expected := .null, xfail := .bool true },
      ["g"], .str "deep", none⟩
    (ofHeld (ops (.returned .absent)) (.still c) ()).result = .ok ⟨c, .pass, none, none, none⟩ ∧
      (ofHeld (ops (.unreadable (.told "RecursionError" "too deep"))) (.still c) ()).result =
        .ok (errorVerdict c .invocationFailure "Exception: too deep" none) := by
  intro ops c
  exact ⟨by rfl, by rfl⟩

end Evaluation

end Assay
