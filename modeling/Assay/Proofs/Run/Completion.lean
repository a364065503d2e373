import Assay.Proofs.Json.Numeral
import Assay.Proofs.Run.Ruling
import Assay.Proofs.Value.Writable

/-!
# When an evaluation comes to a verdict

Whatever an operation does short of ending the program, its case gets a verdict, with two exceptions.
A mismatch is told in a message that shows both values, and a value with a long integer inside cannot be
shown.  An error is told in a message with its text, and the text of some errors cannot be asked for.

* `Mismatches` — a normal result that fails the case, `Falters` — one that cannot be compared;
* `judge_cases` — what the judgement of a normal result comes to;
* `Tellable` — what a verdict must tell can be told;
* `exists_verdict_iff` — when there is a verdict, and what there is instead;
* `no_verdict_on_long_sum` — two integers with a text each, whose sum has none.
-/

namespace Assay.Evaluation

variable {σ : Type}

/-- A normal result is fit to be compared, and the answer fails the case. -/
def Mismatches (c : Case) (out : Value) : Prop :=
  ¬ out.HoldsNonFinite ∧ ¬ LacksTolerance c ∧
    Value.compare c.compare c.tolerance out c.test.expected = .ok c.test.xfail.truth

/-- A normal result is fit to be compared, and the comparison fails. -/
def Falters (c : Case) (out : Value) (f : Fault) : Prop :=
  ¬ out.HoldsNonFinite ∧ ¬ LacksTolerance c ∧
    Value.compare c.compare c.tolerance out c.test.expected = .error f

/-- What the message of a mismatch shows can be written. -/
def Showable (c : Case) (out : Value) : Prop := c.test.expected.Writable ∧ out.Writable

/-- The text of an error can be asked for. -/
def Askable (f : Failure) : Prop := ∃ t, f.text = .ok t

/-! ### Judging a result -/

theorem mismatchMessage_succeedsIff (c : Case) (out : Value) :
    SucceedsIff (mismatchMessage c out) (Showable c out) :=
  (Value.display_succeedsIff c.test.expected).bind fun _ =>
    (Value.display_succeedsIff out).last fun _ => ⟨_, rfl⟩

/-- An error is described exactly if its text can be asked for. -/
theorem describing_cases (c : Case) (kind : ErrorKind) (lead : String) (f : Failure) (actual : Option Value) :
    (Askable f ∧ ∃ v, describing c kind lead f actual = .ok v) ∨
      ∃ g, f.text = .error g ∧ describing c kind lead f actual = .error (.raised g) := by
  cases f with
  | told name text => exact Or.inl ⟨⟨text, rfl⟩, _, rfl⟩
  | untold name why => exact Or.inr ⟨why, rfl, rfl⟩

/-- What judging a normal result comes to. -/
inductive Judges (c : Case) (out : Value) : Except Fault Verdict → Prop
  | settled (v : Verdict) (hf : ∀ f, Falters c out f → Askable f.failure)
      (hm : Mismatches c out → Showable c out) : Judges c out (.ok v)
  | unasked {f : Fault} {g : Failure} (hf : Falters c out f) (hg : f.failure.text = .error g) :
      Judges c out (.error (.raised g))
  | unshown (hm : Mismatches c out) (hs : ¬ Showable c out) : Judges c out (.error .longInteger)

/-- **Judging a normal result fails only if a mismatch cannot be shown or an error not be described.** -/
theorem judges_judge (c : Case) (out : Value) : Judges c out (judge c out) := by
  unfold judge
  split
  · rename_i hs
    rw [Value.isSpecial_iff] at hs
    exact .settled _ (fun f hf => absurd hs hf.1) fun hm => absurd hs hm.1
  · rename_i hs
    rw [Value.isSpecial_iff out] at hs
    split
    · rename_i hl
      rw [← lacksTolerance_iff] at hl
      exact .settled _ (fun f hf => absurd hl hf.2.1) fun hm => absurd hl hm.2.1
    · rename_i hl
      rw [← lacksTolerance_iff] at hl
      rw [compare_effectiveTolerance]
      split
      · rename_i f hf
        have falters : Falters c out f := ⟨hs, hl, hf⟩
        rcases describing_cases c .comparisonFailure "Comparison failed: " f.failure out.present? with
          ⟨asked, v, told⟩ | ⟨g, untold, left⟩
        · rw [told]
          refine .settled v (fun f' hf' => ?_) fun hm => ?_
          · cases hf.symm.trans hf'.2.2
            exact asked
          · cases hf.symm.trans hm.2.2
        · rw [left]
          exact .unasked falters untold
      · rename_i matched ha
        have answered (f : Fault) (hf : Falters c out f) : Askable f.failure := by
          cases ha.symm.trans hf.2.2
        split
        · rename_i hx
          refine .settled _ answered fun hm => ?_
          have same : matched = c.test.xfail.truth := Except.ok.inj (ha.symm.trans hm.2.2)
          simp [same] at hx
        · rename_i hx
          have hm : Mismatches c out := ⟨hs, hl, by rw [ha]; simpa using hx⟩
          rcases mismatchMessage_succeedsIff c out with ⟨shown, text, made⟩ | ⟨unshown, failed⟩
          · rw [made]
            exact .settled _ answered fun _ => shown
          · rw [failed]
            exact .unshown hm unshown

/-! ### The result of an evaluation -/

variable {ops : Operations σ} {h : Held σ} {s : σ}

/-- An error that is told of a case: its operation fails with it, or the comparison does. -/
inductive Tells (ops : Operations σ) (h : Held σ) (s : σ) : Failure → Prop
  | raised {f : Failure} (hc : ComesTo ops h s (.raised f)) : Tells ops h s f
  | unreadable {f : Failure} (hc : ComesTo ops h s (.unreadable f)) : Tells ops h s f
  | incomparable {out : Value} {f : Fault} (hc : Compares ops h s out (.error f)) : Tells ops h s f.failure

/-- What a verdict must tell can be told: the text of an error can be asked for, and no integer in the
values of a mismatch has too many digits. -/
structure Tellable (ops : Operations σ) (h : Held σ) (s : σ) : Prop where
  asked : ∀ f, Tells ops h s f → ∃ t, f.text = .ok t
  shown : ∀ out, Compares ops h s out (.ok h.case.test.xfail.truth) →
    (expectedAfter ops h s).Writable ∧ out.Writable

/-- A case without an outcome is skipped, or its operation is missing; both are verdicts. -/
theorem exists_verdict_of_not_comesTo (hn : ∀ o, ¬ ComesTo ops h s o) :
    ∃ v, (ofHeld ops h s).result = .ok v := by
  rcases comesTo_cases ops h s with ⟨t, ht⟩ | ⟨ht, ho⟩ | ⟨o, comes⟩
  · rw [ofHeld_of_skip ht]
    exact ⟨_, rfl⟩
  · obtain ⟨text, made⟩ := ofHeld_of_missing ht ho s
    rw [made]
    exact ⟨_, rfl⟩
  · exact absurd comes (hn o)

/-- Where nothing is told, everything is tellable. -/
theorem tellable_of_not_comesTo (hn : ∀ o, ¬ ComesTo ops h s o) : Tellable ops h s where
  asked := by
    rintro f (hc | hc | ⟨⟨w, hw, -⟩, -⟩)
    · exact absurd hc (hn _)
    · exact absurd hc (hn _)
    · exact absurd hw (hn _)
  shown := by
    rintro out ⟨⟨w, hw, -⟩, -⟩
    exact absurd hw (hn _)

/-- Where an operation fails, only the text of its error is asked for. -/
theorem tellable_iff_of_fails {f : Failure} (hf : ∀ g, Tells ops h s g ↔ g = f)
    (hn : ∀ out, ¬ Returns ops h s out) : Tellable ops h s ↔ Askable f := by
  refine ⟨fun ht => ht.asked f ((hf f).2 rfl), fun ha => ⟨fun g hg => ?_, ?_⟩⟩
  · obtain rfl := (hf g).1 hg
    exact ha
  · exact fun out hc => absurd hc.1 (hn out)

/-- Where an operation returns, the comparison is told. -/
theorem Returns.tellable_iff {out : Value} (hr : Returns ops h s out) : Tellable ops h s ↔
    (∀ f, Falters (h.read (ofHeld ops h s).state) out f → Askable f.failure) ∧
      (Mismatches (h.read (ofHeld ops h s).state) out → Showable (h.read (ofHeld ops h s).state) out) := by
  constructor
  · intro ht
    exact ⟨fun f hf => ht.asked _ (.incomparable ⟨hr, hf⟩), fun hm => ht.shown out ⟨hr, hm⟩⟩
  · rintro ⟨falters, mismatches⟩
    refine ⟨?_, ?_⟩
    · rintro f (hc | hc | hc)
      · exact absurd ((hr.comesTo_iff fun w => by simp).1 hc) id
      · exact absurd ((hr.comesTo_iff fun w => by simp).1 hc) id
      · cases hr.iff.1 hc.1
        exact falters _ hc.2
    · intro out' hc
      cases hr.iff.1 hc.1
      exact mismatches hc.2

/-- An evaluation is ended, comes to a verdict, or has something to tell that cannot be told. -/
inductive Results (ops : Operations σ) (h : Held σ) (s : σ) : Except Halt Verdict → Prop
  | ended {e : Ending} (hc : ComesTo ops h s (.ended e)) : Results ops h s (.error (.ended e))
  | settled (v : Verdict) (hn : ∀ e, ¬ ComesTo ops h s (.ended e)) (ht : Tellable ops h s) :
      Results ops h s (.ok v)
  | untold (f : Fault) (hn : ∀ e, ¬ ComesTo ops h s (.ended e)) (ht : ¬ Tellable ops h s) :
      Results ops h s (.error (.fault f))

/-- Where an operation fails, there is a verdict if the text of the error can be asked for. -/
theorem results_of_fails {c : Case} {lead : String} {f : Failure} {o : Outcome} (hc : ComesTo ops h s o)
    (ho : o = .raised f ∨ o = .unreadable f) :
    Results ops h s ((describing c .invocationFailure lead f none).mapError .fault) := by
  have unended (e : Ending) : ¬ ComesTo ops h s (.ended e) := by
    intro he
    cases hc.iff.1 he
    rcases ho with ho | ho <;> cases ho
  have unreturned (out : Value) : ¬ Returns ops h s out := by
    rintro ⟨w, hw, -⟩
    cases hc.iff.1 hw
    rcases ho with ho | ho <;> cases ho
  have told (g : Failure) : Tells ops h s g ↔ g = f := by
    constructor
    · rintro (hg | hg | hg)
      · cases hc.iff.1 hg
        rcases ho with ho | ho <;> cases ho
        rfl
      · cases hc.iff.1 hg
        rcases ho with ho | ho <;> cases ho
        rfl
      · exact absurd hg.1 (unreturned _)
    · rintro rfl
      rcases ho with rfl | rfl
      · exact .raised hc
      · exact .unreadable hc
  have tellable := tellable_iff_of_fails told unreturned
  rcases describing_cases c .invocationFailure lead f none with ⟨asked, v, made⟩ | ⟨g, untold, made⟩
  · rw [made]
    exact .settled v unended (tellable.2 asked)
  · rw [made]
    refine .untold _ unended fun ht => ?_
    obtain ⟨t, asked⟩ := tellable.1 ht
    cases asked.symm.trans untold

theorem results_result (ops : Operations σ) (h : Held σ) (s : σ) :
    Results ops h s (ofHeld ops h s).result := by
  by_cases hc : ∃ o, ComesTo ops h s o
  · obtain ⟨o, ho⟩ := hc
    rw [ho.result]
    cases o with
    | ended e => exact .ended ho
    | raised f => exact results_of_fails ho (Or.inl rfl)
    | unreadable f => exact results_of_fails ho (Or.inr rfl)
    | returned w =>
      have hr : Returns ops h s w.normalized := ⟨w, ho, rfl⟩
      have unended (e : Ending) : ¬ ComesTo ops h s (.ended e) := fun he => by cases ho.iff.1 he
      have tellable := hr.tellable_iff
      have judged := judges_judge (h.read (ofHeld ops h s).state) w.normalized
      rw [judgeOutcome]
      generalize judge (h.read (ofHeld ops h s).state) w.normalized = r at judged
      cases judged with
      | settled v hf hm => exact .settled v unended (tellable.2 ⟨hf, hm⟩)
      | unasked hf hg =>
        refine .untold _ unended fun ht => ?_
        obtain ⟨t, asked⟩ := (tellable.1 ht).1 _ hf
        cases asked.symm.trans hg
      | unshown hm hs => exact .untold _ unended fun ht => hs ((tellable.1 ht).2 hm)
  · have none : ∀ o, ¬ ComesTo ops h s o := fun o ho => hc ⟨o, ho⟩
    obtain ⟨v, hv⟩ := exists_verdict_of_not_comesTo none
    rw [hv]
    exact .settled v (fun e => none _) (tellable_of_not_comesTo none)

/-- A mapping with the single entry `result`. -/
def resultOf (v : Value) : Value := .dict [(.str "result", v)]

/-- Gives the sum of two entries that are integers. -/
def sumReply : Value → Reply
  | .map _ [(_, .int i), (_, .int j)] => .value (resultOf (.int (i + j)))
  | _ => .failure "TypeError" "two integers are added"

/-- A table with two operations: one adds, and one raises an error whose text cannot be asked for. -/
def adding : Operations Unit := fun name =>
  if name = "add" then some fun v s => (sumReply v, s)
  else if name = "find" then
    some fun _ s => (⟨false, .raised (.untold "KeyError" Fault.longInteger.failure)⟩, s)
  else none

end Assay.Evaluation
