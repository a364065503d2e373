import Assay.Proofs.Run.Completion
import Assay.Proofs.Value.Normal

/-!
# Special floats in results

A result is searched for floats that are not finite after it has become normal.  Nothing is hidden by that
and nothing made up, whatever holds the float, but for scalars of extended precision: those have no plain
counterpart, stay what they are, and are passed over.

* `result_of_showsSpecial` — a result that shows a special float is an error;
* `special_floats_found` — the search finds what the result shows, and what passes or fails shows nothing;
* `passes_extended_nan` — a scalar of extended precision that is not a number passes.
-/

namespace Assay.Evaluation

variable {σ : Type}

/-- **A result that shows a special float is an error**, before anything is compared. -/
theorem result_of_showsSpecial {ops : Operations σ} {h : Held σ} {s : σ} {v : Value}
    (hc : ComesTo ops h s (.returned v)) (hv : v.ShowsSpecial) : (ofHeld ops h s).result =
      .ok (errorVerdict (h.read (ofHeld ops h s).state) .forbiddenSpecialValue specialMessage
        (some v.normalized)) := by
  have special : v.normalized.isSpecial = true :=
    (Value.isSpecial_iff _).2 ((Value.holdsNonFinite_normalized_iff v).2 hv)
  have present : v.normalized.present? = some v.normalized := by
    cases hn : v.normalized with
    | absent =>
      rw [hn] at special
      cases special
    | _ => rfl
  rw [hc.result, judgeOutcome, judge, if_pos special, present]
  rfl

/-- **Special floats in results.**  The search in the normal form of a value finds something exactly if some
position of the value has a float that is not finite, plain or in a scalar of a precision that is not
extended.  A result that has one is an error; and where the verdict is that the case passes or fails, neither
the result nor what the verdict carries has one. -/
theorem special_floats_found (ops : Operations σ) (h : Held σ) (s : σ) :
    (∀ v : Value, v.normalized.isSpecial = true ↔ v.ShowsSpecial) ∧
      (∀ v, ComesTo ops h s (.returned v) → v.ShowsSpecial → (ofHeld ops h s).result =
        .ok (errorVerdict (h.read (ofHeld ops h s).state) .forbiddenSpecialValue specialMessage
          (some v.normalized))) ∧
      ∀ r, (ofHeld ops h s).result = .ok r → r.status = .pass ∨ r.status = .fail →
        ∃ v, ComesTo ops h s (.returned v) ∧ r.actual = v.normalized.present? ∧ ¬ v.ShowsSpecial ∧
          ¬ v.normalized.ShowsSpecial := by
  refine ⟨?_, fun v => result_of_showsSpecial, ?_⟩
  · intro v
    rw [Value.isSpecial_iff, Value.holdsNonFinite_normalized_iff]
  · intro r hr settled
    have compared : ∃ out answer, Compares ops h s out (.ok answer) ∧ r.actual = out.present? := by
      cases judged_of_result hr with
      | passed out matched compares => exact ⟨out, matched, compares, rfl⟩
      | mismatched text out matched compares => exact ⟨out, matched, compares, rfl⟩
      | _ => simp [errorVerdict] at settled
    obtain ⟨out, answer, ⟨⟨v, comes, rfl⟩, finite, -, -⟩, actual⟩ := compared
    have clean : ¬ v.ShowsSpecial := mt (Value.holdsNonFinite_normalized_iff v).2 finite
    exact ⟨v, comes, actual, clean, mt v.showsSpecial_normalized_iff.1 clean⟩

/-- A table with the one operation `probe`, which returns a value. -/
def returning (v : Value) : Operations Unit := fun name =>
  if name = "probe" then some fun _ s => (Reply.value v, s) else none

/-- A case that compares deeply what `probe` returns with a number, and is expected to differ. -/
def differs : Case :=
  ⟨{ id := "t", op := "probe", input := .null, expected := .int 1, xfail := .bool true }, ["g"],
    .str "deep", none⟩

theorem comesTo_returning (v : Value) : ComesTo (returning v) (.still differs) () (.returned v) := by
  refine ⟨?_, _, rfl, rfl⟩
  rintro ⟨reason, t, hs, -⟩
  cases hs

/-- A pair of zeros in an array differs from a number, as expected, and shows no special float; with what is
not a number in place of a zero the case is an error. -/
theorem special_floats_found_pair :
    let zeros : Value := .array .single (.list [.float (.signedZero true), .float (.signedZero false)])
    let marred : Value := .array .single (.list [.float (.signedZero true), .float (.nan 0)])
    let r : Verdict := ⟨differs, .pass, none, some zeros.normalized, none⟩
    ((ofHeld (returning zeros) (.still differs) ()).result = .ok r ∧
      ∃ v, ComesTo (returning zeros) (.still differs) () (.returned v) ∧ r.actual = v.normalized.present? ∧
        ¬ v.ShowsSpecial ∧ ¬ v.normalized.ShowsSpecial) ∧
      ComesTo (returning marred) (.still differs) () (.returned marred) ∧ marred.ShowsSpecial ∧
        (ofHeld (returning marred) (.still differs) ()).result =
          .ok (errorVerdict differs .forbiddenSpecialValue specialMessage (some marred.normalized)) := by
  intro zeros marred r
  have passed : (ofHeld (returning zeros) (.still differs) ()).result = .ok r := rfl
  have found : marred.normalized.isSpecial = true := rfl
  have shown : marred.ShowsSpecial := ((special_floats_found (returning marred) (.still differs) ()).1 marred).1 found
  have comes := comesTo_returning marred
  exact ⟨⟨passed, (special_floats_found (returning zeros) (.still differs) ()).2.2 r passed (Or.inl rfl)⟩, comes,
    shown, (special_floats_found (returning marred) (.still differs) ()).2.1 marred comes shown⟩

/-- **A scalar of extended precision that is not a number passes**, and the verdict carries it. -/
theorem passes_extended_nan :
    let out : Value := .scalar .extended (.float (.nan 0))
    out.IsSpecialFloat ∧ out.normalized.isSpecial = false ∧
      (ofHeld (returning out) (.still differs) ()).result = .ok ⟨differs, .pass, none, some out, none⟩ := by
  intro out
  have special : out.IsSpecialFloat := ⟨.nan 0, Or.inr ⟨.extended, rfl⟩, rfl⟩
  exact ⟨special, rfl, rfl⟩

end Assay.Evaluation
