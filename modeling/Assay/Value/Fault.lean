import Assay.Failure

/-!
# What can go wrong with values

The causes for which a value cannot be written, compared or taken as a tolerance, and the error that
each is raised as.
-/

namespace Assay

/-- A cause for which work on values fails. Classes are given by name and texts as they are shown. -/
inductive Fault where
  /-- An integer has too many digits to be written in decimal. -/
  | longInteger
  /-- A value has no JSON form. -/
  | notWritable (className : String)
  /-- A key has no JSON form. -/
  | badKey (className : String)
  /-- A value was taken for a mapping because of the name of its class. -/
  | noKeys (className : String)
  /-- A value was taken for a sequence because of the name of its class. -/
  | noLength (className : String)
  /-- Approximate comparison was asked for without a tolerance. -/
  | toleranceMissing
  /-- A comparison mode that does not exist. -/
  | unknownMode (text : String)
  /-- Two values cannot be ordered. -/
  | noOrder (left right : String)
  /-- Two values cannot be subtracted. -/
  | noDifference (left right : String)
  /-- A value has no magnitude. -/
  | noMagnitude (className : String)
  /-- An infinity is no ratio of integers. -/
  | infiniteRatio
  /-- Not-a-number is no ratio of integers. -/
  | nanRatio
  /-- A tolerance is neither a number nor a mapping. -/
  | badTolerance (shown : String)
  /-- A text is no decimal numeral. -/
  | notNumeral (shown : String)
  /-- A value is neither a number nor a text. -/
  | notNumber (className : String)
  /-- An integer is too large for a double. -/
  | tooLarge
  /-- The fields of a tolerance are no mapping. -/
  | noItems (className : String)
  /-- An object raises an error when it is compared. -/
  | raised (f : Failure)
deriving DecidableEq, Repr

namespace Fault

/-- The error that a cause is raised as. -/
def failure : Fault → Failure
  | .longInteger =>
    .told "ValueError" <|
      "Exceeds the limit (4300 digits) for integer string conversion; " ++
        "use sys.set_int_max_str_digits() to increase the limit"
  | .notWritable c => .type s!"Object of type {c} is not JSON serializable"
  | .badKey c => .type s!"keys must be str, int, float, bool or None, not {c}"
  | .noKeys c => .told "AttributeError" s!"'{c}' object has no attribute 'keys'"
  | .noLength c => .type s!"object of type '{c}' has no len()"
  | .toleranceMissing => .told "ValueError" "compare=\"approx\" requires a tolerance"
  | .unknownMode t =>
    .told "ValueError" s!"Unknown compare mode '{t}' (expected one of strict, deep, approx)"
  | .noOrder l r => .type s!"'<=' not supported between instances of '{l}' and '{r}'"
  | .noDifference l r => .type s!"unsupported operand type(s) for -: '{l}' and '{r}'"
  | .noMagnitude c => .type s!"bad operand type for abs(): '{c}'"
  | .infiniteRatio => .told "OverflowError" "cannot convert Infinity to integer ratio"
  | .nanRatio => .told "ValueError" "cannot convert NaN to integer ratio"
  | .badTolerance t => .told "ValueError" s!"tolerance must be a number or mapping, got {t}"
  | .notNumeral t => .told "ValueError" s!"could not convert string to float: {t}"
  | .notNumber c => .type s!"float() argument must be a string or a real number, not '{c}'"
  | .tooLarge => .told "OverflowError" "int too large to convert to float"
  | .noItems c => .told "AttributeError" s!"'{c}' object has no attribute 'items'"
  | .raised f => f

end Fault

/-! ### Computations that may fail -/

theorem bind_eq_ok_iff {ε α β : Type} {r : Except ε α} {f : α → Except ε β} {b : β} :
    (r >>= f) = .ok b ↔ ∃ a, r = .ok a ∧ f a = .ok b := by
  cases r with
  | error e =>
    refine iff_of_false nofun ?_
    rintro ⟨a, ⟨⟩, -⟩
  | ok a =>
    constructor
    · exact fun h => ⟨a, rfl, h⟩
    · rintro ⟨_, ⟨⟩, h⟩
      exact h

theorem map_eq_ok_iff {ε α β : Type} {r : Except ε α} {f : α → β} {b : β} :
    r.map f = .ok b ↔ ∃ a, r = .ok a ∧ f a = b := by
  cases r <;> simp [Except.map]

theorem mapError_eq_ok_iff {ε δ α : Type} {r : Except ε α} {f : ε → δ} {a : α} :
    r.mapError f = .ok a ↔ r = .ok a := by
  cases r with
  | error => exact ⟨nofun, nofun⟩
  | ok => exact ⟨fun h => congrArg _ (Except.ok.inj h), fun h => congrArg _ (Except.ok.inj h)⟩

end Assay
