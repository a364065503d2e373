import Assay.Failure
import Assay.Text.Quoted
import Assay.Value.Calendar

/-!
# Faults of YAML texts

A text can be broken, which is all that is said of it then. A text that is well formed can still name
a value that does not exist: a number without digits, a day that the month does not have.
-/

namespace Assay.Yaml

/-- Why a text gives no value. -/
inductive Fault where
  /-- The text is not well formed, or a tag does not fit what it marks. -/
  | broken
  /-- An escape names a code point that does not exist. -/
  | noCharacter
  /-- An escape names a number that is too large for a code point. -/
  | hugeCharacter
  /-- A text is no integer of a base. -/
  | notInteger (base : Nat) (text : String)
  /-- An integer has more decimal digits than are read. -/
  | longInteger (digits : Nat)
  /-- A text is no decimal number. -/
  | notDecimal (text : String)
  /-- A number has no characters. -/
  | emptyNumber
  /-- A text is no truth value. -/
  | notTruth (text : String)
  /-- A text is no date. -/
  | notDate
  /-- A part of a date is out of range. -/
  | date (f : Date.Fault)
  /-- The hour is out of range. -/
  | hour
  /-- The minute is out of range. -/
  | minute
  /-- The second is out of range. -/
  | second
  /-- An offset from universal time of a day or more. -/
  | offset (seconds : Int)
deriving DecidableEq, Repr

/-- The error that a fault of a well-formed text is raised as. -/
def Fault.failure : Fault → Failure
  | .broken => .told "YAMLError" "not a YAML document"
  | .noCharacter => .told "ValueError" "chr() arg not in range(0x110000)"
  | .hugeCharacter => .told "OverflowError" "Python int too large to convert to C int"
  | .notInteger base t =>
    .told "ValueError" <|
      s!"invalid literal for int() with base {base}: " ++
        String.ofList ((Text.quoteChars t.toList).take 200)
  | .longInteger n =>
    .told "ValueError" <|
      s!"Exceeds the limit (4300 digits) for integer string conversion: value has {n} digits; " ++
        "use sys.set_int_max_str_digits() to increase the limit"
  | .notDecimal t => .told "ValueError" ("could not convert string to float: " ++ Text.quote t)
  | .emptyNumber => .told "IndexError" "string index out of range"
  | .notTruth t => .told "KeyError" (Text.quote t)
  | .notDate => .told "AttributeError" "'NoneType' object has no attribute 'groupdict'"
  | .date f => .told "ValueError" f.message
  | .hour => .told "ValueError" "hour must be in 0..23"
  | .minute => .told "ValueError" "minute must be in 0..59"
  | .second => .told "ValueError" "second must be in 0..59"
  | .offset n =>
    .told "ValueError" <|
      "offset must be a timedelta strictly between -timedelta(hours=24) and timedelta(hours=24), " ++
        s!"not {Moment.spanShown n}."

end Assay.Yaml
