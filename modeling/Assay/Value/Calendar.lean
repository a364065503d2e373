import Assay.Number.Rounding

/-!
# Dates and moments

A calendar date, and a moment with an optional offset from universal time. Both have a plain text
and a constructor text. Moments with an offset are told apart by their instant in universal time, where
the day number of a date counts days from a fixed origin.
-/

namespace Assay

/-- A calendar date. -/
structure Date where
  year : Nat
  month : Nat
  day : Nat
deriving DecidableEq, Repr

/-- A date with a time of day; the offset from universal time is in seconds. -/
structure Moment where
  date : Date
  hour : Nat
  minute : Nat
  second : Nat
  micro : Nat
  offset : Option Int
deriving DecidableEq, Repr

/-- A number in decimal, padded with zeros to a width. -/
def padded (width n : Nat) : String :=
  let ds := Nat.toDigits 10 n
  String.ofList (List.replicate (width - ds.length) '0' ++ ds)

namespace Date

/-- The leap years of the Gregorian calendar. -/
def isLeap (year : Nat) : Bool := year % 4 = 0 && (year % 100 ≠ 0 || year % 400 = 0)

/-- The number of days of a month. -/
def daysIn (year month : Nat) : Nat :=
  if month = 2 then (if isLeap year then 29 else 28)
  else if month = 4 ∨ month = 6 ∨ month = 9 ∨ month = 11 then 30
  else 31

/-- The parts of a date that are out of range, in the order in which they are looked at. -/
inductive Fault where
  | year (n : Nat)
  | month
  | day
deriving DecidableEq, Repr

/-- The wording of a fault. -/
def Fault.message : Fault → String
  | .year n => s!"year {n} is out of range"
  | .month => "month must be in 1..12"
  | .day => "day is out of range for month"

/-- A date with all parts in range. -/
def ofParts (year month day : Nat) : Except Fault Date :=
  if year < 1 ∨ 9999 < year then .error (.year year)
  else if month < 1 ∨ 12 < month then .error .month
  else if day < 1 ∨ daysIn year month < day then .error .day
  else .ok ⟨year, month, day⟩

/-- The days before a year, counted from year 1. -/
def daysBeforeYear (year : Nat) : Nat :=
  let y := year - 1
  y * 365 + y / 4 - y / 100 + y / 400

/-- The number of a day, counted from the first day of year 1. -/
def dayNumber (d : Date) : Nat :=
  (List.range (d.month - 1)).foldl (fun n m => n + daysIn d.year (m + 1)) (daysBeforeYear d.year) +
    d.day

/-- Year, month and day with hyphens. -/
def text (d : Date) : String := padded 4 d.year ++ "-" ++ padded 2 d.month ++ "-" ++ padded 2 d.day

/-- The constructor text of a date. -/
def shown (d : Date) : String :=
  s!"datetime.date({d.year}, {d.month}, {d.day})"

end Date

namespace Moment

/-- An offset as sign, hours and minutes, with seconds only if there are any. -/
def offsetText (seconds : Int) : String :=
  let n := seconds.natAbs
  let rest := if n % 60 = 0 then "" else ":" ++ padded 2 (n % 60)
  (if seconds < 0 then "-" else "+") ++ padded 2 (n / 3600) ++ ":" ++ padded 2 (n / 60 % 60) ++ rest

/-- Date and time with a separator, microseconds only if there are any, and the offset. -/
def textWith (separator : String) (m : Moment) : String :=
  m.date.text ++ separator ++ padded 2 m.hour ++ ":" ++ padded 2 m.minute ++ ":" ++
    padded 2 m.second ++ (if m.micro = 0 then "" else "." ++ padded 6 m.micro) ++
    match m.offset with
    | some o => offsetText o
    | none => ""

/-- The plain text of a moment. -/
def text (m : Moment) : String := m.textWith " "

/-- The constructor text of a span of seconds: whole days, which carry the sign, and the rest. -/
def spanShown (seconds : Int) : String :=
  let days := Int.fdiv seconds 86400
  let rest := Int.fmod seconds 86400
  let parts :=
    (if days = 0 then [] else [s!"days={days}"]) ++ if rest = 0 then [] else [s!"seconds={rest}"]
  "datetime.timedelta(" ++ (if parts = [] then "0" else ", ".intercalate parts) ++ ")"

/-- The constructor text of an offset. -/
def offsetShown (seconds : Int) : String :=
  if seconds = 0 then "datetime.timezone.utc" else s!"datetime.timezone({spanShown seconds})"

/-- The constructor text of a moment; seconds and microseconds are left out at the end if zero. -/
def shown (m : Moment) : String :=
  let tail :=
    if m.micro ≠ 0 then s!", {m.second}, {m.micro}"
    else if m.second ≠ 0 then s!", {m.second}"
    else ""
  let zone := match m.offset with
    | some o => ", tzinfo=" ++ offsetShown o
    | none => ""
  s!"datetime.datetime({m.date.year}, {m.date.month}, {m.date.day}, {m.hour}, {m.minute}" ++
    tail ++ zone ++ ")"

/-- Microseconds from the origin of days, at universal time if there is an offset. -/
def instant (m : Moment) : Int :=
  ((m.date.dayNumber * 86400 + m.hour * 3600 + m.minute * 60 + m.second : Nat) -
    m.offset.getD 0) * 1000000 + m.micro

end Moment

end Assay
