import Assay.Text.Digit
import Assay.Yaml.Fault
import Assay.Value.Basic

/-!
# Dates in scalars

A date has a year of four digits, a month and a day. A time may follow, after a letter or blanks,
with a fraction and an offset from universal time. Reading has two steps: the parts as they are
written, and the value that they name, which need not exist.
-/

namespace Assay.Yaml

open Assay.Text

/-- A time of day as it is written; the offset is in minutes. -/
structure TimeParts where
  hour : Nat
  minute : Nat
  second : Nat
  fraction : List Char
  offset : Option Int
deriving DecidableEq, Repr

/-- A date as it is written, perhaps with a time. -/
structure MomentParts where
  year : Nat
  month : Nat
  day : Nat
  time : Option TimeParts
deriving DecidableEq, Repr

namespace MomentParts

/-- The value of a digit. -/
def digit? (c : Char) : Option Nat := if isDigit c then some (c.toNat - 48) else none

/-- Two digits, and what follows. -/
def two? : List Char → Option (Nat × List Char)
  | a :: b :: rest => do return (10 * (← digit? a) + (← digit? b), rest)
  | _ => none

/-- One or two digits, and what follows. -/
def upToTwo? : List Char → Option (Nat × List Char)
  | a :: rest => do
    let m ← digit? a
    match two? (a :: rest) with
    | some r => return r
    | none => return (m, rest)
  | [] => none

/-- What follows a character that must stand first. -/
def after? (c : Char) : List Char → Option (List Char)
  | a :: rest => if a = c then some rest else none
  | [] => none

/-- What follows the separator of date and time: a letter, or blanks. -/
def afterSeparator? : List Char → Option (List Char)
  | a :: rest =>
    if a = 'T' ∨ a = 't' then some rest
    else if a = ' ' ∨ a = '\t' then some (rest.dropWhile fun c => c = ' ' || c = '\t')
    else none
  | [] => none

/-- The offset that takes up all that is left: a letter for none, or a sign with hours and perhaps
minutes. -/
def offset? (cs : List Char) : Option (Option Int) :=
  match cs, cs.dropWhile fun c => c = ' ' || c = '\t' with
  | [], _ => some none
  | _, ['Z'] => some (some 0)
  | _, sign :: rest =>
    if sign = '-' ∨ sign = '+' then do
      let (h, rest) ← upToTwo? rest
      let m ← match rest with
        | [] => some 0
        | rest => do
          let (m, rest) ← two? (← after? ':' rest)
          if rest.isEmpty then some m else none
      let minutes : Int := 60 * h + m
      return some (if sign = '-' then -minutes else minutes)
    else none
  | _, [] => none

/-- The time that takes up all that is left. -/
def time? (cs : List Char) : Option TimeParts := do
  let (h, rest) ← upToTwo? (← afterSeparator? cs)
  let (m, rest) ← two? (← after? ':' rest)
  let (s, rest) ← two? (← after? ':' rest)
  let (fraction, rest) := match rest with
    | '.' :: r => (r.takeWhile isDigit, r.dropWhile isDigit)
    | r => ([], r)
  return ⟨h, m, s, fraction, ← offset? rest⟩

/-- The parts of a text that is a date with or without a time. -/
def ofChars? (cs : List Char) : Option MomentParts := do
  let (c, rest) ← two? cs
  let (y, rest) ← two? rest
  let (m, rest) ← upToTwo? (← after? '-' rest)
  let (d, rest) ← upToTwo? (← after? '-' rest)
  let time ← match rest with
    | [] => some none
    | rest => (time? rest).map some
  return ⟨100 * c + y, m, d, time⟩

/-- The microseconds of a fraction: six digits, the missing ones zero. -/
def micro (fraction : List Char) : Nat :=
  let ds := fraction.take 6
  (ds ++ List.replicate (6 - ds.length) '0').foldl (fun n c => 10 * n + (c.toNat - 48)) 0

/-- The value of a date with its time: the offset is looked at first, then the parts in order. -/
def toValue (p : MomentParts) : Except Fault Value :=
  match p.time with
  | none => ((Date.ofParts p.year p.month p.day).mapError .date).map .date
  | some t =>
    let offset := t.offset.map fun minutes => 60 * minutes
    match offset.filter fun n => n ≤ -86400 || 86400 ≤ n with
    | some n => .error (.offset n)
    | none => do
      let d ← (Date.ofParts p.year p.month p.day).mapError .date
      if t.hour > 23 then .error .hour
      else if t.minute > 59 then .error .minute
      else if t.second > 59 then .error .second
      else return .moment ⟨d, t.hour, t.minute, t.second, micro t.fraction, offset⟩

end MomentParts

end Assay.Yaml
