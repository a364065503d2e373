import Assay.Value.Family
import Assay.Value.Fault
import Assay.Value.Key

/-!
# Deep equality

Two values are deeply equal when they have the same shape up to the order of mapping entries and
equal leaves of one family. The two kinds of sequences are one family, and so are the two kinds of
mappings.
-/

namespace Assay.Value

variable {τ : Type}

/-- Whether a value is a float that is not a number. -/
def isNan (v : Value τ) : Bool :=
  match v with
  | .float (.nan _) => true
  | .scalar _ (.float (.nan _)) => true
  | _ => false

/-- What an object is held against: another object, known by its identity, or a value of a class of
keys, if it has one. -/
def peer? : Value τ → Option (KeyClass τ)
  | .foreign o => some (.object o.identity)
  | v => keyClass? v

variable [DecidableEq τ]

/-- Equality of leaves of one family: an object answers for itself, and not-a-number equals nothing. -/
def leafEquals : Value τ → Value τ → Except Fault Bool
  | .foreign o, b => (o.equals b.peer?).mapError .raised
  | a, .foreign o => (o.equals a.peer?).mapError .raised
  | a, b => .ok (sameKey a b && !a.isNan)

/-- Compares a foreign object with a value of its family. A class that is named like the mappings or
the sequences is taken for one, and then has neither keys nor a length. -/
def foreignEquals (o : Foreign τ) (b : Value τ) : Except Fault Bool :=
  if o.className ≠ b.family then .ok false
  else if o.className = "object" then .error (.noKeys o.className)
  else if o.className = "array" then .error (.noLength o.className)
  else leafEquals (.foreign o) b

/-- Compares a mapping or a sequence with a value that is none. -/
def outsideEquals (family : String) : Value τ → Except Fault Bool
  | .foreign o =>
    if o.className ≠ family then .ok false
    else if family = "object" then .error (.noKeys o.className)
    else .error (.noLength o.className)
  | _ => .ok false

mutual

/-- Deep equality. -/
def deepEqual : Value τ → Value τ → Except Fault Bool
  | .map _ as, .map _ bs => if sameKeySet as bs then deepEntries bs as else .ok false
  | .map _ _, b => outsideEquals "object" b
  | .list xs, .list ys => if xs.length = ys.length then deepAll xs ys else .ok false
  | .list xs, .tuple ys => if xs.length = ys.length then deepAll xs ys else .ok false
  | .tuple xs, .list ys => if xs.length = ys.length then deepAll xs ys else .ok false
  | .tuple xs, .tuple ys => if xs.length = ys.length then deepAll xs ys else .ok false
  | .list _, b => outsideEquals "array" b
  | .tuple _, b => outsideEquals "array" b
  | .foreign o, b => foreignEquals o b
  | a, b => if a.family = b.family then leafEquals a b else .ok false

/-- Deep equality of the values of entries with the values that other entries have under the same
keys; it stops at the first difference. -/
def deepEntries (bs : List (Value τ × Value τ)) : List (Value τ × Value τ) → Except Fault Bool
  | [] => .ok true
  | (k, v) :: es => do
    match lookup k bs with
    | none => return false
    | some w => if ← deepEqual v w then deepEntries bs es else return false

/-- Deep equality of two sequences item by item; it stops at the first difference. -/
def deepAll : List (Value τ) → List (Value τ) → Except Fault Bool
  | x :: xs, y :: ys => do if ← deepEqual x y then deepAll xs ys else return false
  | _, _ => .ok true

end

theorem deepAll_nil (ys : List (Value τ)) : deepAll [] ys = .ok true := by
  cases ys <;> rfl

end Assay.Value
