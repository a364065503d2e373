/-!
# Decoding UTF-8

Bytes are decoded one at a time by a machine that is either between two characters or inside one.
Only shortest encodings of code points outside the surrogates are accepted. A fault says which bytes
are wrong and why.
-/

namespace Assay.Text.Utf8

/-- Why bytes are no UTF-8. -/
inductive Reason where
  | start
  | continuation
  | truncated
deriving DecidableEq, Repr

/-- The wording of a reason. -/
def Reason.message : Reason → String
  | .start => "invalid start byte"
  | .continuation => "invalid continuation byte"
  | .truncated => "unexpected end of data"

/-- Bytes that cannot be decoded: the first of them, its position and their number. -/
structure Fault where
  first : UInt8
  position : Nat
  count : Nat
  reason : Reason
deriving DecidableEq, Repr

/-- The wording of a fault: a single byte is shown, several are counted. -/
def Fault.message (f : Fault) : String :=
  let digit (n : Nat) : Char := Nat.digitChar n
  let shown := String.ofList [digit (f.first.toNat / 16), digit (f.first.toNat % 16)]
  let place :=
    if f.count = 1 then s!"byte 0x{shown} in position {f.position}"
    else s!"bytes in position {f.position}-{f.position + f.count - 1}"
  s!"'utf-8' codec can't decode {place}: {f.reason.message}"

/-- A character that has begun: its first byte and position, the number of bytes that it still
needs, the bounds of the next one, and the bits so far. -/
structure Begun where
  first : UInt8
  position : Nat
  needed : Nat
  low : Nat
  high : Nat
  bits : Nat
deriving DecidableEq, Repr

/-- What a byte above ASCII begins: the bounds of the second byte leave out encodings that are not
shortest, surrogates, and numbers above the last code point. -/
def begin? (first : UInt8) (position : Nat) : Option Begun :=
  let b := first.toNat
  if 0xC2 ≤ b ∧ b < 0xE0 then some ⟨first, position, 1, 0x80, 0xBF, b - 0xC0⟩
  else if 0xE0 ≤ b ∧ b < 0xF0 then
    some ⟨first, position, 2, if b = 0xE0 then 0xA0 else 0x80, if b = 0xED then 0x9F else 0xBF,
      b - 0xE0⟩
  else if 0xF0 ≤ b ∧ b < 0xF5 then
    some ⟨first, position, 3, if b = 0xF0 then 0x90 else 0x80, if b = 0xF4 then 0x8F else 0xBF,
      b - 0xF0⟩
  else none

/-- The characters of bytes from a position on. -/
def decodeFrom : Nat → Option Begun → List UInt8 → Except Fault (List Char)
  | _, none, [] => .ok []
  | position, some p, [] =>
    .error ⟨p.first, p.position, position - p.position, .truncated⟩
  | position, none, b :: bs =>
    if b.toNat < 0x80 then (decodeFrom (position + 1) none bs).map (Char.ofNat b.toNat :: ·)
    else
      match begin? b position with
      | none => .error ⟨b, position, 1, .start⟩
      | some p => decodeFrom (position + 1) (some p) bs
  | position, some p, b :: bs =>
    if p.low ≤ b.toNat ∧ b.toNat ≤ p.high then
      let bits := p.bits * 64 + (b.toNat - 0x80)
      if p.needed ≤ 1 then (decodeFrom (position + 1) none bs).map (Char.ofNat bits :: ·)
      else
        decodeFrom (position + 1)
          (some { p with needed := p.needed - 1, low := 0x80, high := 0xBF, bits := bits }) bs
    else .error ⟨p.first, p.position, position - p.position, .continuation⟩

/-- The characters of bytes. -/
def decode (bs : List UInt8) : Except Fault (List Char) := decodeFrom 0 none bs

end Assay.Text.Utf8
