import Assay.Text.CodeUnit

/-!
# Letters of texts

Texts are made of letters. The texts of a program that reads and prints are made of characters; inside of
it a surrogate may also stand alone, so that a letter is any code point. What only matters for what a
letter looks like is said by its face, which is the replacement character for a letter that is no
character.
-/

namespace Assay

/-- The letters of a kind of texts: all characters, and perhaps more. -/
class Letter (χ : Type) where
  /-- The letter that a character is. -/
  ofChar : Char → χ
  /-- The character that a letter looks like. -/
  face : χ → Char
  /-- The number of a letter. -/
  code : χ → Nat
  /-- The letter of a code unit that stands alone in an escape. -/
  ofUnit : Nat → χ
  face_ofChar (c : Char) : face (ofChar c) = c
  ofChar_face (x : χ) (h : face x ≠ Text.replacement) : ofChar (face x) = x
  code_ofChar (c : Char) : code (ofChar c) = c.toNat
  ofUnit_toNat (c : Char) : ofUnit c.toNat = ofChar c

/-- Texts as they are spelled, letter by letter. -/
class Texts (τ : Type) (χ : outParam Type) where
  letters : τ → List χ
  ofLetters : List χ → τ
  ofString : String → τ
  ofLetters_letters (s : τ) : ofLetters (letters s) = s

/-- A code point: a character, or a surrogate that stands alone. -/
inductive CodePoint where
  | char (c : Char)
  | surrogate (n : Nat) (h : 0xD800 ≤ n ∧ n < 0xE000)
deriving DecidableEq

namespace Letter

variable {χ : Type} [Letter χ]

/-- Letters that are characters. -/
def spell (cs : List Char) : List χ := cs.map ofChar

/-- What letters look like. -/
def faces (xs : List χ) : List Char := xs.map face

/-- A character is no surrogate. -/
theorem toNat_valid (c : Char) : c.toNat < 0xD800 ∨ 0xDFFF < c.toNat ∧ c.toNat < 0x110000 := c.valid

instance : Letter Char where
  ofChar := id
  face := id
  code := Char.toNat
  ofUnit := Text.unitChar
  face_ofChar _ := rfl
  ofChar_face _ _ := rfl
  code_ofChar _ := rfl
  ofUnit_toNat c := by
    have := toNat_valid c
    rw [Text.unitChar, if_neg (by omega), Char.ofNat_toNat]
    rfl

instance : Letter CodePoint where
  ofChar := .char
  face
    | .char c => c
    | .surrogate _ _ => Text.replacement
  code
    | .char c => c.toNat
    | .surrogate n _ => n
  ofUnit n := if h : 0xD800 ≤ n ∧ n < 0xE000 then .surrogate n h else .char (Char.ofNat n)
  face_ofChar _ := rfl
  ofChar_face x h := by
    cases x with
    | char c => rfl
    | surrogate n hn => exact absurd rfl h
  code_ofChar _ := rfl
  ofUnit_toNat c := by
    have := toNat_valid c
    rw [dif_neg (by omega), Char.ofNat_toNat]

instance : Texts String Char where
  letters := String.toList
  ofLetters := String.ofList
  ofString := id
  ofLetters_letters _ := String.ofList_toList

instance : Texts (List χ) χ where
  letters := id
  ofLetters := id
  ofString s := spell s.toList
  ofLetters_letters _ := rfl

attribute [simp] face_ofChar

@[simp] theorem face_char (c : Char) : face c = c := rfl

@[simp] theorem faces_spell (cs : List Char) : faces (spell cs : List χ) = cs := by
  simp [faces, spell, Function.comp_def]

@[simp] theorem spell_char (cs : List Char) : (spell cs : List Char) = cs := List.map_id cs

@[simp] theorem length_faces (xs : List χ) : (faces xs).length = xs.length := List.length_map _

@[simp] theorem spell_append (cs ds : List Char) : (spell (cs ++ ds) : List χ) = spell cs ++ spell ds :=
  List.map_append

@[simp] theorem faces_append (xs ys : List χ) : faces (xs ++ ys) = faces xs ++ faces ys := List.map_append

/-- A letter that looks like a character other than the replacement character is that character. -/
theorem eq_ofChar {x : χ} {c : Char} (hx : face x = c) (hc : c ≠ Text.replacement) : x = ofChar c := by
  rw [← hx] at hc ⊢
  exact (ofChar_face x hc).symm

end Letter

end Assay
