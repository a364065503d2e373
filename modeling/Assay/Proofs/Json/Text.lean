import Assay.Json.Reader
import Assay.Json.Writer

/-!
# Strings read back

A letter inside a written string is itself, an escape of one letter, an escape of its code, or a pair of
escapes of its two surrogates.  The reader turns each of these into the letter, whatever follows, unless
a surrogate that stands alone is escaped.

* `exists_hex` — four hexadecimal digits read back;
* `readString_writeLetter` — one letter;
* `readString_write` — a whole string up to its closing mark.
-/

namespace Assay.Json

open Assay.Text

/-! ### Hexadecimal digits -/

theorem hexDigit?_digitChar {n : Nat} (h : n < 16) : hexDigit? n.digitChar = some n := by
  have table : ∀ k < 16, hexDigit? (Nat.digitChar k) = some k := by decide
  exact table n h

/-- The four digits of a code unit. -/
theorem hex_four {n : Nat} (h : n < 0x10000) :
    hex 4 n = [Nat.digitChar (n / 4096), Nat.digitChar (n / 256 % 16), Nat.digitChar (n / 16 % 16),
      Nat.digitChar (n % 16)] := by
  have zero : Nat.digitChar 0 = '0' := rfl
  rw [hex, Nat.toDigits_eq_if (by decide)]
  split
  · rename_i h1
    rw [show n / 4096 = 0 by omega, show n / 256 % 16 = 0 by omega, show n / 16 % 16 = 0 by omega,
      Nat.mod_eq_of_lt h1]
    rfl
  · rw [Nat.toDigits_eq_if (by decide)]
    split
    · rename_i h2
      rw [show n / 4096 = 0 by omega, show n / 256 % 16 = 0 by omega, Nat.mod_eq_of_lt h2]
      rfl
    · rw [Nat.toDigits_eq_if (by decide)]
      split
      · rename_i h3
        rw [show n / 4096 = 0 by omega, show n / 16 / 16 = n / 256 % 16 by omega]
        rfl
      · rw [Nat.toDigits_of_lt_base (by omega), show n / 16 / 16 / 16 = n / 4096 by omega,
          show n / 16 / 16 % 16 = n / 256 % 16 by omega]
        rfl

section

open Letter

variable {χ : Type} [Letter χ]

/-- A written code unit reads back. -/
theorem exists_hex {n : Nat} (h : n < 0x10000) :
    ∃ a b c d, hex 4 n = [a, b, c, d] ∧
      hex4? (ofChar a : χ) (ofChar b) (ofChar c) (ofChar d) = some n := by
  refine ⟨_, _, _, _, hex_four h, ?_⟩
  simp only [hex4?, face_ofChar]
  rw [hexDigit?_digitChar (by omega), hexDigit?_digitChar (by omega),
    hexDigit?_digitChar (by omega), hexDigit?_digitChar (by omega)]
  show some (((n / 4096 * 16 + n / 256 % 16) * 16 + n / 16 % 16) * 16 + n % 16) = some n
  rw [show ((n / 4096 * 16 + n / 256 % 16) * 16 + n / 16 % 16) * 16 + n % 16 = n by omega]

/-! ### One letter -/

theorem readString_plain (opening : Nat) {x : χ} (hm : face x ≠ '"') (hb : face x ≠ '\\')
    (hc : ¬ (face x).toNat < 32) (tail : List χ) :
    readString opening (x :: tail) = consRead x (readString opening tail) := by
  rw [readString.eq_def]
  simp only [if_neg hm, if_neg hb, if_neg hc]

theorem readString_letter (opening : Nat) {l c : Char} (hu : l ≠ 'u') (he : escape? l = some c)
    (tail : List χ) :
    readString opening (spell ['\\', l] ++ tail) = consRead (ofChar c) (readString opening tail) := by
  show readString opening (ofChar '\\' :: ofChar l :: tail) = _
  rw [readString.eq_def]
  simp only [face_ofChar, if_neg hu, he, if_true, Char.reduceEq, if_false]

/-- An escape of a code unit that is not the first half of a pair stands for its letter, even where
another escape follows. -/
theorem readString_unit (opening : Nat) {n : Nat} (hn : n < 0x10000) (hh : isHigh n = false)
    {tail : List χ} (ht : tail ≠ []) :
    readString opening (spell (unitEscape n) ++ tail) = consRead (ofUnit n) (readString opening tail) := by
  obtain ⟨a, b, c, d, hx, hv⟩ := exists_hex (χ := χ) hn
  rw [unitEscape, hx]
  show readString opening (ofChar '\\' :: ofChar 'u' :: ofChar a :: ofChar b :: ofChar c :: ofChar d :: tail) = _
  rw [readString.eq_def]
  simp only [face_ofChar, hv, Char.reduceEq, if_true, if_false]
  split
  · contradiction
  · exact absurd rfl ht
  · rename_i same
    rw [if_neg fun h => Bool.eq_false_iff.1 hh (Option.some.inj same ▸ h.2.2), Option.some.inj same]
  · rename_i same
    rw [Option.some.inj same]

/-- Escapes of the two halves of a pair stand for one letter. -/
theorem readString_pair (opening : Nat) {high low : Nat} (hh : isHigh high = true) (hl : isLow low = true)
    {tail : List χ} (ht : tail ≠ []) :
    readString opening (spell (unitEscape high) ++ (spell (unitEscape low) ++ tail)) =
      consRead (ofChar (pairChar high low)) (readString opening tail) := by
  have hb : high < 0x10000 := by
    simp only [isHigh, Bool.and_eq_true, decide_eq_true_eq] at hh
    omega
  have lb : low < 0x10000 := by
    simp only [isLow, Bool.and_eq_true, decide_eq_true_eq] at hl
    omega
  obtain ⟨a, b, c, d, hx, hv⟩ := exists_hex (χ := χ) hb
  obtain ⟨a', b', c', d', hx', hv'⟩ := exists_hex (χ := χ) lb
  obtain ⟨z, after, rfl⟩ := List.exists_cons_of_ne_nil ht
  rw [unitEscape, unitEscape, hx, hx']
  show readString opening (ofChar '\\' :: ofChar 'u' :: ofChar a :: ofChar b :: ofChar c :: ofChar d ::
    (ofChar '\\' :: ofChar 'u' :: ofChar a' :: ofChar b' :: ofChar c' :: ofChar d' :: z :: after)) = _
  rw [readString.eq_def]
  simp only [face_ofChar, hv, hv', hh, hl, Char.reduceEq, if_true, if_false, and_self]

theorem isHigh_toNat (c : Char) : isHigh c.toNat = false := by
  have := toNat_valid c
  rw [isHigh, Bool.and_eq_false_iff, decide_eq_false_iff_not, decide_eq_false_iff_not]
  omega

/-- A character past the first plane is the pair of its two surrogates. -/
theorem pairChar_toNat {c : Char} (h : 0x10000 ≤ c.toNat) :
    isHigh (0xD800 + (c.toNat - 0x10000) / 0x400) = true ∧
      isLow (0xDC00 + (c.toNat - 0x10000) % 0x400) = true ∧
        pairChar (0xD800 + (c.toNat - 0x10000) / 0x400) (0xDC00 + (c.toNat - 0x10000) % 0x400) = c := by
  have := toNat_valid c
  refine ⟨?_, ?_, ?_⟩
  · rw [isHigh, Bool.and_eq_true, decide_eq_true_eq, decide_eq_true_eq]
    omega
  · rw [isLow, Bool.and_eq_true, decide_eq_true_eq, decide_eq_true_eq]
    omega
  · rw [pairChar, show 0x10000 + (0xD800 + (c.toNat - 0x10000) / 0x400 - 0xD800) * 0x400 +
      (0xDC00 + (c.toNat - 0x10000) % 0x400 - 0xDC00) = c.toNat by omega, Char.ofNat_toNat]

/-- The escapes of a character stand for it. -/
theorem readString_escapes (opening : Nat) (c : Char) {tail : List χ} (ht : tail ≠ []) :
    readString opening (spell (escapes c.toNat) ++ tail) = consRead (ofChar c) (readString opening tail) := by
  rw [escapes]
  split
  · rename_i h
    rw [readString_unit opening h (isHigh_toNat c) ht, ofUnit_toNat]
  · rename_i h
    obtain ⟨hh, hl, hp⟩ := pairChar_toNat (Nat.not_lt.1 h)
    rw [spell_append, List.append_assoc, readString_pair opening hh hl ht, hp]

/-- **A written letter reads back, whatever follows it**, unless it is no character and escaped. -/
theorem readString_writeLetter (opening : Nat) (escapeAll : Bool) (x : χ)
    (hx : escapeAll = true → ∃ c : Char, x = ofChar c) {tail : List χ} (ht : tail ≠ []) :
    readString opening (writeLetter escapeAll x ++ tail) = consRead x (readString opening tail) := by
  have letter {l c : Char} (hu : l ≠ 'u') (he : escape? l = some c) (hc : c ≠ replacement) (h : face x = c) :
      readString opening (spell ['\\', l] ++ tail) = consRead x (readString opening tail) := by
    rw [readString_letter opening hu he, ← eq_ofChar h hc]
  rw [writeLetter]
  -- The marks and the blanks have a letter each.
  iterate 5
    split
    · rename_i h
      exact letter (by decide) rfl (by decide) h
  split
  · rename_i h
    exact letter (l := 'b') (c := Char.ofNat 8) (by decide) rfl (by decide) (by rw [← h, Char.ofNat_toNat])
  split
  · rename_i h
    exact letter (l := 'f') (c := Char.ofNat 12) (by decide) rfl (by decide) (by rw [← h, Char.ofNat_toNat])
  split
  · rename_i h
    have plain : face x ≠ replacement := by
      intro same
      rw [same] at h
      exact absurd h (by decide)
    rw [readString_unit opening (by omega) (isHigh_toNat _) ht, ofUnit_toNat, ofChar_face x plain]
  split
  · rename_i h
    obtain ⟨c, rfl⟩ := hx (Bool.and_eq_true _ _ ▸ h).1
    rw [code_ofChar, readString_escapes opening c ht]
  · rename_i hm hb _ _ _ _ _ hc _
    exact readString_plain opening hm hb hc tail

/-- **A written string reads back.** -/
theorem readString_write (opening : Nat) (escapeAll : Bool)
    (hxs : escapeAll = true → ∀ x : χ, ∃ c : Char, x = ofChar c) (xs rest : List χ) :
    readString opening (xs.flatMap (writeLetter escapeAll) ++ ofChar '"' :: rest) = .ok (xs, rest) := by
  induction xs with
  | nil => exact readString_mark opening rest
  | cons x xs ih =>
    rw [List.flatMap_cons, List.append_assoc, readString_writeLetter opening escapeAll x (hxs · x), ih]
    · rfl
    · simp

end

end Assay.Json
