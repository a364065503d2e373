import Assay.Sample.Color
import Mathlib.Data.List.Basic
import Mathlib.Data.Nat.Digits.Lemmas
import Mathlib.Tactic.IntervalCases

/-!
# Hexadecimal colours

A colour in hexadecimal is a number sign and six digits, two for each channel.  The check of such texts
also accepts one line break after them.  A channel is written with at least two characters, so that three
channels make a colour exactly if each of them is in range, and then they are read back; a colour that is
read and written again is the same text in upper case.

* `IsHexColor` — the form of a colour, `isValid_iff` — what the check accepts;
* `IsDigitOf` — what holds of a digit, `pairValue_eq` — what two of them spell;
* `hexText_eq`, `inRange_of_hexText` — how a channel is written;
* `decode_encode`, `encode_decode` — reading after writing, and writing after reading;
* `isValidHex_iff`, `hex_round_trip` — the same of the operations.
-/

namespace Assay.Sample.Color

open Assay.Text

/-! ### The form of a colour -/

/-- A hexadecimal digit in either case. -/
def IsHexDigit (c : Char) : Prop := '0' ≤ c ∧ c ≤ '9' ∨ 'a' ≤ c ∧ c ≤ 'f' ∨ 'A' ≤ c ∧ c ≤ 'F'

instance (c : Char) : Decidable (IsHexDigit c) := inferInstanceAs (Decidable (_ ∨ _))

/-- A number sign and six hexadecimal digits, and nothing else. -/
def IsHexColor (cs : List Char) : Prop :=
  ∃ ds, cs = '#' :: ds ∧ ds.length = 6 ∧ ∀ c ∈ ds, IsHexDigit c

theorem isSome_hexDigit? (c : Char) : (hexDigit? c).isSome = true ↔ IsHexDigit c := by
  unfold hexDigit? IsHexDigit
  split
  · simp [*]
  · split
    · simp [*]
    · split <;> simp [*]

/-- **The check accepts colours, and colours with a line break after them.** -/
theorem isValid_iff (cs : List Char) :
    isValid cs = true ↔ IsHexColor cs ∨ ∃ t, cs = t ++ ['\n'] ∧ IsHexColor t := by
  constructor
  · intro h
    unfold isValid at h
    split at h
    · rename_i rest
      simp only [Bool.and_eq_true, Bool.or_eq_true, decide_eq_true_eq, List.all_eq_true,
        isSome_hexDigit?] at h
      obtain ⟨⟨length, digits⟩, ended⟩ := h
      have split : rest.take 6 ++ rest.drop 6 = rest := List.take_append_drop 6 rest
      have color : IsHexColor ('#' :: rest.take 6) := ⟨_, rfl, length, digits⟩
      cases ended with
      | inl ended =>
        rw [ended, List.append_nil] at split
        exact Or.inl (split ▸ color)
      | inr ended =>
        rw [ended] at split
        refine Or.inr ⟨_, ?_, color⟩
        rw [List.cons_append, split]
    · cases h
  · have accepts {ds rest : List Char} (length : ds.length = 6) (digits : ∀ c ∈ ds, IsHexDigit c)
        (ended : rest = [] ∨ rest = ['\n']) : isValid ('#' :: (ds ++ rest)) = true := by
      simp only [isValid, ← length, List.take_left', List.drop_left', Bool.and_eq_true,
        Bool.or_eq_true, decide_eq_true_eq, List.all_eq_true, isSome_hexDigit?]
      exact ⟨⟨trivial, digits⟩, ended⟩
    rintro (⟨ds, rfl, length, digits⟩ | ⟨_, rfl, ds, rfl, length, digits⟩)
    · have whole := accepts length digits (Or.inl rfl)
      rwa [List.append_nil] at whole
    · exact accepts length digits (Or.inr rfl)

/-! ### Digits -/

/-- The hexadecimal digits. -/
def hexDigits : List Char := "0123456789abcdefABCDEF".toList

theorem mem_hexDigits {c : Char} (h : IsHexDigit c) : c ∈ hexDigits := by
  have bounds : 48 ≤ c.toNat ∧ c.toNat ≤ 57 ∨ 97 ≤ c.toNat ∧ c.toNat ≤ 102 ∨
      65 ≤ c.toNat ∧ c.toNat ≤ 70 := h
  rw [← Char.ofNat_toNat c]
  generalize c.toNat = n at bounds
  rcases bounds with ⟨low, high⟩ | ⟨low, high⟩ | ⟨low, high⟩ <;> interval_cases n <;> decide

/-- What holds of a character that is a digit of a value: its value is found, and it is no mark, no blank
and no sign. -/
structure IsDigitOf (d : Nat) (c : Char) : Prop where
  small : d < 16
  value : Numeral.baseDigit? c = some d
  upper : c.toUpper = upperDigit d
  ascii : c.toNat < 128
  solid : isPlainBlank c = false
  unmarked : c.toLower ≠ 'x'
  plain : c ∉ ['-', '+', '_', '#']

theorem exists_isDigitOf {c : Char} (h : IsHexDigit c) : ∃ d, IsDigitOf d c := by
  let d (c : Char) := (hexDigit? c).getD 0
  have laws : hexDigits.all (fun c => d c < 16 ∧ Numeral.baseDigit? c = some (d c) ∧
      c.toUpper = upperDigit (d c) ∧ c.toNat < 128 ∧ isPlainBlank c = false ∧ c.toLower ≠ 'x' ∧
      c ∉ ['-', '+', '_', '#']) = true := by decide
  have law := of_decide_eq_true (List.all_eq_true.1 laws c (mem_hexDigits h))
  obtain ⟨small, value, upper, ascii, solid, unmarked, plain⟩ := law
  exact ⟨d c, small, value, upper, ascii, solid, unmarked, plain⟩

theorem isHexDigit_upperDigit : ∀ {d : Nat}, d < 16 → IsHexDigit (upperDigit d) := by
  decide

theorem isDigitOf_upperDigit {d : Nat} (h : d < 16) : IsDigitOf d (upperDigit d) := by
  have laws : ∀ d < 16, let c := upperDigit d
      Numeral.baseDigit? c = some d ∧ c.toUpper = c ∧ c.toNat < 128 ∧ isPlainBlank c = false ∧
        c.toLower ≠ 'x' ∧ c ∉ ['-', '+', '_', '#'] := by decide
  obtain ⟨value, upper, ascii, solid, unmarked, plain⟩ := laws d h
  exact ⟨h, value, upper, ascii, solid, unmarked, plain⟩

/-! ### Two digits -/

/-- A text that is nothing but digits is a numeral of the value that they spell. -/
theorem int?_of_digits {base : Nat} {cs : List Char} (nonempty : cs ≠ [])
    (trimmed : trimBy isPlainBlank (Numeral.fold cs) = cs) (unsigned : Numeral.sign cs = (false, cs))
    (unmarked : Numeral.dropBaseMark base cs = cs) (unscored : '_' ∉ cs)
    (digits : cs.all (Numeral.isBaseDigit base) = true) :
    Numeral.int? base cs = some (Numeral.baseValue base cs : Int) := by
  have each := List.all_eq_true.1 digits
  unfold Numeral.int?
  rw [trimmed, unsigned]
  dsimp only
  rw [unmarked, Numeral.dropUnderscores_of_not_mem unscored]
  simpa using ⟨nonempty, each⟩

theorem sign_digit {a : Nat} {c : Char} (h : IsDigitOf a c) (rest : List Char) :
    Numeral.sign (c :: rest) = (false, c :: rest) := by
  have plain := h.plain
  unfold Numeral.sign
  split
  · simp_all
  · simp_all
  · rfl

section Pair

variable {a b : Nat} {c d : Char} (hc : IsDigitOf a c) (hd : IsDigitOf b d)

include hc hd

theorem trimmed_pair : trimBy isPlainBlank (Numeral.fold [c, d]) = [c, d] := by
  have folded : Numeral.fold [c, d] = [c, d] := by
    simp only [Numeral.fold, List.map_cons, List.map_nil, if_pos hc.ascii, if_pos hd.ascii]
  rw [folded, trimBy, List.dropWhile_cons_of_neg (by simp [hc.solid])]
  rw [show [c, d].reverse = [d, c] from rfl, List.dropWhile_cons_of_neg (by simp [hd.solid])]
  rfl

theorem dropBaseMark_pair : Numeral.dropBaseMark 16 [c, d] = [c, d] := by
  unfold Numeral.dropBaseMark
  split
  · rename_i e rest same
    cases same
    have unmarked : ¬ (16 = 16 ∧ d.toLower = 'x' ∨ 16 = 8 ∧ d.toLower = 'o' ∨ 16 = 2 ∧ d.toLower = 'b') := by
      simp [hd.unmarked]
    exact if_neg unmarked
  · rfl

theorem unscored_pair : '_' ∉ [c, d] := by
  have first := hc.plain
  have second := hd.plain
  simp only [List.mem_cons, List.not_mem_nil, not_or, or_false] at first second ⊢
  exact ⟨Ne.symm first.2.2.1, Ne.symm second.2.2.1⟩

/-- Two digits spell sixteen times the value of the first and that of the second. -/
theorem pairValue_eq : pairValue [c, d] = .ok ((16 * a + b : Nat) : Int) := by
  have digits : [c, d].all (Numeral.isBaseDigit 16) = true := by
    simp [Numeral.isBaseDigit, hc.value, hc.small, hd.value, hd.small]
  have spelled : Numeral.baseValue 16 [c, d] = 16 * a + b := by
    simp [Numeral.baseValue, hc.value, hd.value]
  have read := int?_of_digits (List.cons_ne_nil c [d]) (trimmed_pair hc hd) (sign_digit hc [d])
    (dropBaseMark_pair hc hd) (unscored_pair hc hd) digits
  rw [pairValue, read, spelled]

end Pair

/-! ### Channels -/

/-- A channel that two digits can hold. -/
def InRange (i : Int) : Prop := 0 ≤ i ∧ i ≤ 255

theorem toUpper_digitChar : ∀ {d : Nat}, d < 16 → (Nat.digitChar d).toUpper = upperDigit d := by
  decide

/-- A number of two digits is written as these. -/
theorem hexText_pair {a b : Nat} (ha : a < 16) (hb : b < 16) :
    hexText ((16 * a + b : Nat) : Int) = [upperDigit a, upperDigit b] := by
  have positive : ¬ ((16 * a + b : Nat) : Int) < 0 := by omega
  rw [hexText, if_neg positive, Int.natAbs_natCast]
  cases Nat.eq_zero_or_pos a with
  | inl zero =>
    subst zero
    rw [Nat.mul_zero, Nat.zero_add, Nat.toDigits_of_lt_base hb, List.map_singleton, toUpper_digitChar hb]
    rfl
  | inr nonzero =>
    rw [← Nat.toDigits_append_toDigits (by decide) nonzero hb, Nat.toDigits_of_lt_base ha,
      Nat.toDigits_of_lt_base hb, List.singleton_append, List.map_cons, List.map_singleton,
      toUpper_digitChar ha, toUpper_digitChar hb]
    rfl

/-- A channel in range is written with the digits of its quotient and its rest by sixteen. -/
theorem hexText_eq {i : Int} (h : InRange i) :
    ∃ a b, a < 16 ∧ b < 16 ∧ i = ((16 * a + b : Nat) : Int) ∧ hexText i = [upperDigit a, upperDigit b] := by
  obtain ⟨low, high⟩ := h
  obtain ⟨n, rfl⟩ := Int.eq_ofNat_of_zero_le low
  have first : n / 16 < 16 := by omega
  have second : n % 16 < 16 := Nat.mod_lt _ (by decide)
  have parts : n = 16 * (n / 16) + n % 16 := (Nat.div_add_mod n 16).symm
  refine ⟨n / 16, n % 16, first, second, congrArg _ parts, ?_⟩
  rw [← hexText_pair first second, ← parts]

theorem two_le_length_hexText (i : Int) : 2 ≤ (hexText i).length := by
  unfold hexText
  split
  · rw [List.length_cons, List.length_append, List.length_replicate]
    omega
  · rw [List.length_append, List.length_replicate]
    omega

/-- What is written with two digits is in range: a sign is no digit, and a third would be needed. -/
theorem inRange_of_hexText {i : Int} (length : (hexText i).length = 2)
    (digits : ∀ c ∈ hexText i, IsHexDigit c) : InRange i := by
  by_cases negative : i < 0
  · rw [hexText, if_pos negative] at digits
    have sign : IsHexDigit '-' := digits '-' List.mem_cons_self
    exact absurd sign (by decide)
  · rw [hexText, if_neg negative, List.length_append, List.length_replicate, List.length_map] at length
    have short : (Nat.toDigits 16 i.natAbs).length ≤ 2 := by omega
    have small := (Nat.length_toDigits_le_iff (by decide) (by decide)).1 short
    exact ⟨by omega, by omega⟩

/-- A digit of a number is the character of a value below the base. -/
theorem exists_digitChar {base : Nat} (hb : 1 < base) (n : Nat) :
    ∀ c ∈ Nat.toDigits base n, ∃ d < base, c = Nat.digitChar d := by
  induction n using Nat.strongRecOn with
  | ind n ih =>
    intro c hc
    by_cases small : n < base
    · rw [Nat.toDigits_of_lt_base small, List.mem_singleton] at hc
      exact ⟨n, small, hc⟩
    · have rest : n % base < base := Nat.mod_lt _ (by omega)
      have quotient : 0 < n / base := Nat.div_pos (by omega) (by omega)
      rw [← Nat.div_add_mod n base, ← Nat.toDigits_append_toDigits hb quotient rest,
        Nat.toDigits_of_lt_base rest, List.mem_append, List.mem_singleton] at hc
      cases hc with
      | inl hc => exact ih _ (Nat.div_lt_self (by omega) hb) c hc
      | inr hc => exact ⟨_, rest, hc⟩

/-- No channel is written with a line break. -/
theorem unbroken_hexText (i : Int) : '\n' ∉ hexText i := by
  have digits : '\n' ∉ (Nat.toDigits 16 i.natAbs).map Char.toUpper := by
    intro h
    obtain ⟨c, hc, broken⟩ := List.mem_map.1 h
    obtain ⟨d, small, rfl⟩ := exists_digitChar (by decide) _ c hc
    rw [toUpper_digitChar small] at broken
    have digit := isHexDigit_upperDigit small
    rw [broken] at digit
    exact absurd digit (by decide)
  unfold hexText
  split <;> simp [digits, List.mem_replicate]

/-! ### Colours -/

/-- **Three channels make a colour exactly if each is in range.** -/
theorem isValid_encode (r g b : Int) :
    isValid (encode r g b) = true ↔ InRange r ∧ InRange g ∧ InRange b := by
  rw [isValid_iff]
  constructor
  · rintro (⟨ds, same, length, digits⟩ | ⟨t, same, -⟩)
    · obtain ⟨-, rfl⟩ := List.cons.inj same
      rw [List.length_append, List.length_append] at length
      have first := two_le_length_hexText r
      have second := two_le_length_hexText g
      have third := two_le_length_hexText b
      simp only [List.mem_append] at digits
      exact ⟨inRange_of_hexText (by omega) fun c hc => digits c (Or.inl (Or.inl hc)),
        inRange_of_hexText (by omega) fun c hc => digits c (Or.inl (Or.inr hc)),
        inRange_of_hexText (by omega) fun c hc => digits c (Or.inr hc)⟩
    · have broken : '\n' ∈ encode r g b := by
        rw [same]
        exact List.mem_append_right _ (List.mem_singleton.2 rfl)
      simp [encode, unbroken_hexText] at broken
  · rintro ⟨hr, hg, hb⟩
    obtain ⟨r₁, r₂, hr₁, hr₂, -, hr⟩ := hexText_eq hr
    obtain ⟨g₁, g₂, hg₁, hg₂, -, hg⟩ := hexText_eq hg
    obtain ⟨b₁, b₂, hb₁, hb₂, -, hb⟩ := hexText_eq hb
    refine Or.inl ⟨_, rfl, by rw [hr, hg, hb]; rfl, ?_⟩
    rw [hr, hg, hb]
    simp [isHexDigit_upperDigit, *]

/-- Six digits of three pairs are read as three channels. -/
theorem decode_digits {r₁ r₂ g₁ g₂ b₁ b₂ : Nat} {c₁ c₂ c₃ c₄ c₅ c₆ : Char} (h₁ : IsDigitOf r₁ c₁)
    (h₂ : IsDigitOf r₂ c₂) (h₃ : IsDigitOf g₁ c₃) (h₄ : IsDigitOf g₂ c₄) (h₅ : IsDigitOf b₁ c₅)
    (h₆ : IsDigitOf b₂ c₆) : decode ['#', c₁, c₂, c₃, c₄, c₅, c₆] =
      .ok (((16 * r₁ + r₂ : Nat) : Int), ((16 * g₁ + g₂ : Nat) : Int), ((16 * b₁ + b₂ : Nat) : Int)) := by
  have unmarked : c₁ ≠ '#' := fun same => h₁.plain (by simp [same])
  have digits : ['#', c₁, c₂, c₃, c₄, c₅, c₆].dropWhile (· = '#') = [c₁, c₂, c₃, c₄, c₅, c₆] := by
    rw [List.dropWhile_cons_of_pos (by simp), List.dropWhile_cons_of_neg (by simp [unmarked])]
  rw [decode, digits]
  show (do
    let r ← pairValue [c₁, c₂]
    let g ← pairValue [c₃, c₄]
    let b ← pairValue [c₅, c₆]
    return (r, g, b)) = _
  rw [pairValue_eq h₁ h₂, pairValue_eq h₃ h₄, pairValue_eq h₅ h₆]
  rfl

/-- **Channels in range are read back.** -/
theorem decode_encode {r g b : Int} (hr : InRange r) (hg : InRange g) (hb : InRange b) :
    decode (encode r g b) = .ok (r, g, b) := by
  obtain ⟨r₁, r₂, hr₁, hr₂, rfl, hr⟩ := hexText_eq hr
  obtain ⟨g₁, g₂, hg₁, hg₂, rfl, hg⟩ := hexText_eq hg
  obtain ⟨b₁, b₂, hb₁, hb₂, rfl, hb⟩ := hexText_eq hb
  rw [encode, hr, hg, hb]
  exact decode_digits (isDigitOf_upperDigit hr₁) (isDigitOf_upperDigit hr₂) (isDigitOf_upperDigit hg₁)
    (isDigitOf_upperDigit hg₂) (isDigitOf_upperDigit hb₁) (isDigitOf_upperDigit hb₂)

/-- **A colour that is read and written again is in upper case.** -/
theorem encode_decode {cs : List Char} (h : IsHexColor cs) :
    ∃ r g b, decode cs = .ok (r, g, b) ∧ encode r g b = cs.map Char.toUpper := by
  obtain ⟨ds, rfl, length, digits⟩ := h
  obtain ⟨c₁, c₂, c₃, c₄, c₅, c₆, rfl⟩ : ∃ c₁ c₂ c₃ c₄ c₅ c₆, ds = [c₁, c₂, c₃, c₄, c₅, c₆] :=
    match ds, length with
    | [c₁, c₂, c₃, c₄, c₅, c₆], _ => ⟨_, _, _, _, _, _, rfl⟩
  simp only [List.forall_mem_cons] at digits
  obtain ⟨h₁, h₂, h₃, h₄, h₅, h₆, -⟩ := digits
  obtain ⟨r₁, h₁⟩ := exists_isDigitOf h₁
  obtain ⟨r₂, h₂⟩ := exists_isDigitOf h₂
  obtain ⟨g₁, h₃⟩ := exists_isDigitOf h₃
  obtain ⟨g₂, h₄⟩ := exists_isDigitOf h₄
  obtain ⟨b₁, h₅⟩ := exists_isDigitOf h₅
  obtain ⟨b₂, h₆⟩ := exists_isDigitOf h₆
  refine ⟨_, _, _, decode_digits h₁ h₂ h₃ h₄ h₅ h₆, ?_⟩
  rw [encode, hexText_pair h₁.small h₂.small, hexText_pair h₃.small h₄.small,
    hexText_pair h₅.small h₆.small]
  simp only [List.map_cons, List.map_nil, h₁.upper, h₂.upper, h₃.upper, h₄.upper, h₅.upper, h₆.upper]
  rfl

/-! ### Operations -/

/-- The input with a text for a colour. -/
def hexInput (s : String) : Value := .dict [(.str "hex", .str s)]

/-- The input with three channels. -/
def rgbInput (r g b : Int) : Value := .dict [(.str "r", .int r), (.str "g", .int g), (.str "b", .int b)]

/-- What is told of a text: whether it is valid. -/
def validity (valid : Bool) : Value := .dict [(.str "valid", .bool valid)]

theorem isValidHex_eq (s : String) : isValidHex (hexInput s) = .ok (validity (isValid s.toList)) := rfl

theorem rgbToHex_eq (r g b : Int) :
    rgbToHex (rgbInput r g b) = .ok (hexInput (String.ofList (encode r g b))) := rfl

theorem hexToRgb_of_decode {s : String} {r g b : Int} (h : decode s.toList = .ok (r, g, b)) :
    hexToRgb (hexInput s) = .ok (rgbInput r g b) := by
  have part : (hexInput s).part "hex" = .ok (.str s) := rfl
  unfold hexToRgb
  rw [part]
  dsimp only [bind, Except.bind]
  rw [h]
  rfl

/-- **A text is told to be valid exactly if it is a colour, or a colour and a line break.** -/
theorem isValidHex_iff (s : String) : ∃ valid, isValidHex (hexInput s) = .ok (validity valid) ∧
    (valid = true ↔ IsHexColor s.toList ∨ ∃ t : String, s = t ++ "\n" ∧ IsHexColor t.toList) := by
  refine ⟨_, isValidHex_eq s, ?_⟩
  rw [isValid_iff]
  refine or_congr_right ⟨?_, ?_⟩
  · rintro ⟨t, same, color⟩
    refine ⟨String.ofList t, String.toList_injective ?_, by rwa [String.toList_ofList]⟩
    rw [same, String.toList_append, String.toList_ofList]
    rfl
  · rintro ⟨t, rfl, color⟩
    exact ⟨t.toList, String.toList_append, color⟩

/-- A line break after a colour is let pass. -/
theorem isValidHex_broken :
    isValidHex (hexInput "#FFFFFF\n") = .ok (validity true) ∧ ¬ IsHexColor "#FFFFFF\n".toList := by
  refine ⟨rfl, ?_⟩
  rintro ⟨ds, same, -, digits⟩
  obtain ⟨-, rfl⟩ := List.cons.inj (show '#' :: "FFFFFF\n".toList = '#' :: ds from same)
  exact absurd (digits '\n' (by decide)) (by decide)

/-- **Channels make a valid text exactly if they are in range, and then they are what the text is read as;
a colour that is read makes its own text in upper case.** -/
theorem hex_round_trip :
    (∀ r g b : Int, ∃ text, rgbToHex (rgbInput r g b) = .ok (hexInput text) ∧
      (isValidHex (hexInput text) = .ok (validity true) ↔ InRange r ∧ InRange g ∧ InRange b) ∧
      (InRange r → InRange g → InRange b → hexToRgb (hexInput text) = .ok (rgbInput r g b))) ∧
    ∀ s : String, IsHexColor s.toList → ∃ r g b, hexToRgb (hexInput s) = .ok (rgbInput r g b) ∧
      rgbToHex (rgbInput r g b) = .ok (hexInput s.toUpper) := by
  constructor
  · intro r g b
    refine ⟨_, rgbToHex_eq r g b, ?_, fun hr hg hb => hexToRgb_of_decode ?_⟩
    · rw [isValidHex_eq, String.toList_ofList, ← isValid_encode]
      constructor
      · intro told
        injection told with told
        simpa [validity] using told
      · intro valid
        rw [valid]
    · rw [String.toList_ofList]
      exact decode_encode hr hg hb
  · intro s color
    obtain ⟨r, g, b, decoded, encoded⟩ := encode_decode color
    refine ⟨r, g, b, hexToRgb_of_decode decoded, ?_⟩
    have upper : String.ofList (encode r g b) = s.toUpper := by
      apply String.toList_injective
      rw [String.toList_ofList, encoded, String.toUpper, String.toList_map]
    rw [rgbToHex_eq, upper]

/-- Channels at the ends of their range, and a colour in letters of both cases. -/
theorem hex_round_trip_mixed :
    (∃ text, rgbToHex (rgbInput 255 16 0) = .ok (hexInput text) ∧
      isValidHex (hexInput text) = .ok (validity true) ∧
      hexToRgb (hexInput text) = .ok (rgbInput 255 16 0)) ∧
    IsHexColor "#aB09fE".toList ∧ ∃ r g b, hexToRgb (hexInput "#aB09fE") = .ok (rgbInput r g b) ∧
      rgbToHex (rgbInput r g b) = .ok (hexInput "#aB09fE".toUpper) := by
  have inRange : InRange 255 ∧ InRange 16 ∧ InRange 0 := by
    refine ⟨⟨?_, ?_⟩, ⟨?_, ?_⟩, ?_, ?_⟩ <;> decide
  have digits : "aB09fE".toList.all (fun c => IsHexDigit c) = true := by decide
  have color : IsHexColor "#aB09fE".toList :=
    ⟨_, rfl, rfl, fun c hc => of_decide_eq_true (List.all_eq_true.1 digits c hc)⟩
  obtain ⟨text, written, valid, read⟩ := hex_round_trip.1 255 16 0
  exact ⟨⟨text, written, valid.2 inRange, read inRange.1 inRange.2.1 inRange.2.2⟩, color,
    hex_round_trip.2 _ color⟩

end Assay.Sample.Color
