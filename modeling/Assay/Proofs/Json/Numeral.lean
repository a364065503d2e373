import Assay.Json.Reader
import Assay.Json.Writer
import Assay.Proofs.Number.Reading

/-!
# Numerals read back

A written number is a sign, a whole part, perhaps a fraction and perhaps an exponent.  The reader takes
exactly these parts off the front of a text, provided that what follows does not go on with a number.

* `Parts` — a numeral in parts, and `Parts.chars` its text;
* `readNumber_parts` — the reader on a numeral;
* `exists_parts` — the layout of a decimal is a numeral of the same value;
* `readNumber_float`, `readNumber_int` — written doubles and integers read back.
-/

namespace Assay.Json

variable {τ : Type}

open Assay.Text

/-! ### Runs of digits -/

/-- The text does not start with a character of a kind. -/
def StartsWithout (p : Char → Bool) (cs : List Char) : Prop := ∀ c ∈ cs.head?, p c = false

theorem takeWhile_append_run {p : Char → Bool} {ds rest : List Char} (hd : ∀ c ∈ ds, p c = true)
    (hr : StartsWithout p rest) : (ds ++ rest).takeWhile p = ds := by
  rw [List.takeWhile_append_of_pos hd]
  cases rest with
  | nil => rw [List.takeWhile_nil, List.append_nil]
  | cons c cs =>
    have hc : p c = false := hr c rfl
    rw [List.takeWhile_cons, hc]
    exact List.append_nil ds

theorem dropWhile_append_run {p : Char → Bool} {ds rest : List Char} (hd : ∀ c ∈ ds, p c = true)
    (hr : StartsWithout p rest) : (ds ++ rest).dropWhile p = rest := by
  rw [List.dropWhile_append_of_pos hd]
  cases rest with
  | nil => rfl
  | cons c cs =>
    have hc : p c = false := hr c rfl
    rw [List.dropWhile_cons, hc]
    rfl

theorem digitsValue_eq (ds : List Char) : digitsValue ds = Nat.ofDigitChars 10 ds 0 := rfl

theorem isDigit_toDigits {n : Nat} {c : Char} (h : c ∈ Nat.toDigits 10 n) : isDigit c = true := by
  have := Nat.isDigit_of_mem_toDigits (by decide) (by decide) h
  simpa [Char.isDigit, isDigit, Char.le_def] using this

/-- The digits of a positive number do not start with a zero. -/
theorem head_toDigits {n : Nat} (hn : 0 < n) :
    ∃ c cs, Nat.toDigits 10 n = c :: cs ∧ c ≠ '0' ∧ isDigit c = true := by
  induction n using Nat.strongRecOn with
  | ind n ih =>
    rw [Nat.toDigits_eq_if (by decide)]
    split
    · refine ⟨_, [], rfl, ?_, ?_⟩
      · intro h
        have := (Nat.digitChar_eq_zero).1 h
        omega
      · apply isDigit_toDigits (n := n)
        rw [Nat.toDigits_of_lt_base (by assumption)]
        exact List.mem_singleton_self _
    · obtain ⟨c, cs, hc, h0, hd⟩ := ih (n / 10) (by omega) (by omega)
      rw [hc]
      exact ⟨c, cs ++ _, rfl, h0, hd⟩

/-! ### Numerals in parts -/

/-- A numeral without its sign: the digits before the point, those behind it and the exponent. -/
structure Parts where
  whole : List Char
  part : List Char
  exponent : Option Int

namespace Parts

/-- The text of a numeral. -/
def chars (p : Parts) : List Char :=
  p.whole ++ ((if p.part = [] then [] else '.' :: p.part) ++
    p.exponent.elim [] fun e => 'e' :: Layout.exponentText e)

/-- The whole part is a zero alone or starts with another digit. -/
structure Valid (p : Parts) : Prop where
  whole : p.whole = ['0'] ∨ ∃ c cs, p.whole = c :: cs ∧ c ≠ '0' ∧ ∀ d ∈ c :: cs, isDigit d = true
  part : ∀ d ∈ p.part, isDigit d = true

/-- All digits as one number. -/
def digits (p : Parts) : Nat := digitsValue (p.whole ++ p.part)

/-- The decimal exponent of the last digit. -/
def place (p : Parts) : Int := p.exponent.getD 0 - p.part.length

end Parts

/-- A character that a number may go on with. -/
def continuesNumber (c : Char) : Bool := isDigit c || c = '.' || c = 'e' || c = 'E'

theorem wholePart_append {w rest : List Char} (hr : StartsWithout isDigit rest)
    (hw : w = ['0'] ∨ ∃ c cs, w = c :: cs ∧ c ≠ '0' ∧ ∀ d ∈ c :: cs, isDigit d = true) :
    wholePart (w ++ rest) = some (w, rest) := by
  rcases hw with rfl | ⟨c, cs, rfl, h0, hd⟩
  · rfl
  · have hc : isDigit c = true := hd c List.mem_cons_self
    have hcs : ∀ d ∈ cs, isDigit d = true := fun d h => hd d (List.mem_cons_of_mem _ h)
    rw [List.cons_append, wholePart]
    · rw [if_pos hc, takeWhile_append_run hcs hr, dropWhile_append_run hcs hr]
    · exact h0

theorem fractionPart_append {p rest : List Char} (hp : ∀ d ∈ p, isDigit d = true) (hne : p ≠ [])
    (hr : StartsWithout isDigit rest) : fractionPart ('.' :: (p ++ rest)) = (p, rest) := by
  cases p with
  | nil => exact absurd rfl hne
  | cons c cs =>
    have hc : isDigit c = true := hp c List.mem_cons_self
    have hcs : ∀ d ∈ cs, isDigit d = true := fun d h => hp d (List.mem_cons_of_mem _ h)
    rw [List.cons_append, fractionPart, if_pos hc, takeWhile_append_run hcs hr,
      dropWhile_append_run hcs hr]

theorem fractionPart_none {rest : List Char} (hr : rest.head? ≠ some '.') :
    fractionPart rest = ([], rest) := by
  unfold fractionPart
  split
  · exact absurd rfl hr
  · rfl

/-- A written exponent is a sign and digits of its magnitude. -/
theorem exists_exponentText (e : Int) : ∃ ds, Layout.exponentText e = (if e < 0 then '-' else '+') :: ds ∧
    ds ≠ [] ∧ (∀ d ∈ ds, isDigit d = true) ∧ digitsValue ds = e.natAbs := by
  refine ⟨_, rfl, ?_, ?_, ?_⟩
  · simp
  · intro d hd
    rcases List.mem_append.1 hd with h | h
    · rw [List.eq_of_mem_replicate h]
      rfl
    · exact isDigit_toDigits h
  · rw [digitsValue_eq, Nat.ofDigitChars_append, Nat.ofDigitChars_replicate_zero, Nat.mul_zero,
      Nat.ofDigitChars_ten_toDigits]

theorem exponentPart_append (e : Int) {rest : List Char} (hr : StartsWithout isDigit rest) :
    exponentPart ('e' :: (Layout.exponentText e ++ rest)) = (some e, rest) := by
  obtain ⟨ds, he, hne, hd, hv⟩ := exists_exponentText e
  obtain ⟨c, cs, rfl⟩ := List.exists_cons_of_ne_nil hne
  have run : (c :: cs ++ rest).takeWhile isDigit = c :: cs := takeWhile_append_run hd hr
  have after : (c :: cs ++ rest).dropWhile isDigit = rest := dropWhile_append_run hd hr
  rw [he]
  by_cases hneg : e < 0
  · rw [if_pos hneg, List.cons_append]
    unfold exponentPart
    simp only [true_or, if_true]
    rw [run, after]
    show (some (-(digitsValue (c :: cs) : Int)), rest) = _
    rw [hv, show -(e.natAbs : Int) = e by omega]
  · rw [if_neg hneg, List.cons_append]
    unfold exponentPart
    simp only [true_or, if_true]
    rw [run, after]
    show (some (digitsValue (c :: cs) : Int), rest) = _
    rw [hv, show (e.natAbs : Int) = e by omega]

theorem exponentPart_none {rest : List Char} (hr : rest.head? ≠ some 'e' ∧ rest.head? ≠ some 'E') :
    exponentPart rest = (none, rest) := by
  cases rest with
  | nil => rfl
  | cons c cs =>
    unfold exponentPart
    dsimp only
    rw [if_neg]
    rintro (rfl | rfl)
    · exact hr.1 rfl
    · exact hr.2 rfl

/-! ### The reader on a numeral -/

/-- The sign of a numeral. -/
def signChars (negative : Bool) : List Char := if negative then ['-'] else []

theorem minusPart_append (negative : Bool) {body : List Char} (h : body.head? ≠ some '-') :
    minusPart (signChars negative ++ body) = (negative, body) := by
  cases negative with
  | true => rfl
  | false =>
    rw [signChars, if_neg Bool.false_ne_true, List.nil_append]
    unfold minusPart
    split
    · exact absurd rfl h
    · rfl

/-- The reader on a number whose parts are known. -/
theorem readNumber_eq (negative : Bool) {body whole part rest₁ rest₂ rest : List Char}
    {exponent : Option Int} (hb : body.head? ≠ some '-') (hw : wholePart body = some (whole, rest₁))
    (hf : fractionPart rest₁ = (part, rest₂)) (he : exponentPart rest₂ = (exponent, rest)) :
    (readNumber (signChars negative ++ body) : Except Stop (Json τ × List Char)) =
      if part.isEmpty && exponent.isNone then
        if whole.length > digitLimit then .error (.digits whole.length)
        else .ok (.int (if negative then -(digitsValue whole : Int) else digitsValue whole), rest)
      else
        .ok (.float (.ofDecimal negative (digitsValue (whole ++ part)) (exponent.getD 0 - part.length)),
          rest) := by
  rw [readNumber, minusPart_append negative hb]
  dsimp only
  rw [hw]
  dsimp only
  rw [hf]
  dsimp only
  rw [he]

theorem Parts.Valid.head {p : Parts} (hp : p.Valid) (rest : List Char) :
    ∃ c, (p.chars ++ rest).head? = some c ∧ isDigit c = true := by
  rw [Parts.chars]
  rcases hp.whole with h | ⟨c, cs, h, -, hd⟩
  · rw [h]
    exact ⟨'0', rfl, rfl⟩
  · rw [h]
    exact ⟨c, rfl, hd c List.mem_cons_self⟩

theorem not_minus_of_isDigit {cs : List Char} {c : Char} (h : cs.head? = some c)
    (hc : isDigit c = true) : cs.head? ≠ some '-' := by
  intro e
  rw [h] at e
  cases e
  exact absurd hc (by decide)

/-- The reader takes exactly a numeral off the front of a text. -/
theorem readNumber_chars {p : Parts} (hp : p.Valid) (negative : Bool) {rest : List Char}
    (hr : StartsWithout continuesNumber rest) :
    (readNumber (signChars negative ++ (p.chars ++ rest)) : Except Stop (Json τ × List Char)) =
      if p.part.isEmpty && p.exponent.isNone then
        if p.whole.length > digitLimit then .error (.digits p.whole.length)
        else .ok (.int (if negative then -(digitsValue p.whole : Int) else digitsValue p.whole), rest)
      else .ok (.float (.ofDecimal negative p.digits p.place), rest) := by
  obtain ⟨c, hc, hd⟩ := hp.head rest
  have noDigit : StartsWithout isDigit rest := by
    intro c hc
    have := hr c hc
    simp only [continuesNumber, Bool.or_eq_false_iff] at this
    exact this.1.1.1
  have noPoint : rest.head? ≠ some '.' := by
    intro h
    exact absurd (hr '.' h) (by decide)
  have noMark : rest.head? ≠ some 'e' ∧ rest.head? ≠ some 'E' := by
    constructor
    · intro h
      exact absurd (hr 'e' h) (by decide)
    · intro h
      exact absurd (hr 'E' h) (by decide)
  -- What stands behind the digits starts with the mark of an exponent, or is the rest of the text.
  obtain ⟨tail, htail⟩ : ∃ tail, tail = (p.exponent.elim [] fun e => 'e' :: Layout.exponentText e) ++ rest :=
    ⟨_, rfl⟩
  have tailDigit : StartsWithout isDigit tail := by
    rw [htail]
    cases p.exponent with
    | none => exact noDigit
    | some e =>
      intro c hc
      cases hc
      rfl
  have tailPoint : tail.head? ≠ some '.' := by
    rw [htail]
    cases p.exponent with
    | none => exact noPoint
    | some e => simp
  have exponent : exponentPart tail = (p.exponent, rest) := by
    rw [htail]
    cases p.exponent with
    | none => exact exponentPart_none noMark
    | some e => exact exponentPart_append e noDigit
  have fraction : fractionPart ((if p.part = [] then [] else '.' :: p.part) ++ tail) = (p.part, tail) := by
    by_cases hpart : p.part = []
    · rw [if_pos hpart, hpart]
      exact fractionPart_none tailPoint
    · rw [if_neg hpart, List.cons_append]
      exact fractionPart_append hp.part hpart tailDigit
  have startsDigit : StartsWithout isDigit ((if p.part = [] then [] else '.' :: p.part) ++ tail) := by
    by_cases hpart : p.part = []
    · rw [if_pos hpart]
      exact tailDigit
    · rw [if_neg hpart]
      intro c hc
      cases hc
      rfl
  have text : p.chars ++ rest =
      p.whole ++ ((if p.part = [] then [] else '.' :: p.part) ++ tail) := by
    rw [Parts.chars, htail, List.append_assoc, List.append_assoc]
  have whole : wholePart (p.chars ++ rest) =
      some (p.whole, (if p.part = [] then [] else '.' :: p.part) ++ tail) := by
    rw [Parts.chars, List.append_assoc, List.append_assoc, ← htail]
    exact wholePart_append startsDigit hp.whole
  exact readNumber_eq negative (not_minus_of_isDigit hc hd) whole fraction exponent

/-- **A numeral with a fraction or an exponent is read as a double.** -/
theorem readNumber_parts {p : Parts} (hp : p.Valid) (hx : p.part ≠ [] ∨ p.exponent ≠ none)
    (negative : Bool) {rest : List Char} (hr : StartsWithout continuesNumber rest) :
    (readNumber (signChars negative ++ (p.chars ++ rest)) : Except Stop (Json τ × List Char)) =
      .ok (.float (.ofDecimal negative p.digits p.place), rest) := by
  rw [readNumber_chars hp negative hr, if_neg]
  rw [Bool.and_eq_true, List.isEmpty_iff, Option.isNone_iff_eq_none]
  rintro ⟨h, h'⟩
  rcases hx with hx | hx
  · exact hx h
  · exact hx h'

/-- **A whole part alone is read as an integer.** -/
theorem readNumber_whole {w : List Char} (hw : (Parts.mk w [] none).Valid) (hl : w.length ≤ digitLimit)
    (negative : Bool) {rest : List Char} (hr : StartsWithout continuesNumber rest) :
    (readNumber (signChars negative ++ (w ++ rest)) : Except Stop (Json τ × List Char)) =
      .ok (.int (if negative then -(digitsValue w : Int) else digitsValue w), rest) := by
  have chars : (Parts.mk w [] none).chars = w := List.append_nil w
  have read : (readNumber _ : Except Stop (Json τ × List Char)) = _ := readNumber_chars hw negative hr
  rw [chars] at read
  rw [read]
  exact (if_pos rfl).trans (if_neg (Nat.not_lt.2 hl))

/-! ### Integers -/

theorem toDigits_valid (n : Nat) : (Parts.mk (Nat.toDigits 10 n) [] none).Valid := by
  refine ⟨?_, fun d hd => absurd hd (List.not_mem_nil)⟩
  rcases Nat.eq_zero_or_pos n with rfl | hn
  · exact Or.inl (Nat.toDigits_zero 10)
  · obtain ⟨c, cs, hcs, h0, -⟩ := head_toDigits hn
    refine Or.inr ⟨c, cs, hcs, h0, ?_⟩
    intro d hd
    rw [← hcs] at hd
    exact isDigit_toDigits hd

/-- The text of an integer is its sign and the digits of its magnitude. -/
theorem toList_toString (i : Int) :
    (toString i).toList = signChars (decide (i < 0)) ++ Nat.toDigits 10 i.natAbs := by
  cases i with
  | ofNat n =>
    rw [signChars, if_neg (by simp), List.nil_append]
    exact Nat.toList_repr
  | negSucc n =>
    rw [signChars, if_pos (by simp)]
    show ("-" ++ (n + 1).repr).toList = _
    rw [String.toList_append, Nat.toList_repr]
    rfl

theorem digitBound_eq : digitBound = 10 ^ digitLimit := by
  unfold digitBound
  generalize digitLimit = k
  rfl

/-- **A written integer reads back.** -/
theorem readNumber_int {i : Int} (hi : i.natAbs < digitBound) {rest : List Char}
    (hr : StartsWithout continuesNumber rest) :
    (readNumber ((toString i).toList ++ rest) : Except Stop (Json τ × List Char)) = .ok (.int i, rest) := by
  have length : (Nat.toDigits 10 i.natAbs).length ≤ digitLimit := by
    rw [Nat.length_toDigits_le_iff (by decide) (by decide), ← digitBound_eq]
    exact hi
  rw [toList_toString, List.append_assoc, readNumber_whole (toDigits_valid _) length _ hr, digitsValue_eq,
    Nat.ofDigitChars_ten_toDigits]
  by_cases h : i < 0
  · rw [if_pos (by simpa using h), show -(i.natAbs : Int) = i by omega]
  · rw [if_neg (by simpa using h), show (i.natAbs : Int) = i by omega]

/-! ### Doubles -/

section Layouts

variable {c : Char} {cs : List Char} (h0 : c ≠ '0') (all : ∀ x ∈ c :: cs, isDigit x = true)

include h0 all

/-- Digits with zeros behind them, up to the point. -/
theorem exists_parts_padded (k : Nat) :
    ∃ p : Parts, p.Valid ∧ p.part ≠ [] ∧
      p.chars = c :: cs ++ List.replicate k '0' ++ ['.', '0'] ∧
        p.digits = digitsValue (c :: cs) * 10 ^ k * 10 ∧ p.place = -1 := by
  refine ⟨⟨c :: cs ++ List.replicate k '0', ['0'], none⟩, ⟨?_, ?_⟩, List.cons_ne_nil _ _, ?_, ?_, rfl⟩
  · refine Or.inr ⟨c, cs ++ List.replicate k '0', rfl, h0, ?_⟩
    intro x hx
    rcases List.mem_append.1 (show x ∈ (c :: cs) ++ List.replicate k '0' from hx) with h | h
    · exact all x h
    · rw [List.eq_of_mem_replicate h]
      rfl
  · intro x hx
    rw [List.mem_singleton.1 hx]
    rfl
  · rw [Parts.chars]
    rfl
  · rw [Parts.digits, digitsValue_eq, Nat.ofDigitChars_append, Nat.ofDigitChars_append, ← digitsValue_eq,
      Nat.ofDigitChars_replicate_zero, Nat.mul_comm (10 ^ k), Nat.mul_comm _ 10]
    rfl

/-- Digits with the point among them. -/
theorem exists_parts_split {k : Nat} (hk : k + 1 < (c :: cs).length) :
    ∃ p : Parts, p.Valid ∧ p.part ≠ [] ∧
      p.chars = (c :: cs).take (k + 1) ++ '.' :: (c :: cs).drop (k + 1) ∧
        p.digits = digitsValue (c :: cs) ∧ p.place = (k + 1 : Nat) - ((c :: cs).length : Int) := by
  have some : (c :: cs).drop (k + 1) ≠ [] := by
    intro h
    have := List.drop_eq_nil_iff.1 h
    omega
  refine ⟨⟨(c :: cs).take (k + 1), (c :: cs).drop (k + 1), none⟩, ⟨?_, ?_⟩, some, ?_, ?_, ?_⟩
  · refine Or.inr ⟨c, cs.take k, rfl, h0, ?_⟩
    intro x hx
    exact all x (List.mem_of_mem_take (i := k + 1) hx)
  · intro x hx
    exact all x (List.mem_of_mem_drop hx)
  · rw [Parts.chars, if_neg some]
    exact congrArg _ (List.append_nil _)
  · exact congrArg digitsValue (List.take_append_drop _ _)
  · show (0 : Int) - ((c :: cs).drop (k + 1)).length = _
    rw [List.length_drop]
    omega

omit h0 in
/-- Digits behind the point, with zeros before them. -/
theorem exists_parts_small (k : Nat) :
    ∃ p : Parts, p.Valid ∧ p.part ≠ [] ∧
      p.chars = '0' :: '.' :: (List.replicate k '0' ++ c :: cs) ∧
        p.digits = digitsValue (c :: cs) ∧ p.place = -(k + (c :: cs).length : Int) := by
  have some : List.replicate k '0' ++ c :: cs ≠ [] := by simp
  refine ⟨⟨['0'], List.replicate k '0' ++ c :: cs, none⟩, ⟨Or.inl rfl, ?_⟩, some, ?_, ?_, ?_⟩
  · intro x hx
    rcases List.mem_append.1 hx with h | h
    · rw [List.eq_of_mem_replicate h]
      rfl
    · exact all x h
  · rw [Parts.chars, if_neg some]
    exact congrArg _ (List.append_nil _)
  · rw [Parts.digits, digitsValue_eq, Nat.ofDigitChars_append, Nat.ofDigitChars_append,
      Nat.ofDigitChars_replicate_zero]
    rfl
  · show (0 : Int) - (List.replicate k '0' ++ c :: cs).length = _
    rw [List.length_append, List.length_replicate]
    push_cast
    ring

/-- One digit before the point, and an exponent. -/
theorem exists_parts_scientific (e : Int) :
    ∃ p : Parts, p.Valid ∧ p.exponent ≠ none ∧
      p.chars = (match c :: cs with
        | [] => []
        | [c] => c :: 'e' :: Layout.exponentText e
        | c :: rest => c :: '.' :: (rest ++ 'e' :: Layout.exponentText e)) ∧
        p.digits = digitsValue (c :: cs) ∧ p.place = e - cs.length := by
  refine ⟨⟨[c], cs, some e⟩, ⟨?_, ?_⟩, Option.some_ne_none e, ?_, rfl, rfl⟩
  · refine Or.inr ⟨c, [], rfl, h0, ?_⟩
    intro x hx
    exact all x (List.mem_cons.2 (Or.inl (List.mem_singleton.1 hx)))
  · intro x hx
    exact all x (List.mem_cons_of_mem _ hx)
  · cases cs <;> rfl

end Layouts

/-- **The layout of a decimal is a numeral of the same value.** -/
theorem exists_parts (l : Layout) {d : Decimal} (hd : d.digits ≠ 0) :
    ∃ p : Parts, p.Valid ∧ (p.part ≠ [] ∨ p.exponent ≠ none) ∧ l.digitsText d = p.chars ∧
      Decimal.units ⟨p.digits, p.place⟩ = d.units := by
  obtain ⟨c, cs, hcs, h0, -⟩ := head_toDigits (Nat.pos_of_ne_zero hd)
  have all : ∀ x ∈ c :: cs, isDigit x = true := by
    intro x hx
    rw [← hcs] at hx
    exact isDigit_toDigits hx
  have value : digitsValue (c :: cs) = d.digits := by
    rw [← hcs, digitsValue_eq, Nat.ofDigitChars_ten_toDigits]
  have length : ((c :: cs).length : Int) = cs.length + 1 := by
    rw [List.length_cons]
    push_cast
    rfl
  rw [Layout.digitsText, hcs]
  split
  · split
    · rename_i he
      obtain ⟨k, hk⟩ := Int.eq_ofNat_of_zero_le he
      obtain ⟨p, hp, hne, hchars, hdigits, hplace⟩ := exists_parts_padded h0 all k
      refine ⟨p, hp, Or.inl hne, ?_, ?_⟩
      · rw [hchars, hk, Int.toNat_natCast]
      · rw [Decimal.units, Decimal.units, hk, hdigits, hplace, value, zpow_natCast]
        push_cast
        ring
    · rename_i he
      split
      · rename_i hl
        obtain ⟨k, hk⟩ : ∃ k : Nat, d.exponent + ((c :: cs).length : Int) - 1 + 1 = ((k + 1 : Nat) : Int) :=
          ⟨(d.exponent + ((c :: cs).length : Int) - 1).toNat, by omega⟩
        obtain ⟨p, hp, hne, hchars, hdigits, hplace⟩ :=
          exists_parts_split h0 all (show k + 1 < (c :: cs).length by omega)
        refine ⟨p, hp, Or.inl hne, ?_, ?_⟩
        · rw [hchars, hk, Int.toNat_natCast]
        · rw [hdigits, value, hplace, show ((k + 1 : Nat) : Int) - ((c :: cs).length : Int) = d.exponent by omega]
      · rename_i hl
        obtain ⟨k, hk⟩ : ∃ k : Nat, -(d.exponent + ((c :: cs).length : Int) - 1) - 1 = (k : Int) :=
          ⟨(-(d.exponent + ((c :: cs).length : Int) - 1) - 1).toNat, by omega⟩
        obtain ⟨p, hp, hne, hchars, hdigits, hplace⟩ := exists_parts_small all k
        refine ⟨p, hp, Or.inl hne, ?_, ?_⟩
        · rw [hchars, hk, Int.toNat_natCast]
        · rw [hdigits, value, hplace, show -((k : Int) + ((c :: cs).length : Int)) = d.exponent by omega]
  · obtain ⟨p, hp, hne, hchars, hdigits, hplace⟩ :=
      exists_parts_scientific h0 all (d.exponent + ((c :: cs).length : Int) - 1)
    refine ⟨p, hp, Or.inr hne, hchars.symm, ?_⟩
    rw [hdigits, value, hplace, show d.exponent + ((c :: cs).length : Int) - 1 - (cs.length : Int) = d.exponent by omega]

/-- The text of a finite double is its sign and a numeral that is read as its magnitude. -/
theorem exists_parts_chars (s : Bool) (m : Magnitude) :
    ∃ p : Parts, p.Valid ∧ ((p.part ≠ [] ∨ p.exponent ≠ none) ∧
      Double.ofDecimal s p.digits p.place = .finite s m) ∧
        Layout.json.chars (.finite s m) = signChars s ++ p.chars := by
  obtain ⟨r, h⟩ := m
  show ∃ p : Parts, p.Valid ∧ (_ ∧ _) ∧ (signChars s ++ if r = 0 then ['0', '.', '0'] else
    Layout.json.digitsText (Decimal.shortest .double (Double.unitsOfRank r))) = _
  by_cases h0 : r = 0
  · subst h0
    rw [if_pos rfl]
    exact ⟨⟨['0'], ['0'], none⟩, ⟨Or.inl rfl, by simp [isDigit]⟩, ⟨Or.inl (List.cons_ne_nil _ _), rfl⟩, rfl⟩
  · have hpos : 0 < r := Nat.pos_of_ne_zero h0
    obtain ⟨p, hp, hne, hchars, hunits⟩ := exists_parts Layout.json (Decimal.shortest_near hpos h).1
    rw [if_neg h0, hchars]
    exact ⟨p, hp, ⟨hne, Double.ofDecimal_of_shortest hpos h hunits s⟩, rfl⟩

/-- **A written double reads back.** -/
theorem readNumber_float {x : Double} (hx : x.isFinite = true) {rest : List Char}
    (hr : StartsWithout continuesNumber rest) :
    (readNumber (Layout.json.chars x ++ rest) : Except Stop (Json τ × List Char)) = .ok (.float x, rest) := by
  cases x with
  | nan => cases hx
  | infinite s => cases hx
  | finite s m =>
    obtain ⟨p, hp, ⟨hne, hread⟩, hchars⟩ := exists_parts_chars s m
    rw [hchars, List.append_assoc, readNumber_parts hp hne s hr, hread]

end Assay.Json
