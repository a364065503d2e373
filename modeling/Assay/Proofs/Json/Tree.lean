import Assay.Proofs.Json.Numeral
import Assay.Proofs.Json.Text

/-!
# Trees read back

A written tree is read as that tree, whatever text follows it, unless the text goes on with a number.
The styles differ in blanks only, and the reader skips blanks.

* `Style.Readable` — commas and colons with nothing but blanks around them;
* `Short` — no integer has too many digits to be read;
* `readTree_write` — a written tree reads back;
* `write_injective` — two trees with the same text are the same.
-/

namespace Assay.Json

open Assay.Text Letter

variable {τ χ : Type} [Letter χ]

/-! ### Styles and trees that are read -/

/-- Nothing but blanks. -/
def Blanks (cs : List Char) : Prop := ∀ c ∈ cs, isBlank c = true

/-- Commas and colons come first, and only blanks after them; letters that are no characters stay as
they are. -/
structure Style.Readable (st : Style) (χ : Type := Char) [Letter χ] : Prop where
  comma : ∃ bs, st.comma = ',' :: bs ∧ Blanks bs
  colon : ∃ bs, st.colon = ':' :: bs ∧ Blanks bs
  letters : st.escapeAll = true → ∀ x : χ, ∃ c : Char, x = ofChar c

mutual

/-- No integer has more digits than are read, and what is no number has the mark that reading gives. -/
def Short : Json τ → Prop
  | .int i => i.natAbs < digitBound
  | .float (.nan mark) => mark = 0
  | .arr xs => ShortItems xs
  | .obj ms => ShortMembers ms
  | _ => True

/-- No item of a sequence has such an integer. -/
def ShortItems : List (Json τ) → Prop
  | [] => True
  | x :: xs => Short x ∧ ShortItems xs

/-- No member of an object has such an integer. -/
def ShortMembers : List (τ × Json τ) → Prop
  | [] => True
  | (_, v) :: ms => Short v ∧ ShortMembers ms

end

/-! ### Blanks -/

theorem blanks_lineBreak (st : Style) (depth : Nat) : Blanks (lineBreak st depth) := by
  unfold lineBreak
  split
  · intro c hc
    cases hc
  · intro c hc
    rcases List.mem_cons.1 hc with rfl | h
    · rfl
    · rw [List.eq_of_mem_replicate h]
      rfl

theorem blanks_nil : Blanks [] := nofun

theorem Blanks.append {as bs : List Char} (ha : Blanks as) (hb : Blanks bs) : Blanks (as ++ bs) := by
  intro c hc
  rcases List.mem_append.1 hc with h | h
  · exact ha c h
  · exact hb c h

/-- Blanks are skipped up to what is none. -/
theorem skip_blanks {bs : List Char} (hb : Blanks bs) {c : Char} (hc : isBlank c = false)
    (xs : List χ) : skip (spell bs ++ ofChar c :: xs) = ofChar c :: xs := by
  rw [skip, List.dropWhile_append_of_pos]
  · rw [List.dropWhile_cons_of_neg]
    rw [face_ofChar, hc]
    exact Bool.false_ne_true
  · intro x hx
    obtain ⟨b, hmem, rfl⟩ := List.mem_map.1 hx
    rw [face_ofChar]
    exact hb b hmem

/-- What may stand behind a value in a collection does not go on with a number. -/
theorem startsWithout_blanks {bs : List Char} (hb : Blanks bs) {c : Char}
    (hc : continuesNumber c = false) (cs : List Char) : StartsWithout continuesNumber (bs ++ c :: cs) := by
  cases bs with
  | nil =>
    intro d hd
    cases hd
    exact hc
  | cons b bs =>
    intro d hd
    cases hd
    have := hb b List.mem_cons_self
    simp only [isBlank, Bool.or_eq_true, decide_eq_true_eq] at this
    rcases this with ((rfl | rfl) | rfl) | rfl <;> rfl

/-! ### Scalars -/

/-- Neither a blank nor the end of a collection nor the mark of byte order. -/
structure StartsValue (c : Char) : Prop where
  blank : isBlank c = false
  bracket : c ≠ ']'
  brace : c ≠ '}'
  mark : c.toNat ≠ 0xFEFF

/-- A token is read off letters as it is off their faces. -/
theorem readToken_spell {cs : List Char} {rest : List χ} {j : Json τ}
    (read : readScalar (cs ++ faces rest) = .ok (j, faces rest)) :
    readToken (spell cs ++ rest) = .ok (j, rest) := by
  have behind : (spell cs ++ rest : List χ).length - rest.length = (spell cs : List χ).length := by
    rw [List.length_append, Nat.add_sub_cancel]
  rw [readToken, faces_append, faces_spell, read]
  show Except.ok (j, List.drop (_ - (faces rest).length) _) = _
  rw [length_faces, behind, List.drop_left]

variable [Texts τ χ]

theorem readTree_token (fuel : Nat) {cs : List Char} {c : Char} (h : cs.head? = some c)
    (hc : c ≠ '"' ∧ c ≠ '{' ∧ c ≠ '[') {rest : List χ} {j : Json τ}
    (read : readScalar (cs ++ faces rest) = .ok (j, faces rest)) :
    readTree (fuel + 1) (spell cs ++ rest) = .ok (j, rest) := by
  rw [← readToken_spell read]
  obtain ⟨ds, rfl⟩ := List.head?_eq_some_iff.1 h
  show readTree (fuel + 1) (ofChar c :: (spell ds ++ rest)) = readToken (ofChar c :: (spell ds ++ rest))
  rw [readTree, face_ofChar]
  split
  · exact absurd rfl hc.1
  · exact absurd rfl hc.2.1
  · exact absurd rfl hc.2.2
  · rfl

/-- A text that starts with a digit, or with a minus sign and a digit, is no word. -/
theorem readScalar_number (negative : Bool) {c : Char} (hc : isDigit c = true) (cs : List Char) :
    (readScalar (signChars negative ++ c :: cs) : Except Stop (Json τ × List Char)) =
      readNumber (signChars negative ++ c :: cs) := by
  have other : ∀ d, isDigit d = false → (d == c) = false := by
    intro d hd
    rw [beq_eq_false_iff_ne]
    rintro rfl
    rw [hd] at hc
    cases hc
  have hn := other 'n' rfl
  have ht := other 't' rfl
  have hf := other 'f' rfl
  have hN := other 'N' rfl
  have hI := other 'I' rfl
  have hm := other '-' rfl
  have null : "null".toList = ['n', 'u', 'l', 'l'] := rfl
  have yes : "true".toList = ['t', 'r', 'u', 'e'] := rfl
  have no : "false".toList = ['f', 'a', 'l', 's', 'e'] := rfl
  have nan : "NaN".toList = ['N', 'a', 'N'] := rfl
  have infinity : "Infinity".toList = 'I' :: ['n', 'f', 'i', 'n', 'i', 't', 'y'] := rfl
  have below : "-Infinity".toList = '-' :: 'I' :: ['n', 'f', 'i', 'n', 'i', 't', 'y'] := rfl
  unfold readScalar
  dsimp only
  cases negative with
  | true =>
    rw [signChars, if_pos rfl, List.singleton_append, null, yes, no, nan, infinity, below]
    simp only [List.isPrefixOf_cons_cons, hI]
    rfl
  | false =>
    rw [signChars, if_neg Bool.false_ne_true, List.nil_append, null, yes, no, nan, infinity, below]
    simp only [List.isPrefixOf_cons_cons, hn, ht, hf, hN, hI, hm]
    rfl

/-- A written number is a digit with what follows it, perhaps after a minus sign. -/
def IsNumberText (cs : List Char) : Prop :=
  ∃ negative c ds, isDigit c = true ∧ cs = signChars negative ++ c :: ds

theorem isNumberText_int (i : Int) : IsNumberText (toString i).toList := by
  obtain ⟨c, ds, hcs⟩ := List.exists_cons_of_ne_nil (Nat.toDigits_ne_nil (n := i.natAbs) (b := 10))
  refine ⟨decide (i < 0), c, ds, ?_, ?_⟩
  · apply isDigit_toDigits (n := i.natAbs)
    rw [hcs]
    exact List.mem_cons_self
  · rw [toList_toString, hcs]

theorem isNumberText_float {x : Double} (hx : x.isFinite = true) : IsNumberText (Layout.json.chars x) := by
  cases x with
  | nan => cases hx
  | infinite s => cases hx
  | finite s m =>
    obtain ⟨p, hp, -, hchars⟩ := exists_parts_chars s m
    obtain ⟨c, hc, hd⟩ := hp.head []
    rw [List.append_nil] at hc
    obtain ⟨ds, hds⟩ := List.head?_eq_some_iff.1 hc
    exact ⟨s, c, ds, hd, by rw [hchars, hds]⟩

theorem readTree_number (fuel : Nat) {cs : List Char} (h : IsNumberText cs) {rest : List χ} {j : Json τ}
    (read : readNumber (cs ++ faces rest) = .ok (j, faces rest)) :
    readTree (fuel + 1) (spell cs ++ rest) = .ok (j, rest) := by
  obtain ⟨negative, c, ds, hc, rfl⟩ := h
  have marks : ∀ d, isDigit d = false → c ≠ d := by
    rintro d hd rfl
    rw [hd] at hc
    cases hc
  rw [List.append_assoc, List.cons_append, ← readScalar_number negative hc, ← List.cons_append,
    ← List.append_assoc] at read
  cases negative with
  | true => exact readTree_token fuel rfl (by decide) read
  | false => exact readTree_token fuel rfl ⟨marks _ rfl, marks _ rfl, marks _ rfl⟩ read

/-- The text of a tree starts with a character that starts a value. -/
theorem write_head (st : Style) (depth : Nat) (j : Json τ) :
    ∃ c xs, write st depth j = ofChar c :: xs ∧ StartsValue c := by
  have number : ∀ {cs}, IsNumberText cs → ∃ c xs, (spell cs : List χ) = ofChar c :: xs ∧ StartsValue c := by
    rintro _ ⟨negative, c, ds, hc, rfl⟩
    cases negative with
    | true => exact ⟨'-', _, rfl, by decide, by decide, by decide, by decide⟩
    | false =>
      refine ⟨c, _, rfl, ?_, ?_, ?_, ?_⟩
      · rw [Bool.eq_false_iff]
        intro h
        simp only [isBlank, Bool.or_eq_true, decide_eq_true_eq] at h
        rcases h with ((rfl | rfl) | rfl) | rfl <;> cases hc
      · rintro rfl
        cases hc
      · rintro rfl
        cases hc
      · intro h
        rw [← Char.ofNat_toNat c, h] at hc
        exact absurd hc (by decide)
  cases j with
  | null => exact ⟨'n', _, rfl, by decide, by decide, by decide, by decide⟩
  | bool b =>
    cases b with
    | true => exact ⟨'t', _, rfl, by decide, by decide, by decide, by decide⟩
    | false => exact ⟨'f', _, rfl, by decide, by decide, by decide, by decide⟩
  | int i => exact number (isNumberText_int i)
  | float x =>
    cases x with
    | nan => exact ⟨'N', _, rfl, by decide, by decide, by decide, by decide⟩
    | infinite s =>
      cases s with
      | true => exact ⟨'-', _, rfl, by decide, by decide, by decide, by decide⟩
      | false => exact ⟨'I', _, rfl, by decide, by decide, by decide, by decide⟩
    | finite s m => exact number (isNumberText_float (x := .finite s m) rfl)
  | str s => exact ⟨'"', _, rfl, by decide, by decide, by decide, by decide⟩
  | arr xs =>
    rw [write, enclose]
    split
    · exact ⟨'[', _, rfl, by decide, by decide, by decide, by decide⟩
    · exact ⟨'[', _, rfl, by decide, by decide, by decide, by decide⟩
  | obj ms =>
    rw [write, enclose]
    split
    · exact ⟨'{', _, rfl, by decide, by decide, by decide, by decide⟩
    · exact ⟨'{', _, rfl, by decide, by decide, by decide, by decide⟩

/-! ### One step of the reader -/

omit [Texts τ χ] in
theorem after?_mark (c : Char) (xs : List χ) : after? c (ofChar c :: xs) = some xs := by
  rw [after?, face_ofChar, if_pos rfl]

omit [Texts τ χ] in
theorem after?_other {c d : Char} (h : d ≠ c) (xs : List χ) : after? c (ofChar d :: xs) = none := by
  rw [after?, face_ofChar, if_neg h]

theorem readTree_str {fuel : Nat} {xs rest name : List χ}
    (h : readString (xs.length + 1) xs = .ok (name, rest)) :
    readTree (fuel + 1) (ofChar '"' :: xs) = .ok ((.str (Texts.ofLetters name) : Json τ), rest) := by
  rw [readTree, face_ofChar]
  dsimp only
  rw [h]
  rfl

theorem readTree_arr {fuel : Nat} {xs ys after : List χ} {items : List (Json τ)} {c : Char}
    (hs : skip xs = ofChar c :: ys) (hc : c ≠ ']') (h : readItems fuel (ofChar c :: ys) = .ok (items, after)) :
    readTree (fuel + 1) (ofChar '[' :: xs) = .ok (.arr items, after) := by
  rw [readTree, face_ofChar]
  dsimp only
  rw [hs, after?_other hc]
  dsimp only
  rw [h]
  rfl

theorem readItems_last {fuel : Nat} {xs rest after : List χ} {x : Json τ}
    (h : readTree fuel xs = .ok (x, rest)) (hs : skip rest = ofChar ']' :: after) :
    readItems (fuel + 1) xs = .ok ([x], after) := by
  simp only [readItems, h, hs, after?_mark, bind, Except.bind, pure, Except.pure]

theorem readItems_more {fuel : Nat} {xs rest after final : List χ} {x : Json τ} {items : List (Json τ)}
    (h : readTree fuel xs = .ok (x, rest)) (hs : skip rest = ofChar ',' :: after)
    (hx : readItems fuel (skip after) = .ok (items, final)) :
    readItems (fuel + 1) xs = .ok (x :: items, final) := by
  have other : after? ']' (ofChar ',' :: after) = none := after?_other (by decide) after
  simp only [readItems, h, hs, hx, other, after?_mark, bind, Except.bind, pure, Except.pure]

theorem readTree_obj {fuel : Nat} {xs ys after : List χ} {ms : List (τ × Json τ)} {c : Char}
    (hs : skip xs = ofChar c :: ys) (hc : c ≠ '}') (h : readMembers fuel (ofChar c :: ys) = .ok (ms, after)) :
    readTree (fuel + 1) (ofChar '{' :: xs) = .ok (.obj ms, after) := by
  rw [readTree, face_ofChar]
  dsimp only
  rw [hs, after?_other hc]
  dsimp only
  rw [h]
  rfl

section Member

variable {fuel : Nat} {xs rest₁ rest₂ rest₃ after final name : List χ} {v : Json τ}
  {ms : List (τ × Json τ)} (hn : ∀ n, readString n xs = .ok (name, rest₁))
  (hc : skip rest₁ = ofChar ':' :: rest₂) (hv : readTree fuel (skip rest₂) = .ok (v, rest₃))

include hn hc hv

theorem readMembers_last (hs : skip rest₃ = ofChar '}' :: after) :
    readMembers (fuel + 1) (ofChar '"' :: xs) = .ok ([(Texts.ofLetters name, v)], after) := by
  simp only [readMembers, hn, hc, hv, hs, after?_mark, bind, Except.bind, pure, Except.pure]

theorem readMembers_more (hs : skip rest₃ = ofChar ',' :: after)
    (hm : readMembers fuel (skip after) = .ok (ms, final)) :
    readMembers (fuel + 1) (ofChar '"' :: xs) = .ok ((Texts.ofLetters name, v) :: ms, final) := by
  have other : after? '}' (ofChar ',' :: after) = none := after?_other (by decide) after
  simp only [readMembers, hn, hc, hv, hs, hm, other, after?_mark, bind, Except.bind, pure, Except.pure]

end Member

/-! ### Whole trees -/

/-- The texts of items, joined. -/
def itemsText (st : Style) (depth : Nat) (xs : List (Json τ)) : List χ :=
  (spell (st.comma ++ lineBreak st depth)).intercalate (writeItems st depth xs)

/-- The texts of members, joined. -/
def membersText (st : Style) (depth : Nat) (ms : List (τ × Json τ)) : List χ :=
  (spell (st.comma ++ lineBreak st depth)).intercalate (writeMembers st depth ms)

theorem itemsText_singleton (st : Style) (depth : Nat) (x : Json τ) :
    itemsText st depth [x] = write st depth x := List.intercalate_singleton

theorem itemsText_cons_cons (st : Style) (depth : Nat) (x y : Json τ) (ys : List (Json τ)) :
    itemsText st depth (x :: y :: ys) =
      write st depth x ++ spell (st.comma ++ lineBreak st depth) ++ itemsText st depth (y :: ys) :=
  List.intercalate_cons_cons

/-- The text of one member. -/
def memberText (st : Style) (depth : Nat) (m : τ × Json τ) : List χ :=
  writeString st.escapeAll m.1 ++ spell st.colon ++ write st depth m.2

theorem membersText_singleton (st : Style) (depth : Nat) (m : τ × Json τ) :
    membersText st depth [m] = memberText st depth m := List.intercalate_singleton

theorem membersText_cons_cons (st : Style) (depth : Nat) (m n : τ × Json τ) (ms : List (τ × Json τ)) :
    membersText st depth (m :: n :: ms) =
      memberText st depth m ++ spell (st.comma ++ lineBreak st depth) ++ membersText st depth (n :: ms) :=
  List.intercalate_cons_cons

theorem write_arr_cons (st : Style) (depth : Nat) (x : Json τ) (xs : List (Json τ)) :
    write st depth (.arr (x :: xs)) = ofChar '[' :: (spell (lineBreak st (depth + 1)) ++
      itemsText st (depth + 1) (x :: xs) ++ spell (lineBreak st depth) ++ [ofChar ']']) := rfl

theorem write_obj_cons (st : Style) (depth : Nat) (m : τ × Json τ) (ms : List (τ × Json τ)) :
    write st depth (.obj (m :: ms)) = ofChar '{' :: (spell (lineBreak st (depth + 1)) ++
      membersText st (depth + 1) (m :: ms) ++ spell (lineBreak st depth) ++ [ofChar '}']) := rfl

theorem itemsText_head (st : Style) (depth : Nat) (x : Json τ) (xs : List (Json τ)) :
    ∃ c cs, itemsText st depth (x :: xs) = ofChar c :: cs ∧ StartsValue c := by
  obtain ⟨c, cs, h, hc⟩ := write_head st depth x
  cases xs with
  | nil =>
    rw [itemsText_singleton, h]
    exact ⟨c, cs, rfl, hc⟩
  | cons y ys =>
    rw [itemsText_cons_cons, h]
    exact ⟨c, _, rfl, hc⟩

theorem membersText_head (st : Style) (depth : Nat) (m : τ × Json τ) (ms : List (τ × Json τ)) :
    ∃ cs, membersText st depth (m :: ms) = ofChar '"' :: cs := by
  cases ms with
  | nil =>
    rw [membersText_singleton]
    exact ⟨_, rfl⟩
  | cons n ms =>
    rw [membersText_cons_cons]
    exact ⟨_, rfl⟩

/-- Blanks before a text are skipped if the text starts with a character that is none. -/
theorem skip_append {bs : List Char} {text : List χ} (hb : Blanks bs)
    (ht : ∃ c xs, text = ofChar c :: xs ∧ isBlank c = false) (tail : List χ) :
    skip (spell bs ++ (text ++ tail)) = text ++ tail := by
  obtain ⟨c, cs, rfl, hc⟩ := ht
  exact skip_blanks hb hc _

theorem skip_write {bs : List Char} (hb : Blanks bs) (st : Style) (depth : Nat) (j : Json τ)
    (tail : List χ) : skip (spell bs ++ (write st depth j ++ tail)) = write st depth j ++ tail := by
  obtain ⟨c, cs, htext, hc⟩ := write_head st depth j
  exact skip_append hb ⟨c, cs, htext, hc.blank⟩ tail

/-- The text of a member is a string, a colon, blanks and the text of its value. -/
theorem exists_memberText {st : Style} (hst : st.Readable χ) (depth : Nat) (m : τ × Json τ) :
    ∃ cb, Blanks cb ∧ (∀ tail, memberText st depth m ++ tail =
      ofChar '"' :: ((Texts.letters m.1).flatMap (writeLetter st.escapeAll) ++ ofChar '"' :: ofChar ':' ::
        (spell cb ++ (write st depth m.2 ++ tail)))) := by
  obtain ⟨cb, hcolon, hcb⟩ := hst.colon
  refine ⟨cb, hcb, fun tail => ?_⟩
  have colon : (spell st.colon : List χ) = ofChar ':' :: spell cb := by
    rw [hcolon]
    rfl
  rw [memberText, writeString, colon]
  simp only [List.append_assoc, List.cons_append, List.nil_append]

/-- What stands behind a value in a collection does not go on with a number. -/
theorem startsWithout_closing {bs : List Char} (hb : Blanks bs) {c : Char} (hc : continuesNumber c = false)
    (rest : List χ) : StartsWithout continuesNumber (faces (spell bs ++ ofChar c :: rest)) := by
  have looks : faces (spell bs ++ ofChar c :: rest) = bs ++ c :: faces rest := by
    rw [faces_append, faces_spell, faces, List.map_cons, face_ofChar]
    rfl
  rw [looks]
  exact startsWithout_blanks hb hc _

theorem spell_comma {st : Style} {cb : List Char} (h : st.comma = ',' :: cb) (bs : List Char) :
    (spell (st.comma ++ bs) : List χ) = ofChar ',' :: spell (cb ++ bs) := by
  rw [h]
  rfl

mutual

/-- **A written tree reads back.** -/
theorem readTree_write {st : Style} (hst : st.Readable χ) : ∀ (j : Json τ) (depth fuel : Nat) (rest : List χ),
    Short j → StartsWithout continuesNumber (faces rest) → (write st depth j).length < fuel →
      readTree fuel (write st depth j ++ rest) = .ok (j, rest)
  | _, _, 0, _, _, _, hf => absurd hf (Nat.not_lt_zero _)
  | .null, _, fuel + 1, _, _, _, _ => readTree_token fuel (c := 'n') rfl (by decide) rfl
  | .bool true, _, fuel + 1, _, _, _, _ => readTree_token fuel (c := 't') rfl (by decide) rfl
  | .bool false, _, fuel + 1, _, _, _, _ => readTree_token fuel (c := 'f') rfl (by decide) rfl
  | .int i, _, fuel + 1, rest, hj, hr, _ =>
    readTree_number fuel (isNumberText_int i) (readNumber_int hj hr)
  | .float x, _, fuel + 1, rest, hj, hr, _ => by
    cases x with
    | nan mark =>
      obtain rfl : mark = 0 := hj
      exact readTree_token fuel (c := 'N') rfl (by decide) rfl
    | infinite s =>
      cases s with
      | true => exact readTree_token fuel (c := '-') rfl (by decide) rfl
      | false => exact readTree_token fuel (c := 'I') rfl (by decide) rfl
    | finite s m =>
      have hx : (Double.finite s m).isFinite = true := rfl
      exact readTree_number fuel (isNumberText_float hx) (readNumber_float hx hr)
  | .str s, _, fuel + 1, rest, _, _, _ => by
    rw [write, writeString, List.cons_append, List.append_assoc, List.singleton_append,
      readTree_str (readString_write _ st.escapeAll hst.letters _ rest), Texts.ofLetters_letters]
  | .arr [], _, fuel + 1, rest, _, _, _ => by
    have closed : skip (ofChar ']' :: rest) = ofChar ']' :: rest :=
      skip_cons_of_not_isBlank (by rw [face_ofChar]; rfl)
    show readTree (fuel + 1) (ofChar '[' :: ofChar ']' :: rest) = _
    rw [readTree, face_ofChar]
    dsimp only
    rw [closed, after?_mark]
    rfl
  | .arr (x :: xs), depth, fuel + 1, rest, hj, _, hf => by
    obtain ⟨c, cs, htext, hc⟩ := itemsText_head st (depth + 1) x xs
    have length : (itemsText st (depth + 1) (x :: xs)).length + 2 ≤ fuel := by
      rw [write_arr_cons] at hf
      simp only [List.length_cons, List.length_append, List.length_nil] at hf
      omega
    have items := readItems_write hst (x :: xs) (depth + 1) fuel (lineBreak st depth) rest hj
      (List.cons_ne_nil _ _) (blanks_lineBreak st depth) length
    rw [write_arr_cons, List.cons_append, List.append_assoc, List.append_assoc, List.append_assoc,
      List.singleton_append, htext]
    rw [htext] at items
    exact readTree_arr (skip_blanks (blanks_lineBreak st (depth + 1)) hc.blank _) hc.bracket items
  | .obj [], _, fuel + 1, rest, _, _, _ => by
    have closed : skip (ofChar '}' :: rest) = ofChar '}' :: rest :=
      skip_cons_of_not_isBlank (by rw [face_ofChar]; rfl)
    show readTree (fuel + 1) (ofChar '{' :: ofChar '}' :: rest) = _
    rw [readTree, face_ofChar]
    dsimp only
    rw [closed, after?_mark]
    rfl
  | .obj (m :: ms), depth, fuel + 1, rest, hj, _, hf => by
    obtain ⟨cs, htext⟩ := membersText_head st (depth + 1) m ms
    have length : (membersText st (depth + 1) (m :: ms)).length + 2 ≤ fuel := by
      rw [write_obj_cons] at hf
      simp only [List.length_cons, List.length_append, List.length_nil] at hf
      omega
    have members := readMembers_write hst (m :: ms) (depth + 1) fuel (lineBreak st depth) rest hj
      (List.cons_ne_nil _ _) (blanks_lineBreak st depth) length
    rw [write_obj_cons, List.cons_append, List.append_assoc, List.append_assoc, List.append_assoc,
      List.singleton_append, htext]
    rw [htext] at members
    exact readTree_obj (skip_blanks (blanks_lineBreak st (depth + 1)) rfl _) (by decide) members

theorem readItems_write {st : Style} (hst : st.Readable χ) : ∀ (xs : List (Json τ)) (depth fuel : Nat)
    (bs : List Char) (rest : List χ), ShortItems xs → xs ≠ [] → Blanks bs →
      (itemsText st depth xs).length + 2 ≤ fuel →
        readItems fuel (itemsText st depth xs ++ (spell bs ++ ofChar ']' :: rest)) = .ok (xs, rest)
  | [], _, _, _, _, _, hne, _, _ => absurd rfl hne
  | _ :: _, _, 0, _, _, _, _, _, hf => absurd hf (by omega)
  | [x], depth, fuel + 1, bs, rest, hx, _, hb, hf => by
    rw [itemsText_singleton] at hf ⊢
    exact readItems_last (readTree_write hst x depth fuel _ hx.1 (startsWithout_closing hb rfl rest) (by omega))
      (skip_blanks hb rfl rest)
  | x :: y :: ys, depth, fuel + 1, bs, rest, hx, _, hb, hf => by
    obtain ⟨cb, hcomma, hcb⟩ := hst.comma
    obtain ⟨c, cs, htext, hc⟩ := itemsText_head st depth y ys
    rw [itemsText_cons_cons, spell_comma hcomma] at hf ⊢
    simp only [List.length_append, List.length_cons] at hf
    simp only [List.append_assoc, List.cons_append]
    refine readItems_more (readTree_write hst x depth fuel _ hx.1 ?_ (by omega))
      (skip_cons_of_not_isBlank (by rw [face_ofChar]; rfl)) ?_
    · exact startsWithout_closing blanks_nil rfl _
    · rw [skip_append (hcb.append (blanks_lineBreak st depth)) ⟨c, cs, htext, hc.blank⟩]
      exact readItems_write hst (y :: ys) depth fuel bs rest hx.2 (List.cons_ne_nil _ _) hb (by omega)

theorem readMembers_write {st : Style} (hst : st.Readable χ) : ∀ (ms : List (τ × Json τ)) (depth fuel : Nat)
    (bs : List Char) (rest : List χ), ShortMembers ms → ms ≠ [] → Blanks bs →
      (membersText st depth ms).length + 2 ≤ fuel →
        readMembers fuel (membersText st depth ms ++ (spell bs ++ ofChar '}' :: rest)) = .ok (ms, rest)
  | [], _, _, _, _, _, hne, _, _ => absurd rfl hne
  | _ :: _, _, 0, _, _, _, _, _, hf => absurd hf (by omega)
  | [(k, v)], depth, fuel + 1, bs, rest, hm, _, hb, hf => by
    obtain ⟨cb, hcb, htext⟩ := exists_memberText hst depth (k, v)
    rw [membersText_singleton] at hf ⊢
    have length : (write st depth v).length < fuel := by
      rw [memberText] at hf
      simp only [List.length_append] at hf
      omega
    have value : readTree fuel (skip (spell cb ++ (write st depth v ++ (spell bs ++ ofChar '}' :: rest)))) =
        .ok (v, spell bs ++ ofChar '}' :: rest) := by
      rw [skip_write hcb]
      exact readTree_write hst v depth fuel _ hm.1 (startsWithout_closing hb rfl rest) length
    have member := readMembers_last (fun n => readString_write n st.escapeAll hst.letters (Texts.letters k) _)
      (skip_cons_of_not_isBlank (by rw [face_ofChar]; rfl)) value (skip_blanks hb rfl rest)
    rw [Texts.ofLetters_letters] at member
    rw [htext]
    exact member
  | (k, v) :: n :: ms, depth, fuel + 1, bs, rest, hm, _, hb, hf => by
    obtain ⟨cb, hcb, htext⟩ := exists_memberText hst depth (k, v)
    obtain ⟨bb, hcomma, hbb⟩ := hst.comma
    obtain ⟨cs, hnext⟩ := membersText_head st depth n ms
    rw [membersText_cons_cons, spell_comma hcomma] at hf ⊢
    simp only [List.length_append, List.length_cons] at hf
    have length : (write st depth v).length < fuel := by
      rw [memberText] at hf
      simp only [List.length_append] at hf
      omega
    have value : readTree fuel (skip (spell cb ++ (write st depth v ++ ofChar ',' ::
        (spell (bb ++ lineBreak st depth) ++ (membersText st depth (n :: ms) ++
          (spell bs ++ ofChar '}' :: rest)))))) =
          .ok (v, ofChar ',' :: (spell (bb ++ lineBreak st depth) ++
            (membersText st depth (n :: ms) ++ (spell bs ++ ofChar '}' :: rest)))) := by
      rw [skip_write hcb]
      exact readTree_write hst v depth fuel _ hm.1 (startsWithout_closing blanks_nil rfl _) length
    have others : readMembers fuel (skip (spell (bb ++ lineBreak st depth) ++
        (membersText st depth (n :: ms) ++ (spell bs ++ ofChar '}' :: rest)))) = .ok (n :: ms, rest) := by
      rw [skip_append (hbb.append (blanks_lineBreak st depth)) ⟨'"', cs, hnext, rfl⟩]
      exact readMembers_write hst (n :: ms) depth fuel bs rest hm.2 (List.cons_ne_nil _ _) hb (by omega)
    have member := readMembers_more (fun n => readString_write n st.escapeAll hst.letters (Texts.letters k) _)
      (skip_cons_of_not_isBlank (by rw [face_ofChar]; rfl)) value
      (skip_cons_of_not_isBlank (by rw [face_ofChar]; rfl)) others
    rw [Texts.ofLetters_letters] at member
    simp only [List.append_assoc, List.cons_append]
    rw [htext]
    exact member

end

/-- **The text of a tree is read as the tree**, whatever depth it was written for. -/
theorem parseChars_write_at {st : Style} (hst : st.Readable χ) (depth : Nat) {j : Json τ} (hj : Short j) :
    parseChars (write st depth j) = .ok j := by
  obtain ⟨c, cs, htext, hc⟩ := write_head st depth j
  have read := readTree_write hst j depth ((write st depth j).length + 1) [] hj (fun d hd => by cases hd)
    (Nat.lt_succ_self _)
  rw [List.append_nil] at read
  have skipped : skip (write st depth j) = write st depth j := by
    rw [htext]
    exact skip_cons_of_not_isBlank (by rw [face_ofChar, hc.blank])
  rw [parseChars, skipped]
  dsimp only
  rw [read, htext]
  dsimp only
  rw [if_neg (by rw [face_ofChar]; exact hc.mark)]
  rfl

theorem parseChars_write {st : Style} (hst : st.Readable χ) {j : Json τ} (hj : Short j) :
    parseChars (write st 0 j) = .ok j := parseChars_write_at hst 0 hj

theorem readable_compact : Style.compact.Readable χ :=
  ⟨⟨[], rfl, fun _ h => by cases h⟩, ⟨[], rfl, fun _ h => by cases h⟩, fun h => by cases h⟩

/-- **Two trees with the same text are the same.** -/
theorem write_injective {st : Style} (hst : st.Readable χ) {i j : Json τ} (hi : Short i) (hj : Short j)
    (h : write st 0 i = write st 0 j) : i = j := by
  have read := parseChars_write hst hi
  rw [h, parseChars_write hst hj] at read
  exact (Except.ok.inj read).symm

end Assay.Json
