import Assay.Proofs.Json.Tree

/-!
# Strict texts

The grammar of JSON knows no words for floats that are not finite, wants a digit on either side of a point,
and escapes what may not stand inside a string.  It is stated here on its own, apart from reader and writer.

* `IsValue` — the texts of the grammar;
* `FloatsFinite` — a tree without floats that the grammar cannot say;
* `isValue_write` — the text of such a tree is one of the grammar, in every style and at every depth;
* `ascii_write` — in a style that escapes, it is made of ASCII characters.
-/

namespace Assay.Json

open Assay.Text

/-! ### The grammar -/

/-- At least one digit. -/
def Digits (cs : List Char) : Prop := cs ≠ [] ∧ ∀ c ∈ cs, isDigit c = true

/-- A zero alone, or digits that start with another one. -/
inductive IsWhole : List Char → Prop
  | zero : IsWhole ['0']
  | digits {c : Char} {cs : List Char} (h0 : c ≠ '0') (hd : Digits (c :: cs)) : IsWhole (c :: cs)

/-- Nothing, or digits after a point. -/
inductive IsFraction : List Char → Prop
  | nothing : IsFraction []
  | point {ds : List Char} (h : Digits ds) : IsFraction ('.' :: ds)

/-- Nothing, or digits after the mark of an exponent, perhaps with a sign. -/
inductive IsExponent : List Char → Prop
  | nothing : IsExponent []
  | marked {m : Char} {sign ds : List Char} (hm : m = 'e' ∨ m = 'E')
      (hs : sign = [] ∨ sign = ['+'] ∨ sign = ['-']) (h : Digits ds) : IsExponent (m :: (sign ++ ds))

/-- A number. -/
inductive IsNumber : List Char → Prop
  | parts (negative : Bool) {whole fraction exponent : List Char} (hw : IsWhole whole)
      (hf : IsFraction fraction) (he : IsExponent exponent) :
      IsNumber (signChars negative ++ (whole ++ (fraction ++ exponent)))

/-- A character of a string: itself, an escape of one letter, or an escape of four hexadecimal digits. -/
inductive IsUnit : List Char → Prop
  | plain {c : Char} (hm : c ≠ '"') (hb : c ≠ '\\') (hc : 32 ≤ c.toNat) : IsUnit [c]
  | letter {l : Char} (h : l ∈ ['"', '\\', '/', 'b', 'f', 'n', 'r', 't']) : IsUnit ['\\', l]
  | code {a b c d : Char} (h : ∀ x ∈ [a, b, c, d], (hexDigit? x).isSome = true) :
      IsUnit ['\\', 'u', a, b, c, d]

/-- What stands between the marks of a string. -/
inductive IsBody : List Char → Prop
  | nil : IsBody []
  | cons {u cs : List Char} (hu : IsUnit u) (h : IsBody cs) : IsBody (u ++ cs)

/-- A string. -/
inductive IsString : List Char → Prop
  | marks {cs : List Char} (h : IsBody cs) : IsString ('"' :: (cs ++ ['"']))

mutual

/-- A value. -/
inductive IsValue : List Char → Prop
  | null : IsValue ['n', 'u', 'l', 'l']
  | yes : IsValue ['t', 'r', 'u', 'e']
  | no : IsValue ['f', 'a', 'l', 's', 'e']
  | number {cs : List Char} (h : IsNumber cs) : IsValue cs
  | string {cs : List Char} (h : IsString cs) : IsValue cs
  | noItems {bs : List Char} (hb : Blanks bs) : IsValue ('[' :: (bs ++ [']']))
  | items {cs : List Char} (h : IsItems cs) : IsValue ('[' :: (cs ++ [']']))
  | noMembers {bs : List Char} (hb : Blanks bs) : IsValue ('{' :: (bs ++ ['}']))
  | members {cs : List Char} (h : IsMembers cs) : IsValue ('{' :: (cs ++ ['}']))

/-- Values with commas between them. -/
inductive IsItems : List Char → Prop
  | one {bs cs es : List Char} (hb : Blanks bs) (h : IsValue cs) (he : Blanks es) :
      IsItems (bs ++ (cs ++ es))
  | more {bs cs es rest : List Char} (hb : Blanks bs) (h : IsValue cs) (he : Blanks es)
      (hr : IsItems rest) : IsItems (bs ++ (cs ++ (es ++ ',' :: rest)))

/-- A string, a colon and a value. -/
inductive IsMember : List Char → Prop
  | named {name bs es cs : List Char} (hn : IsString name) (hb : Blanks bs) (he : Blanks es)
      (h : IsValue cs) : IsMember (name ++ (bs ++ ':' :: (es ++ cs)))

/-- Members with commas between them. -/
inductive IsMembers : List Char → Prop
  | one {bs cs es : List Char} (hb : Blanks bs) (h : IsMember cs) (he : Blanks es) :
      IsMembers (bs ++ (cs ++ es))
  | more {bs cs es rest : List Char} (hb : Blanks bs) (h : IsMember cs) (he : Blanks es)
      (hr : IsMembers rest) : IsMembers (bs ++ (cs ++ (es ++ ',' :: rest)))

end

/-! ### Trees that the grammar can say -/

mutual

/-- No float of the tree is not-a-number or an infinity. -/
def FloatsFinite : Json → Prop
  | .float x => x.isFinite = true
  | .arr xs => ItemsFinite xs
  | .obj ms => MembersFinite ms
  | _ => True

/-- No item of a sequence has such a float. -/
def ItemsFinite : List Json → Prop
  | [] => True
  | x :: xs => FloatsFinite x ∧ ItemsFinite xs

/-- No member of an object has such a float. -/
def MembersFinite : List (String × Json) → Prop
  | [] => True
  | (_, v) :: ms => FloatsFinite v ∧ MembersFinite ms

end

/-! ### Numbers -/

theorem isWhole_of_valid {p : Parts} (hp : p.Valid) : IsWhole p.whole := by
  rcases hp.whole with h | ⟨c, cs, h, h0, hd⟩
  · rw [h]
    exact .zero
  · rw [h]
    exact .digits h0 ⟨List.cons_ne_nil c cs, hd⟩

/-- A numeral in valid parts is a number, with or without a minus sign. -/
theorem isNumber_of_valid {p : Parts} (hp : p.Valid) (negative : Bool) :
    IsNumber (signChars negative ++ p.chars) := by
  have fraction : IsFraction (if p.part = [] then [] else '.' :: p.part) := by
    by_cases h : p.part = []
    · rw [if_pos h]
      exact .nothing
    · rw [if_neg h]
      exact .point ⟨h, hp.part⟩
  have exponent : IsExponent (p.exponent.elim [] fun e => 'e' :: Layout.exponentText e) := by
    cases p.exponent with
    | none => exact .nothing
    | some e =>
      obtain ⟨ds, hds, hne, hd, -⟩ := exists_exponentText e
      show IsExponent ('e' :: Layout.exponentText e)
      have sign : [if e < 0 then '-' else '+'] = ['+'] ∨ [if e < 0 then '-' else '+'] = ['-'] := by
        by_cases he : e < 0 <;> simp [he]
      have marked : IsExponent ('e' :: ([if e < 0 then '-' else '+'] ++ ds)) :=
        .marked (Or.inl rfl) (Or.inr sign) ⟨hne, hd⟩
      rw [hds]
      exact marked
  exact .parts negative (isWhole_of_valid hp) fraction exponent

theorem isNumber_int (i : Int) : IsNumber (toString i).toList := by
  have number := isNumber_of_valid (toDigits_valid i.natAbs) (decide (i < 0))
  rwa [Parts.chars, if_pos rfl, List.nil_append, Option.elim_none, List.append_nil,
    ← toList_toString] at number

theorem isNumber_float {x : Double} (hx : x.isFinite = true) : IsNumber (Layout.json.chars x) := by
  cases x with
  | nan => cases hx
  | infinite s => cases hx
  | finite s m =>
    obtain ⟨p, hp, -, hchars⟩ := exists_parts_chars s m
    rw [hchars]
    exact isNumber_of_valid hp s

/-! ### Strings -/

theorem IsBody.append {as bs : List Char} (ha : IsBody as) (hb : IsBody bs) : IsBody (as ++ bs) := by
  induction ha with
  | nil => exact hb
  | cons hu _ ih =>
    rw [List.append_assoc]
    exact .cons hu ih

theorem IsUnit.body {u : List Char} (h : IsUnit u) : IsBody u := by
  have body : IsBody (u ++ []) := .cons h .nil
  rwa [List.append_nil] at body

/-- An escape of a code unit has four hexadecimal digits. -/
theorem exists_hexDigits {n : Nat} (h : n < 0x10000) : ∃ a b c d, unitEscape n = ['\\', 'u', a, b, c, d] ∧
    ∀ x ∈ [a, b, c, d], (hexDigit? x).isSome = true := by
  obtain ⟨a, b, c, d, digits, value⟩ := exists_hex (χ := Char) h
  refine ⟨a, b, c, d, by rw [unitEscape, digits], ?_⟩
  cases ha : hexDigit? a <;> cases hb : hexDigit? b <;> cases hc : hexDigit? c <;>
    cases hd : hexDigit? d <;> simp [hex4?, ha, hb, hc, hd] at value ⊢

theorem isBody_unitEscape {n : Nat} (h : n < 0x10000) : IsBody (unitEscape n) := by
  obtain ⟨a, b, c, d, escape, digits⟩ := exists_hexDigits h
  rw [escape]
  exact (IsUnit.code digits).body

/-- The halves of a character past the first plane are code units. -/
theorem halves_lt (c : Char) : 0xD800 + (c.toNat - 0x10000) / 0x400 < 0x10000 ∧
    0xDC00 + (c.toNat - 0x10000) % 0x400 < 0x10000 := by
  have valid := Letter.toNat_valid c
  omega

theorem isBody_escapes (c : Char) : IsBody (escapes c.toNat) := by
  unfold escapes
  split
  · exact isBody_unitEscape (by assumption)
  · obtain ⟨high, low⟩ := halves_lt c
    exact (isBody_unitEscape high).append (isBody_unitEscape low)

theorem isBody_writeLetter (escapeAll : Bool) (c : Char) : IsBody (writeLetter escapeAll c) := by
  have letter {l : Char} (h : l ∈ ['"', '\\', '/', 'b', 'f', 'n', 'r', 't']) : IsBody ['\\', l] :=
    (IsUnit.letter h).body
  unfold writeLetter
  simp only [Letter.spell_char]
  iterate 7
    split
    · exact letter (by decide)
  split
  · exact isBody_unitEscape (by omega)
  split
  · exact isBody_escapes c
  · rename_i hm hb _ _ _ _ _ hc _
    exact (IsUnit.plain hm hb (Nat.not_lt.1 hc)).body

theorem isString_writeString (escapeAll : Bool) (s : String) : IsString (writeString escapeAll s) := by
  refine .marks ?_
  induction Texts.letters s with
  | nil => exact .nil
  | cons c cs ih =>
    rw [List.flatMap_cons]
    exact (isBody_writeLetter escapeAll c).append ih

/-! ### Trees -/

theorem isMember_memberText {st : Style} (hst : st.Readable) {depth : Nat} {m : String × Json}
    (h : IsValue (write st depth m.2)) : IsMember (memberText st depth m) := by
  obtain ⟨cb, hcolon, hcb⟩ := hst.colon
  have member := IsMember.named (isString_writeString st.escapeAll m.1) blanks_nil hcb h
  rw [memberText, Letter.spell_char, hcolon, List.append_assoc]
  exact member

mutual

/-- **The text of a tree with finite floats is one of the grammar.** -/
theorem isValue_write {st : Style} (hst : st.Readable) : ∀ (j : Json) (depth : Nat),
    j.FloatsFinite → IsValue (write st depth j)
  | .null, _, _ => .null
  | .bool true, _, _ => .yes
  | .bool false, _, _ => .no
  | .int i, _, _ => by
    rw [write, Letter.spell_char]
    exact .number (isNumber_int i)
  | .float _, _, hx => by
    rw [write, Letter.spell_char]
    exact .number (isNumber_float hx)
  | .str s, _, _ => .string (isString_writeString st.escapeAll s)
  | .arr [], _, _ => .noItems blanks_nil
  | .arr (x :: xs), depth, hx => by
    have items := isItems_itemsText hst (x :: xs) (depth + 1) hx (List.cons_ne_nil _ _)
      (blanks_lineBreak st (depth + 1)) (blanks_lineBreak st depth)
    rw [write_arr_cons, Letter.spell_char, Letter.spell_char, List.append_assoc (lineBreak st (depth + 1))]
    exact .items items
  | .obj [], _, _ => .noMembers blanks_nil
  | .obj (m :: ms), depth, hm => by
    have members := isMembers_membersText hst (m :: ms) (depth + 1) hm (List.cons_ne_nil _ _)
      (blanks_lineBreak st (depth + 1)) (blanks_lineBreak st depth)
    rw [write_obj_cons, Letter.spell_char, Letter.spell_char, List.append_assoc (lineBreak st (depth + 1))]
    exact .members members

theorem isItems_itemsText {st : Style} (hst : st.Readable) : ∀ (xs : List Json) (depth : Nat)
    {bs es : List Char}, ItemsFinite xs → xs ≠ [] → Blanks bs → Blanks es →
      IsItems (bs ++ (itemsText st depth xs ++ es))
  | [], _, _, _, _, hne, _, _ => absurd rfl hne
  | [x], depth, _, _, hx, _, hb, he => by
    rw [itemsText_singleton]
    exact .one hb (isValue_write hst x depth hx.1) he
  | x :: y :: ys, depth, bs, es, hx, _, hb, he => by
    obtain ⟨cb, hcomma, hcb⟩ := hst.comma
    have rest := isItems_itemsText hst (y :: ys) depth hx.2 (List.cons_ne_nil _ _)
      (hcb.append (blanks_lineBreak st depth)) he
    have items := IsItems.more hb (isValue_write hst x depth hx.1) blanks_nil rest
    rw [itemsText_cons_cons, Letter.spell_char, hcomma]
    simpa only [List.append_assoc, List.cons_append, List.nil_append] using items

theorem isMembers_membersText {st : Style} (hst : st.Readable) : ∀ (ms : List (String × Json))
    (depth : Nat) {bs es : List Char}, MembersFinite ms → ms ≠ [] → Blanks bs → Blanks es →
      IsMembers (bs ++ (membersText st depth ms ++ es))
  | [], _, _, _, _, hne, _, _ => absurd rfl hne
  | [(k, v)], depth, _, _, hm, _, hb, he => by
    rw [membersText_singleton]
    exact .one hb (isMember_memberText hst (isValue_write hst v depth hm.1)) he
  | (k, v) :: n :: ms, depth, bs, es, hm, _, hb, he => by
    obtain ⟨cb, hcomma, hcb⟩ := hst.comma
    have member : IsMember (memberText st depth (k, v)) :=
      isMember_memberText hst (isValue_write hst v depth hm.1)
    have rest := isMembers_membersText hst (n :: ms) depth hm.2 (List.cons_ne_nil _ _)
      (hcb.append (blanks_lineBreak st depth)) he
    have members := IsMembers.more hb member blanks_nil rest
    rw [membersText_cons_cons, Letter.spell_char, hcomma]
    simpa only [List.append_assoc, List.cons_append, List.nil_append] using members

end

/-! ### ASCII -/

/-- ASCII characters only. -/
def Ascii (cs : List Char) : Prop := ∀ c ∈ cs, c.toNat < 128

theorem Ascii.append {as bs : List Char} (ha : Ascii as) (hb : Ascii bs) : Ascii (as ++ bs) :=
  List.forall_mem_append.2 ⟨ha, hb⟩

theorem Ascii.cons {c : Char} {cs : List Char} (hc : c.toNat < 128) (h : Ascii cs) : Ascii (c :: cs) :=
  List.forall_mem_cons.2 ⟨hc, h⟩

theorem ascii_of_digits {ds : List Char} (h : ∀ d ∈ ds, isDigit d = true) : Ascii ds := by
  intro d hd
  have digit := h d hd
  simp only [isDigit, Bool.and_eq_true, decide_eq_true_eq] at digit
  exact Nat.lt_of_le_of_lt digit.2 (by decide)

theorem ascii_of_hexDigit {c : Char} (h : (hexDigit? c).isSome = true) : c.toNat < 128 := by
  unfold hexDigit? at h
  split at h
  · rename_i hc
    exact Nat.lt_of_le_of_lt hc.2 (by decide)
  split at h
  · rename_i hc
    exact Nat.lt_of_le_of_lt hc.2 (by decide)
  split at h
  · rename_i hc
    exact Nat.lt_of_le_of_lt hc.2 (by decide)
  · cases h

theorem ascii_signChars (negative : Bool) : Ascii (signChars negative) := by
  cases negative <;> simp [signChars, Ascii]

/-- A number is made of ASCII characters. -/
theorem IsNumber.ascii {cs : List Char} (h : IsNumber cs) : Ascii cs := by
  obtain ⟨negative, hw, hf, he⟩ := h
  refine (ascii_signChars negative).append (Ascii.append ?_ (Ascii.append ?_ ?_))
  · cases hw with
    | zero => exact ascii_of_digits (List.forall_mem_singleton.2 rfl)
    | digits _ hd => exact ascii_of_digits hd.2
  · cases hf with
    | nothing => exact nofun
    | point hd => exact .cons (by decide) (ascii_of_digits hd.2)
  · cases he with
    | nothing => exact nofun
    | marked hm hs hd =>
      refine .cons ?_ (Ascii.append ?_ (ascii_of_digits hd.2))
      · rcases hm with rfl | rfl <;> decide
      · rcases hs with rfl | rfl | rfl <;> simp [Ascii]

theorem ascii_unitEscape {n : Nat} (h : n < 0x10000) : Ascii (unitEscape n) := by
  obtain ⟨a, b, c, d, escape, digits⟩ := exists_hexDigits h
  rw [escape]
  exact .cons (by decide) (.cons (by decide) fun x hx => ascii_of_hexDigit (digits x hx))

theorem ascii_escapes (c : Char) : Ascii (escapes c.toNat) := by
  unfold escapes
  split
  · exact ascii_unitEscape (by assumption)
  · obtain ⟨high, low⟩ := halves_lt c
    exact (ascii_unitEscape high).append (ascii_unitEscape low)

/-- Under escaping, every character is told by ASCII characters. -/
theorem ascii_writeLetter (c : Char) : Ascii (writeLetter true c) := by
  unfold writeLetter
  simp only [Letter.spell_char, Letter.face_char]
  iterate 7
    split
    · simp [Ascii]
  split
  · exact ascii_unitEscape (by omega)
  split
  · exact ascii_escapes c
  · rename_i h
    simp only [Bool.true_and, decide_eq_true_eq] at h
    exact .cons (by omega) nofun

theorem ascii_writeString (s : String) : Ascii (writeString true s) := by
  refine .cons (by decide) (Ascii.append ?_ (.cons (by decide) nofun))
  intro c hc
  obtain ⟨d, -, hd⟩ := List.mem_flatMap.1 hc
  exact ascii_writeLetter d c hd

theorem ascii_lineBreak (st : Style) (depth : Nat) : Ascii (lineBreak st depth) := by
  intro c hc
  have blank := blanks_lineBreak st depth c hc
  simp only [isBlank, Bool.or_eq_true, decide_eq_true_eq] at blank
  rcases blank with ((rfl | rfl) | rfl) | rfl <;> decide

/-- What is joined is made of the parts and of what stands between them. -/
theorem ascii_intercalate {sep : List Char} {parts : List (List Char)} (hs : Ascii sep)
    (hp : ∀ p ∈ parts, Ascii p) : Ascii (sep.intercalate parts) := by
  induction parts with
  | nil => exact nofun
  | cons p parts ih =>
    rw [List.forall_mem_cons] at hp
    cases parts with
    | nil =>
      rw [List.intercalate_singleton]
      exact hp.1
    | cons q parts =>
      rw [List.intercalate_cons_cons]
      exact (hp.1.append hs).append (ih hp.2)

/-- A style that escapes all characters outside ASCII, and adds none. -/
structure Style.Plain (st : Style) : Prop where
  comma : Ascii st.comma
  colon : Ascii st.colon
  escapeAll : st.escapeAll = true

theorem ascii_enclose {st : Style} (hst : st.Plain) (depth : Nat) {opening closing : Char}
    (ho : opening.toNat < 128) (hc : closing.toNat < 128) {parts : List (List Char)}
    (hp : ∀ p ∈ parts, Ascii p) : Ascii (enclose st depth opening closing parts) := by
  unfold enclose
  simp only [Letter.spell_char]
  split
  · exact .cons ho (.cons hc nofun)
  · have joined := ascii_intercalate (hst.comma.append (ascii_lineBreak st (depth + 1))) hp
    exact .cons ho ((((ascii_lineBreak st (depth + 1)).append joined).append
      (ascii_lineBreak st depth)).append (.cons hc nofun))

mutual

/-- **Under escaping, the text of a tree with finite floats is made of ASCII characters.** -/
theorem ascii_write {st : Style} (hst : st.Plain) : ∀ (j : Json) (depth : Nat), j.FloatsFinite →
    Ascii (write st depth j)
  | .null, _, _ => by simp [write, Ascii]
  | .bool b, _, _ => by cases b <;> simp [write, Ascii]
  | .int i, _, _ => by
    rw [write, Letter.spell_char]
    exact (isNumber_int i).ascii
  | .float _, _, hx => by
    rw [write, Letter.spell_char]
    exact (isNumber_float hx).ascii
  | .str s, _, _ => by
    rw [write, hst.escapeAll]
    exact ascii_writeString s
  | .arr xs, depth, hx => by
    rw [write]
    exact ascii_enclose hst depth (by decide) (by decide) (ascii_writeItems hst xs (depth + 1) hx)
  | .obj ms, depth, hm => by
    rw [write]
    exact ascii_enclose hst depth (by decide) (by decide) (ascii_writeMembers hst ms (depth + 1) hm)

theorem ascii_writeItems {st : Style} (hst : st.Plain) : ∀ (xs : List Json) (depth : Nat),
    ItemsFinite xs → ∀ p ∈ writeItems st depth xs, Ascii p
  | [], _, _ => nofun
  | x :: xs, depth, hx => by
    rw [writeItems, List.forall_mem_cons]
    exact ⟨ascii_write hst x depth hx.1, ascii_writeItems hst xs depth hx.2⟩

theorem ascii_writeMembers {st : Style} (hst : st.Plain) : ∀ (ms : List (String × Json)) (depth : Nat),
    MembersFinite ms → ∀ p ∈ writeMembers st depth ms, Ascii p
  | [], _, _ => nofun
  | (k, v) :: ms, depth, hm => by
    rw [writeMembers, List.forall_mem_cons, hst.escapeAll, Letter.spell_char]
    exact ⟨((ascii_writeString k).append hst.colon).append (ascii_write hst v depth hm.1),
      ascii_writeMembers hst ms depth hm.2⟩

end

/-- The style of reports escapes. -/
theorem plain_indented : Style.indented.Plain :=
  ⟨by simp [Style.indented, Ascii], by simp [Style.indented, Ascii], rfl⟩

end Assay.Json
