import Mathlib.Data.List.TakeWhile
import PuppetInventory.Json.Reader

/-!
The written forms that JSON allows: blanks between tokens, escapes in strings, whole numbers, and
objects whose entries stand in a given order. The first of them, strings, are read back here.
-/

namespace PuppetInventory.Json

/-! Written forms -/

def IsBlanks (chars : List Char) : Prop :=
  ∀ c ∈ chars, c = ' ' ∨ c = '\n' ∨ c = '\t' ∨ c = '\r'

/-- A hexadecimal digit in either case. -/
def IsHexDigit (value : Nat) (c : Char) : Prop :=
  value < 16 ∧ (c = Nat.digitChar value ∨ c = (Nat.digitChar value).toUpper)

/-- The four digits behind `\u`. -/
inductive IsHexUnit : Nat → List Char → Prop where
  | intro {x y z w : Nat} {a b c d : Char} (hx : IsHexDigit x a) (hy : IsHexDigit y b)
      (hz : IsHexDigit z c) (hw : IsHexDigit w d) :
      IsHexUnit (((x * 16 + y) * 16 + z) * 16 + w) [a, b, c, d]

/-- The letters that may follow a backslash, and what they stand for. -/
def shortEscapes : List (Char × Char) :=
  [('"', '"'), ('\\', '\\'), ('/', '/'), ('b', Char.ofNat 8), ('f', Char.ofNat 12), ('n', '\n'),
    ('r', '\r'), ('t', '\t')]

/-- The written forms of a character inside a string. -/
inductive SpellsChar (c : Char) : List Char → Prop where
  | plain (hquote : c ≠ '"') (hbackslash : c ≠ '\\') (hcontrol : 32 ≤ c.toNat) : SpellsChar c [c]
  | short {letter : Char} (h : (letter, c) ∈ shortEscapes) : SpellsChar c ['\\', letter]
  | unit {digits : List Char} (h : IsHexUnit c.toNat digits) : SpellsChar c ('\\' :: 'u' :: digits)
  /-- A character beyond the basic plane, as a pair of surrogates. -/
  | pair {high low : List Char} (hlarge : 0x10000 ≤ c.toNat)
      (hhigh : IsHexUnit (0xD800 + (c.toNat - 0x10000) / 0x400) high)
      (hlow : IsHexUnit (0xDC00 + (c.toNat - 0x10000) % 0x400) low) :
      SpellsChar c ('\\' :: 'u' :: (high ++ '\\' :: 'u' :: low))

/-- The written forms of a text, without its quotes. -/
inductive SpellsText : List Char → List Char → Prop where
  | nil : SpellsText [] []
  | cons {c : Char} {text chars tail : List Char} (hchar : SpellsChar c chars)
      (htail : SpellsText text tail) : SpellsText (c :: text) (chars ++ tail)

/-- A member of an object, from the quote before its key to the blanks behind its value. -/
inductive SpellsMember {α : Type} (spells : α → List Char → Prop) :
    String × α → List Char → Prop where
  | intro {key : String} {value : α} {inner before after chars trailing : List Char}
      (hkey : SpellsText key.toList inner) (hbefore : IsBlanks before) (hafter : IsBlanks after)
      (hvalue : spells value chars) (htrailing : IsBlanks trailing) :
      SpellsMember spells (key, value)
        ('"' :: (inner ++ '"' :: (before ++ ':' :: (after ++ (chars ++ trailing)))))

/-- Members between commas, with blanks behind each comma. -/
inductive SpellsMembers {α : Type} (spells : α → List Char → Prop) :
    List (String × α) → List Char → Prop where
  | last {entry : String × α} {chars : List Char} (h : SpellsMember spells entry chars) :
    SpellsMembers spells [entry] chars
  | more {entry : String × α} {entries : List (String × α)} {chars blanks tail : List Char}
      (h : SpellsMember spells entry chars) (hblanks : IsBlanks blanks)
      (hrest : SpellsMembers spells entries tail) :
      SpellsMembers spells (entry :: entries) (chars ++ ',' :: (blanks ++ tail))

/-- An object with its entries in the order of the list, keys given twice included. -/
inductive SpellsObject {α : Type} (spells : α → List Char → Prop) :
    List (String × α) → List Char → Prop where
  | empty {blanks : List Char} (hblanks : IsBlanks blanks) :
    SpellsObject spells [] ('\x7b' :: (blanks ++ ['\x7d']))
  | filled {entries : List (String × α)} {blanks chars : List Char} (hblanks : IsBlanks blanks)
      (h : SpellsMembers spells entries chars) :
      SpellsObject spells entries ('\x7b' :: (blanks ++ (chars ++ ['\x7d'])))

/-! Blanks -/

theorem isBlanks_nil : IsBlanks [] :=
  fun _ h => absurd h List.not_mem_nil

theorem isBlank_of_isBlanks {blanks : List Char} (h : IsBlanks blanks) :
    ∀ c ∈ blanks, Cursor.isBlank c = true := by
  intro c hc
  rcases h c hc with rfl | rfl | rfl | rfl <;> rfl

theorem skipBlanks_append {blanks : List Char} (h : IsBlanks blanks) {c : Char}
    (hc : Cursor.isBlank c = false) (rest : List Char) (offset : Nat) :
    Cursor.skipBlanks ⟨blanks ++ c :: rest, offset⟩ = ⟨c :: rest, offset + byteLength blanks⟩ := by
  have hblanks := isBlank_of_isBlanks h
  have hstop : ¬Cursor.isBlank c = true := by
    rw [hc]
    exact Bool.false_ne_true
  rw [Cursor.skipBlanks, Cursor.skipWhile, List.dropWhile_append_of_pos hblanks,
    List.takeWhile_append_of_pos hblanks, List.dropWhile_cons_of_neg hstop,
    List.takeWhile_cons_of_neg hstop, List.append_nil]

theorem skipBlanks_of_isBlanks {blanks : List Char} (h : IsBlanks blanks) (offset : Nat) :
    Cursor.skipBlanks ⟨blanks, offset⟩ = ⟨[], offset + byteLength blanks⟩ := by
  have hblanks := isBlank_of_isBlanks h
  have hdrop : blanks.dropWhile Cursor.isBlank = [] := List.dropWhile_eq_nil_iff.2 hblanks
  have htake : blanks.takeWhile Cursor.isBlank = blanks := List.takeWhile_eq_self_iff.2 hblanks
  rw [Cursor.skipBlanks, Cursor.skipWhile, hdrop, htake]

/-! Strings -/

theorem length_le_byteLength (chars : List Char) : chars.length ≤ byteLength chars := by
  suffices h : ∀ size, size + chars.length ≤ chars.foldl (fun size c => size + c.utf8Size) size by
    simpa [byteLength] using h 0
  induction chars with
  | nil => exact fun size => Nat.le_refl size
  | cons c chars ih =>
    intro size
    have hsize := ih (size + c.utf8Size)
    have hpos := c.utf8Size_pos
    rw [List.length_cons, List.foldl_cons]
    omega

theorem hexValue?_digitChar : ∀ value < 16,
    hexValue? (Nat.digitChar value) = some value ∧
      hexValue? (Nat.digitChar value).toUpper = some value := by
  decide

theorem hexValue?_of_isHexDigit {value : Nat} {c : Char} (h : IsHexDigit value c) :
    hexValue? c = some value := by
  obtain ⟨hlt, rfl | rfl⟩ := h
  · exact (hexValue?_digitChar value hlt).1
  · exact (hexValue?_digitChar value hlt).2

theorem readHexUnit_append {unit : Nat} {digits : List Char} (h : IsHexUnit unit digits)
    (rest : List Char) (offset : Nat) :
    readHexUnit ⟨digits ++ rest, offset⟩ = .ok (unit, ⟨rest, offset + 4⟩) := by
  obtain @⟨x, y, z, w, a, b, c, d, hx, hy, hz, hw⟩ := h
  have hlong : ¬byteLength (a :: b :: c :: d :: rest) < 4 := by
    have hlength := length_le_byteLength (a :: b :: c :: d :: rest)
    simp only [List.length_cons] at hlength
    omega
  simp only [readHexUnit, List.cons_append, List.nil_append, if_neg hlong,
    hexValue?_of_isHexDigit hx, hexValue?_of_isHexDigit hy, hexValue?_of_isHexDigit hz,
    hexValue?_of_isHexDigit hw]

/-- No character lies among the surrogates. -/
theorem toNat_surrogate (c : Char) : c.toNat < 0xD800 ∨ 0xDFFF < c.toNat ∧ c.toNat < 0x110000 :=
  c.valid

theorem readUnicodeEscape_unit {c : Char} {digits : List Char} (h : IsHexUnit c.toNat digits)
    (rest : List Char) (offset : Nat) :
    readUnicodeEscape ⟨digits ++ rest, offset⟩ = .ok (c, ⟨rest, offset + 4⟩) := by
  have hvalid := toNat_surrogate c
  have hlow : ¬(0xDC00 ≤ c.toNat ∧ c.toNat ≤ 0xDFFF) := by omega
  have hbasic : c.toNat < 0xD800 ∨ 0xDBFF < c.toNat := by omega
  simp only [readUnicodeEscape, readHexUnit_append h, bind, Except.bind, if_neg hlow, if_pos hbasic,
    Char.ofNat_toNat]

theorem readUnicodeEscape_pair {c : Char} {high low : List Char} (hlarge : 0x10000 ≤ c.toNat)
    (hhigh : IsHexUnit (0xD800 + (c.toNat - 0x10000) / 0x400) high)
    (hlow : IsHexUnit (0xDC00 + (c.toNat - 0x10000) % 0x400) low) (rest : List Char)
    (offset : Nat) :
    ∃ offset', readUnicodeEscape ⟨high ++ '\\' :: 'u' :: (low ++ rest), offset⟩ =
      .ok (c, ⟨rest, offset'⟩) := by
  have hvalid := toNat_surrogate c
  have hpairs : c.toNat - 0x10000 < 0x100000 := by omega
  generalize hx : (c.toNat - 0x10000) / 0x400 = x at hhigh
  generalize hy : (c.toNat - 0x10000) % 0x400 = y at hlow
  have hnotLow : ¬(0xDC00 ≤ 0xD800 + x ∧ 0xD800 + x ≤ 0xDFFF) := by omega
  have hsurrogate : ¬(0xD800 + x < 0xD800 ∨ 0xDBFF < 0xD800 + x) := by omega
  have hsecond : ¬(0xDC00 + y < 0xDC00 ∨ 0xDFFF < 0xDC00 + y) := by omega
  have hchar : (0xD800 + x - 0xD800) * 0x400 + (0xDC00 + y - 0xDC00) + 0x10000 = c.toNat := by omega
  refine ⟨offset + 4 + '\\'.utf8Size + 'u'.utf8Size + 4, ?_⟩
  simp only [readUnicodeEscape, readHexUnit_append hhigh, bind, Except.bind, if_neg hnotLow,
    if_neg hsurrogate, readPairMark, if_true, Cursor.step, readHexUnit_append hlow, if_neg hsecond,
    hchar, Char.ofNat_toNat]

theorem simpleEscape?_of_mem : ∀ escape ∈ shortEscapes,
    escape.1 ≠ 'u' ∧ simpleEscape? escape.1 = some escape.2 := by
  decide

theorem readStringTail_plain {c : Char} (hquote : c ≠ '"') (hbackslash : c ≠ '\\')
    (hcontrol : 32 ≤ c.toNat) (fuel : Nat) (rest : List Char) (offset : Nat) :
    readStringTail (fuel + 1) ⟨c :: rest, offset⟩ =
      (readStringTail fuel ⟨rest, offset + c.utf8Size⟩).map fun read => (c :: read.1, read.2) := by
  have hplain : ¬c.toNat < 32 := by omega
  simp only [readStringTail, if_neg hquote, if_neg hbackslash, if_neg hplain, Cursor.step, bind,
    Except.bind]
  cases readStringTail fuel ⟨rest, offset + c.utf8Size⟩ <;> rfl

theorem readEscape_short {letter c : Char} (h : (letter, c) ∈ shortEscapes) (rest : List Char)
    (offset : Nat) :
    readEscape ⟨letter :: rest, offset⟩ = .ok (c, ⟨rest, offset + letter.utf8Size⟩) := by
  obtain ⟨hunicode, hescape⟩ := simpleEscape?_of_mem (letter, c) h
  simp only [readEscape, if_neg hunicode, hescape, Cursor.step]

theorem readEscape_unicode (chars : List Char) (offset : Nat) :
    readEscape ⟨'u' :: chars, offset⟩ = readUnicodeEscape ⟨chars, offset + 'u'.utf8Size⟩ :=
  rfl

theorem readStringTail_escape {c : Char} {chars rest : List Char} {offset offset' : Nat}
    (h : readEscape ⟨chars, offset + '\\'.utf8Size⟩ = .ok (c, ⟨rest, offset'⟩)) (fuel : Nat) :
    readStringTail (fuel + 1) ⟨'\\' :: chars, offset⟩ =
      (readStringTail fuel ⟨rest, offset'⟩).map fun read => (c :: read.1, read.2) := by
  have hquote : '\\' ≠ '"' := by decide
  simp only [readStringTail, if_neg hquote, if_true, Cursor.step, bind, Except.bind, h]
  cases readStringTail fuel ⟨rest, offset'⟩ <;> rfl

/-- A written character takes one step of the reader. -/
theorem readStringTail_char {c : Char} {chars : List Char} (h : SpellsChar c chars) (fuel : Nat)
    (rest : List Char) (offset : Nat) :
    ∃ offset', readStringTail (fuel + 1) ⟨chars ++ rest, offset⟩ =
      (readStringTail fuel ⟨rest, offset'⟩).map fun read => (c :: read.1, read.2) := by
  cases h with
  | plain hquote hbackslash hcontrol =>
    exact ⟨_, readStringTail_plain hquote hbackslash hcontrol fuel rest offset⟩
  | short h => exact ⟨_, readStringTail_escape (readEscape_short h rest _) fuel⟩
  | @unit digits h =>
    have hread := readUnicodeEscape_unit h rest (offset + '\\'.utf8Size + 'u'.utf8Size)
    exact ⟨_, readStringTail_escape ((readEscape_unicode _ _).trans hread) fuel⟩
  | @pair high low hlarge hhigh hlow =>
    obtain ⟨offset', hread⟩ :=
      readUnicodeEscape_pair hlarge hhigh hlow rest (offset + '\\'.utf8Size + 'u'.utf8Size)
    refine ⟨offset', ?_⟩
    rw [List.cons_append, List.cons_append, List.append_assoc]
    exact readStringTail_escape ((readEscape_unicode _ _).trans hread) fuel

theorem SpellsChar.length_pos {c : Char} {chars : List Char} (h : SpellsChar c chars) :
    0 < chars.length := by
  cases h <;> simp

theorem readStringTail_text {text chars : List Char} (h : SpellsText text chars) {fuel : Nat}
    (hfuel : chars.length < fuel) (rest : List Char) (offset : Nat) :
    ∃ offset', readStringTail fuel ⟨chars ++ '"' :: rest, offset⟩ =
      .ok (text, ⟨rest, offset'⟩) := by
  induction h generalizing fuel offset with
  | nil =>
    obtain ⟨fuel, rfl⟩ := Nat.exists_eq_succ_of_ne_zero (Nat.ne_of_gt hfuel)
    exact ⟨offset + '"'.utf8Size, rfl⟩
  | @cons c text chars tail hchar htail ih =>
    obtain ⟨fuel, rfl⟩ := Nat.exists_eq_succ_of_ne_zero (Nat.ne_of_gt (Nat.zero_lt_of_lt hfuel))
    have hlength : tail.length < fuel := by
      have hpos := hchar.length_pos
      rw [List.length_append] at hfuel
      omega
    obtain ⟨middle, hmiddle⟩ := readStringTail_char hchar fuel (tail ++ '"' :: rest) offset
    obtain ⟨offset', htailRead⟩ := ih hlength middle
    refine ⟨offset', ?_⟩
    rw [List.append_assoc, hmiddle, htailRead]
    rfl

theorem readString_text {text : String} {chars : List Char} (h : SpellsText text.toList chars)
    (rest : List Char) (offset : Nat) :
    ∃ offset', readString ⟨chars ++ '"' :: rest, offset⟩ = .ok (text, ⟨rest, offset'⟩) := by
  have hfuel : chars.length < (chars ++ '"' :: rest).length + 1 := by
    rw [List.length_append]
    omega
  obtain ⟨offset', hread⟩ := readStringTail_text h hfuel rest offset
  refine ⟨offset', ?_⟩
  simp only [readString, hread, bind, Except.bind, String.ofList_toList]

/-! Line breaks -/

theorem IsHexDigit.ne_lineFeed {value : Nat} {c : Char} (h : IsHexDigit value c) : '\n' ≠ c := by
  rintro rfl
  have hvalue := hexValue?_of_isHexDigit h
  cases hvalue

theorem IsHexUnit.lineFeed_not_mem {unit : Nat} {digits : List Char} (h : IsHexUnit unit digits) :
    '\n' ∉ digits := by
  obtain ⟨hx, hy, hz, hw⟩ := h
  simp [hx.ne_lineFeed, hy.ne_lineFeed, hz.ne_lineFeed, hw.ne_lineFeed]

theorem letter_ne_lineFeed : ∀ escape ∈ shortEscapes, '\n' ≠ escape.1 := by
  decide

theorem SpellsChar.lineFeed_not_mem {c : Char} {chars : List Char} (h : SpellsChar c chars) :
    '\n' ∉ chars := by
  cases h with
  | plain _ _ hcontrol =>
    rw [List.mem_singleton]
    rintro rfl
    exact absurd hcontrol (by decide)
  | short h => simp [letter_ne_lineFeed _ h]
  | unit h => simp [h.lineFeed_not_mem]
  | pair _ hhigh hlow => simp [hhigh.lineFeed_not_mem, hlow.lineFeed_not_mem]

theorem SpellsText.lineFeed_not_mem {text chars : List Char} (h : SpellsText text chars) :
    '\n' ∉ chars := by
  induction h with
  | nil => exact List.not_mem_nil
  | cons hchar _ ih =>
    rw [List.mem_append, not_or]
    exact ⟨hchar.lineFeed_not_mem, ih⟩

end PuppetInventory.Json
