import PuppetInventory.Proofs.Json.ReadValues
import PuppetInventory.Proofs.Json.Reading

/-!
JSON documents as they are written, with every entry of their objects. Reading any text of a
document gives its value, in which of entries with one key the last counts. That, and what all
values that are read keep to, is all that is relied on of a reader.
-/

namespace PuppetInventory.Json

/-- A number as it is written, with the number that is kept of it. Those beyond the range of double
precision are no numbers here. -/
structure Numeral where
  isNegative : Bool
  whole : Nat
  fraction : List Char
  exponent : List Char
  isFraction : IsFraction fraction
  isExponent : IsExponent exponent
  number : Number
  isKept : ∃ offset, readNumber isNegative
    ⟨Nat.toDigits 10 whole ++ (fraction ++ exponent), 0⟩ = .ok (number, ⟨[], offset⟩)

inductive Document where
  | null
  | boolean (truth : Bool)
  | number (numeral : Numeral)
  | string (text : String)
  | array (items : List Document)
  /-- The entries in the order of the text, keys given twice included. -/
  | object (entries : List (String × Document))

mutual

def Document.value : Document → Value
  | .null => .null
  | .boolean truth => .boolean truth
  | .number numeral => .number numeral.number
  | .string text => .string text
  | .array items => .array (valuesOf items)
  | .object entries => .object (membersOf (entryValues entries))

def valuesOf : List Document → List Value
  | [] => []
  | item :: rest => item.value :: valuesOf rest

def entryValues : List (String × Document) → List (String × Value)
  | [] => []
  | (key, document) :: rest => (key, document.value) :: entryValues rest

end

theorem valuesOf_eq_map (items : List Document) : valuesOf items = items.map Document.value := by
  induction items with
  | nil => rfl
  | cons item items ih => rw [valuesOf, ih, List.map_cons]

theorem entryValues_eq_map (entries : List (String × Document)) :
    entryValues entries = entries.map fun entry => (entry.1, entry.2.value) := by
  induction entries with
  | nil => rfl
  | cons entry entries ih => rw [entryValues, ih, List.map_cons]

theorem Document.value_array (items : List Document) :
    (Document.array items).value = .array (items.map Document.value) := by
  rw [Document.value, valuesOf_eq_map]

/-- The members of an object are its resolved entries. -/
theorem Document.value_object (entries : List (String × Document)) :
    (Document.object entries).value =
      .object ((resolved entries).map fun entry => (entry.1, entry.2.value)) := by
  rw [Document.value, entryValues_eq_map, membersOf_map, membersOf_eq_resolved]

/-! Numbers -/

namespace Numeral

variable (numeral : Numeral)

/-- The characters behind the sign. -/
def unsigned : List Char :=
  Nat.toDigits 10 numeral.whole ++ (numeral.fraction ++ numeral.exponent)

def chars : List Char :=
  if numeral.isNegative then '-' :: numeral.unsigned else numeral.unsigned

/-- The number is `n`, written in digits alone, and it fits into 64 bits. -/
structure IsPlain (n : Nat) : Prop where
  isNegative_eq : numeral.isNegative = false
  fraction_eq : numeral.fraction = []
  exponent_eq : numeral.exponent = []
  whole_eq : numeral.whole = n
  lt_size : n < UInt64.size

theorem settles_and_natural_iff :
    Settles (readNumber numeral.isNegative) numeral.unsigned (some numeral.number) ∧
      ∀ n, numeral.number = .natural n ↔ numeral.IsPlain n := by
  obtain ⟨outcome, hsettles, hnatural⟩ :=
    exists_settles numeral.isNegative numeral.whole numeral.isFraction numeral.isExponent
  obtain ⟨offset, hkept⟩ := numeral.isKept
  -- At the end of a text both say what is read, so the outcome is the number that is kept.
  have halone := hsettles [] 0 endsNumber_nil
  rw [List.append_nil, hkept] at halone
  cases outcome with
  | none => obtain ⟨_, h⟩ := halone; cases h
  | some number =>
    obtain ⟨_, h⟩ := halone
    cases h
    refine ⟨hsettles, fun n => ?_⟩
    rw [← Option.some_inj, hnatural]
    exact ⟨fun ⟨hsign, hfraction, hexponent, hwhole, hsmall⟩ =>
      ⟨hsign, hfraction, hexponent, hwhole, hsmall⟩,
      fun ⟨hsign, hfraction, hexponent, hwhole, hsmall⟩ =>
      ⟨hsign, hfraction, hexponent, hwhole, hsmall⟩⟩

theorem number_eq_natural_iff {n : Nat} : numeral.number = .natural n ↔ numeral.IsPlain n :=
  numeral.settles_and_natural_iff.2 n

theorem readsAs (depth : Nat) :
    ReadsAs (readValue depth) numeral.chars (.number numeral.number) := by
  have hsettles := numeral.settles_and_natural_iff.1
  rw [chars]
  cases hsign : numeral.isNegative with
  | true =>
    rw [hsign] at hsettles
    exact readsAs_signed hsettles depth
  | false =>
    rw [hsign] at hsettles
    obtain ⟨c, hc, hdigit⟩ := exists_head_toDigits numeral.whole
    refine readsAs_unsigned hsettles (c := c) ?_ hdigit depth
    rw [unsigned, List.head?_append, hc]
    rfl

end Numeral

/-! Written lists -/

/-- Items between commas, with blanks behind each item and each comma. -/
inductive SpellsItems {α : Type} (spells : α → List Char → Prop) :
    List α → List Char → Prop where
  | last {item : α} {chars blanks : List Char} (h : spells item chars)
      (hblanks : IsBlanks blanks) : SpellsItems spells [item] (chars ++ blanks)
  | more {item : α} {items : List α} {chars before after tail : List Char} (h : spells item chars)
      (hbefore : IsBlanks before) (hafter : IsBlanks after)
      (hrest : SpellsItems spells items tail) :
      SpellsItems spells (item :: items) (chars ++ (before ++ ',' :: (after ++ tail)))

inductive SpellsArray {α : Type} (spells : α → List Char → Prop) :
    List α → List Char → Prop where
  | empty {blanks : List Char} (hblanks : IsBlanks blanks) :
    SpellsArray spells [] ('[' :: (blanks ++ [']']))
  | filled {items : List α} {blanks chars : List Char} (hblanks : IsBlanks blanks)
      (h : SpellsItems spells items chars) :
      SpellsArray spells items ('[' :: (blanks ++ (chars ++ [']'])))

/-- A value begins here: neither a blank nor the end of a list. -/
def StartsValue (chars : List Char) : Prop :=
  ∃ c tail, chars = c :: tail ∧ Cursor.isBlank c = false ∧ c ≠ ']'

section Lists

variable {α : Type} {spells : α → List Char → Prop} {item : Reader Value} {toValue : α → Value}

theorem SpellsItems.startsValue
    (hstarts : ∀ value chars, spells value chars → StartsValue chars)
    {items : List α} {chars : List Char} (h : SpellsItems spells items chars) :
    StartsValue chars := by
  cases h with
  | last h =>
    obtain ⟨c, tail, rfl, hc⟩ := hstarts _ _ h
    exact ⟨c, _, rfl, hc⟩
  | more h =>
    obtain ⟨c, tail, rfl, hc⟩ := hstarts _ _ h
    exact ⟨c, _, rfl, hc⟩

theorem SpellsItems.length_le
    (hstarts : ∀ value chars, spells value chars → StartsValue chars)
    {items : List α} {chars : List Char} (h : SpellsItems spells items chars) :
    items.length ≤ chars.length := by
  induction h with
  | last h =>
    obtain ⟨c, tail, rfl, -⟩ := hstarts _ _ h
    simp
  | more h hbefore hafter hrest ih =>
    simp only [List.length_cons, List.length_append]
    omega

theorem readItems_items
    (hitem : ∀ value chars, spells value chars → ReadsAs item chars (toValue value))
    (hstarts : ∀ value chars, spells value chars → StartsValue chars)
    {items : List α} {chars : List Char} (h : SpellsItems spells items chars) (fuel : Nat)
    (rest : List Char) (offset : Nat) (hfuel : items.length ≤ fuel) :
    ∃ offset', readItems item fuel ⟨chars ++ ']' :: rest, offset⟩ =
      .ok (items.map toValue, ⟨rest, offset'⟩) := by
  induction h generalizing fuel offset with
  | @last value chars blanks h hblanks =>
    obtain ⟨fuel, rfl⟩ := Nat.exists_eq_succ_of_ne_zero (Nat.ne_of_gt hfuel)
    obtain ⟨behind, offset', hread, hskip⟩ :=
      (hitem value chars h).reads_member isBlanks_nil hblanks (c := ']') (by decide) rest offset
    refine ⟨offset' + 1, ?_⟩
    rw [List.append_assoc]
    rw [List.nil_append] at hread
    simp only [readItems, hread, bind, Except.bind, hskip, if_true]
    rfl
  | @more value items chars before after tail h hbefore hafter hrest ih =>
    obtain ⟨fuel, rfl⟩ := Nat.exists_eq_succ_of_ne_zero (Nat.ne_of_gt (Nat.zero_lt_of_lt hfuel))
    obtain ⟨behind, offset₁, hread, hskip⟩ :=
      (hitem value chars h).reads_member isBlanks_nil hbefore (c := ',') (by decide)
        (after ++ (tail ++ ']' :: rest)) offset
    rw [List.nil_append] at hread
    obtain ⟨c, inner, rfl, hblank, hbracket⟩ := hrest.startsValue hstarts
    have hnext :
        (Cursor.step ⟨',' :: (after ++ (c :: inner ++ ']' :: rest)), offset₁⟩).skipBlanks =
          ⟨c :: inner ++ ']' :: rest, offset₁ + ','.utf8Size + byteLength after⟩ :=
      skipBlanks_append hafter hblank _ _
    obtain ⟨offset', hothers⟩ := ih fuel (offset₁ + ','.utf8Size + byteLength after)
      (Nat.le_of_succ_le_succ hfuel)
    refine ⟨offset', ?_⟩
    have htext : chars ++ (before ++ ',' :: (after ++ c :: inner)) ++ ']' :: rest =
        chars ++ (before ++ ',' :: (after ++ (c :: inner ++ ']' :: rest))) := by simp
    have hcomma : ',' ≠ ']' := by decide
    rw [htext]
    rw [List.cons_append] at hread hskip hnext hothers ⊢
    simp only [readItems, hread, bind, Except.bind, hskip, hnext, if_neg hcomma, if_neg hbracket,
      hothers, if_true]
    rfl

theorem readValue_bracket (depth : Nat) (rest : List Char) (offset : Nat) :
    readValue (depth + 1) ⟨'[' :: rest, offset⟩ =
      readList (readValue depth) ⟨rest, offset + '['.utf8Size⟩ := by
  rw [readValue]
  rfl

theorem readsAs_array {depth : Nat}
    (hitem : ∀ value chars, spells value chars → ReadsAs (readValue depth) chars (toValue value))
    (hstarts : ∀ value chars, spells value chars → StartsValue chars)
    {items : List α} {chars : List Char} (h : SpellsArray spells items chars) :
    ReadsAs (readValue (depth + 1)) chars (.array (items.map toValue)) := by
  intro blanks rest offset hblanks _
  cases h with
  | @empty inside hinside =>
    refine ⟨offset + byteLength blanks + '['.utf8Size + byteLength inside + ']'.utf8Size, ?_⟩
    rw [List.cons_append, readValue_blanks hblanks rfl, readValue_bracket, List.append_assoc,
      List.singleton_append, readList, skipBlanks_append hinside rfl]
    rfl
  | @filled _ inside chars hinside hitems =>
    have hlength := hitems.length_le hstarts
    obtain ⟨c, tail, rfl, hblank, hbracket⟩ := hitems.startsValue hstarts
    have hfuel : items.length ≤ (c :: tail ++ ']' :: rest).length + 1 := by
      rw [List.length_append]
      omega
    obtain ⟨offset', hread⟩ := readItems_items hitem hstarts hitems _ rest
      (offset + byteLength blanks + '['.utf8Size + byteLength inside) hfuel
    refine ⟨offset', ?_⟩
    have htext : inside ++ (c :: tail ++ [']']) ++ rest =
        inside ++ c :: (tail ++ ']' :: rest) := by simp
    rw [List.cons_append, readValue_blanks hblanks rfl, readValue_bracket, htext, readList,
      skipBlanks_append hinside hblank]
    rw [List.cons_append] at hread
    simp only [if_neg hbracket, hread, bind, Except.bind]

end Lists

/-! Texts of documents -/

/-- `chars` is a written form of a document whose lists and objects nest at most `depth` deep. -/
def SpellsDocument : Nat → Document → List Char → Prop
  | _, .null, chars => chars = "null".toList
  | _, .boolean truth, chars => chars = (if truth then "true" else "false").toList
  | _, .number numeral, chars => chars = numeral.chars
  | _, .string text, chars =>
    ∃ inner, SpellsText text.toList inner ∧ chars = '"' :: (inner ++ ['"'])
  | 0, .array _, _ => False
  | 0, .object _, _ => False
  | depth + 1, .array items, chars => SpellsArray (SpellsDocument depth) items chars
  | depth + 1, .object entries, chars => SpellsObject (SpellsDocument depth) entries chars

/-- `text` is a written form of a document, with any blanks and any escapes, that nests no deeper
than the reader goes. -/
inductive Document.IsText (document : Document) (text : String) : Prop where
  | intro {before chars after : List Char} (hbefore : IsBlanks before)
      (hdocument : SpellsDocument maxDepth document chars) (hafter : IsBlanks after)
      (htext : text.toList = before ++ (chars ++ after))

theorem Numeral.startsValue (numeral : Numeral) : StartsValue numeral.chars := by
  rw [Numeral.chars]
  split
  · exact ⟨'-', _, rfl, rfl, by decide⟩
  · obtain ⟨c, hc, hdigit⟩ := exists_head_toDigits numeral.whole
    obtain ⟨tail, htail⟩ := List.head?_eq_some_iff.1 hc
    rw [Numeral.unsigned, htail]
    exact ⟨c, _, rfl, isBlank_of_isDigit hdigit, ne_of_isDigit hdigit rfl⟩

theorem readsAs_boolean (truth : Bool) (depth : Nat) :
    ReadsAs (readValue depth) (if truth then "true" else "false").toList (.boolean truth) := by
  intro blanks rest offset hblanks _
  cases truth with
  | true =>
    refine ⟨offset + byteLength blanks + 4, ?_⟩
    have hchars : "true".toList ++ rest = 't' :: 'r' :: 'u' :: 'e' :: rest := rfl
    rw [if_pos rfl, hchars, readValue_blanks hblanks (by decide), readValue]
    rfl
  | false =>
    refine ⟨offset + byteLength blanks + 5, ?_⟩
    have hchars : "false".toList ++ rest = 'f' :: 'a' :: 'l' :: 's' :: 'e' :: rest := rfl
    rw [if_neg Bool.false_ne_true, hchars, readValue_blanks hblanks (by decide), readValue]
    rfl

/-- A document has no members and is read as its value, or its members stand one level deeper. -/
theorem spellsDocument_cases {depth : Nat} {document : Document} {chars : List Char}
    (h : SpellsDocument depth document chars) :
    StartsValue chars ∧ ReadsAs (readValue depth) chars document.value ∨
      ∃ inner, depth = inner + 1 ∧
        ((∃ items, document = .array items ∧ SpellsArray (SpellsDocument inner) items chars) ∨
          ∃ entries, document = .object entries ∧
            SpellsObject (SpellsDocument inner) entries chars) := by
  cases document with
  | null =>
    rw [SpellsDocument] at h
    rw [h, Document.value]
    exact .inl ⟨⟨'n', _, rfl, rfl, by decide⟩, readsAs_null depth⟩
  | boolean truth =>
    rw [SpellsDocument] at h
    rw [h, Document.value]
    refine .inl ⟨?_, readsAs_boolean truth depth⟩
    cases truth with
    | true => exact ⟨'t', _, rfl, rfl, by decide⟩
    | false => exact ⟨'f', _, rfl, rfl, by decide⟩
  | number numeral =>
    rw [SpellsDocument] at h
    rw [h, Document.value]
    exact .inl ⟨numeral.startsValue, numeral.readsAs depth⟩
  | string text =>
    rw [SpellsDocument] at h
    obtain ⟨inner, hinner, hchars⟩ := h
    rw [hchars, Document.value]
    exact .inl ⟨⟨'"', _, rfl, rfl, by decide⟩, readsAs_string hinner depth⟩
  | array items =>
    cases depth with
    | zero => rw [SpellsDocument] at h; exact h.elim
    | succ depth =>
      rw [SpellsDocument] at h
      exact .inr ⟨depth, rfl, .inl ⟨items, rfl, h⟩⟩
  | object entries =>
    cases depth with
    | zero => rw [SpellsDocument] at h; exact h.elim
    | succ depth =>
      rw [SpellsDocument] at h
      exact .inr ⟨depth, rfl, .inr ⟨entries, rfl, h⟩⟩

theorem startsValue_of_spellsDocument {depth : Nat} (document : Document) (chars : List Char)
    (h : SpellsDocument depth document chars) : StartsValue chars := by
  rcases spellsDocument_cases h with ⟨hstarts, -⟩ | ⟨_, -, ⟨_, -, hitems⟩ | ⟨_, -, hentries⟩⟩
  · exact hstarts
  · cases hitems <;> exact ⟨'[', _, rfl, rfl, by decide⟩
  · cases hentries <;> exact ⟨'\x7b', _, rfl, rfl, by decide⟩

/-- A document is read as its value wherever it stands, if the reader may go as deep as it nests. -/
theorem readsAs_document (depth : Nat) (document : Document) (chars : List Char)
    (h : SpellsDocument depth document chars) :
    ReadsAs (readValue depth) chars document.value := by
  -- Items and entries are read at the depth below, so the induction is on the depth.
  induction depth generalizing document chars with
  | zero =>
    rcases spellsDocument_cases h with ⟨-, hread⟩ | ⟨inner, hdepth, -⟩
    · exact hread
    · cases hdepth
  | succ depth ih =>
    rcases spellsDocument_cases h with ⟨-, hread⟩ | ⟨inner, hdepth, ⟨items, rfl, hitems⟩ |
      ⟨entries, rfl, hentries⟩⟩
    · exact hread
    · cases hdepth
      rw [Document.value_array]
      exact readsAs_array ih startsValue_of_spellsDocument hitems
    · cases hdepth
      rw [Document.value, entryValues_eq_map]
      exact readsAs_object ih hentries

theorem Document.IsText.read {document : Document} {text : String} (h : document.IsText text) :
    Json.read text = .ok document.value := by
  obtain ⟨hbefore, hdocument, hafter, htext⟩ := h
  exact read_of_readsAs (readsAs_document maxDepth document _ hdocument) hbefore hafter htext

/-! Faithful readers -/

/-- What is relied on of a reader: it reads the texts of documents, and all that it reads is
proper. -/
structure TextReader.IsFaithful (reader : TextReader) : Prop where
  read {document : Document} {text : String} (h : document.IsText text) :
    reader text = .ok document.value
  isProper {text : String} {value : Value} (h : reader text = .ok value) : value.IsProper

theorem read_isFaithful : TextReader.IsFaithful read :=
  ⟨Document.IsText.read, isProper_of_read⟩

/-! Texts of values -/

/-- `chars` is a written form of a document with this value. -/
def SpellsValue (depth : Nat) (value : Value) (chars : List Char) : Prop :=
  ∃ document : Document, document.value = value ∧ SpellsDocument depth document chars

theorem TextReader.IsFaithful.read_of_spellsValue
    {reader : TextReader} (hreader : reader.IsFaithful) {value : Value}
    {before chars after : List Char} (h : SpellsValue maxDepth value chars)
    (hbefore : IsBlanks before) (hafter : IsBlanks after) {text : String}
    (htext : text.toList = before ++ (chars ++ after)) : reader text = .ok value := by
  obtain ⟨document, rfl, hdocument⟩ := h
  exact hreader.read (.intro hbefore hdocument hafter htext)

theorem spellsValue_null (depth : Nat) : SpellsValue depth .null "null".toList :=
  ⟨.null, by rw [Document.value], by rw [SpellsDocument]⟩

theorem spellsValue_string {text : String} {chars : List Char} (h : SpellsText text.toList chars)
    (depth : Nat) : SpellsValue depth (.string text) ('"' :: (chars ++ ['"'])) := by
  refine ⟨.string text, by rw [Document.value], ?_⟩
  rw [SpellsDocument]
  exact ⟨chars, h, rfl⟩

theorem spellsValue_natural {n : Nat} (h : n < UInt64.size) (depth : Nat) :
    SpellsValue depth (.number (.natural n)) (Nat.toDigits 10 n) := by
  obtain ⟨offset, hread⟩ := settles_natural h [] 0 endsNumber_nil
  let numeral : Numeral := ⟨false, n, [], [], .absent, .absent, .natural n, offset, hread⟩
  have hchars : numeral.chars = Nat.toDigits 10 n := List.append_nil _
  refine ⟨.number numeral, by rw [Document.value], ?_⟩
  rw [SpellsDocument, hchars]

section

variable {α : Type} {spells : α → List Char → Prop} {toValue : α → Value} {depth : Nat}

/-- Entries that are written with values are the entries of an object. -/
theorem exists_entries_of_spellsMembers
    (hvalue : ∀ source chars, spells source chars → SpellsValue depth (toValue source) chars)
    {entries : List (String × α)} {chars : List Char} (h : SpellsMembers spells entries chars) :
    ∃ documents : List (String × Document),
      entryValues documents = entries.map (fun entry => (entry.1, toValue entry.2)) ∧
        SpellsMembers (SpellsDocument depth) documents chars := by
  have hmember {key : String} {source : α} {chars : List Char}
      (h : SpellsMember spells (key, source) chars) :
      ∃ document : Document, document.value = toValue source ∧
        SpellsMember (SpellsDocument depth) (key, document) chars := by
    cases h with
    | intro hkey hbefore hafter hsource htrailing =>
      obtain ⟨document, hdocument, hspells⟩ := hvalue _ _ hsource
      exact ⟨document, hdocument, .intro hkey hbefore hafter hspells htrailing⟩
  induction h with
  | @last entry chars h =>
    obtain ⟨document, hdocument, hspells⟩ := hmember h
    exact ⟨[(entry.1, document)], by rw [entryValues, entryValues, hdocument]; rfl, .last hspells⟩
  | @more entry entries chars blanks tail h hblanks hrest ih =>
    obtain ⟨document, hdocument, hspells⟩ := hmember h
    obtain ⟨documents, hdocuments, hothers⟩ := ih
    exact ⟨(entry.1, document) :: documents,
      by rw [entryValues, hdocument, hdocuments, List.map_cons], .more hspells hblanks hothers⟩

/-- An object is written if its members are. Of a key given twice the last value counts. -/
theorem spellsValue_object
    (hvalue : ∀ source chars, spells source chars → SpellsValue depth (toValue source) chars)
    {entries : List (String × α)} {chars : List Char} (h : SpellsObject spells entries chars) :
    SpellsValue (depth + 1)
      (.object (membersOf (entries.map fun entry => (entry.1, toValue entry.2)))) chars := by
  cases h with
  | empty hblanks =>
    refine ⟨.object [], by rw [Document.value, entryValues]; rfl, ?_⟩
    rw [SpellsDocument]
    exact .empty hblanks
  | filled hblanks hmembers =>
    obtain ⟨documents, hdocuments, hspells⟩ := exists_entries_of_spellsMembers hvalue hmembers
    refine ⟨.object documents, by rw [Document.value, hdocuments], ?_⟩
    rw [SpellsDocument]
    exact .filled hblanks hspells

end

end PuppetInventory.Json
