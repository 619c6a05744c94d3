import PuppetInventory.Proofs.Json.Numerals
import PuppetInventory.Proofs.Json.Spelling

/-!
Reading accepts the written forms: whole numbers below `2 ^ 64`, and objects, whatever their members
are, as long as the reader of the members accepts theirs.
-/

namespace PuppetInventory.Json

/-- `item` reads `chars`, behind blanks, as `value`. -/
def ReadsAs {β : Type} (item : Reader β) (chars : List Char) (value : β) : Prop :=
  ∀ blanks rest offset, IsBlanks blanks → EndsNumber rest →
    ∃ offset', item ⟨blanks ++ (chars ++ rest), offset⟩ = .ok (value, ⟨rest, offset'⟩)

theorem endsNumber_nil : EndsNumber [] := by
  intro c hc
  cases hc

theorem endsNumber_blanks {blanks rest : List Char} (h : IsBlanks blanks)
    (hrest : EndsNumber rest) : EndsNumber (blanks ++ rest) := by
  cases blanks with
  | nil => exact hrest
  | cons d blanks =>
    intro c hc
    cases hc
    rcases h d List.mem_cons_self with rfl | rfl | rfl | rfl <;> decide

/-- The characters that stand behind the members of lists and objects. -/
def memberEnds : List Char :=
  [',', ']', '\x7d']

theorem memberEnds_spec {c : Char} (h : c ∈ memberEnds) :
    Cursor.isBlank c = false ∧ c.isDigit = false ∧ c ≠ '.' ∧ c ≠ 'e' ∧ c ≠ 'E' := by
  simp only [memberEnds, List.mem_cons, List.not_mem_nil, or_false] at h
  rcases h with rfl | rfl | rfl <;> decide

/-- A member is read up to the character that ends it. -/
theorem ReadsAs.reads_member {β : Type} {item : Reader β} {chars : List Char} {value : β}
    (h : ReadsAs item chars value) {before after : List Char} (hbefore : IsBlanks before)
    (hafter : IsBlanks after) {c : Char} (hc : c ∈ memberEnds) (rest : List Char)
    (offset : Nat) :
    ∃ behind offset', item ⟨before ++ (chars ++ (after ++ c :: rest)), offset⟩ =
        .ok (value, behind) ∧
      behind.skipBlanks = ⟨c :: rest, offset'⟩ := by
  obtain ⟨hblank, hends⟩ := memberEnds_spec hc
  have hrest : EndsNumber (c :: rest) := by
    intro d hd
    cases hd
    exact hends
  obtain ⟨behind, hread⟩ :=
    h before (after ++ c :: rest) offset hbefore (endsNumber_blanks hafter hrest)
  exact ⟨_, _, hread, skipBlanks_append hafter hblank rest behind⟩

/-! Values without members -/

theorem skipBlanks_of_not_isBlank {c : Char} (hc : Cursor.isBlank c = false) (rest : List Char)
    (offset : Nat) : Cursor.skipBlanks ⟨c :: rest, offset⟩ = ⟨c :: rest, offset⟩ :=
  skipBlanks_append (fun _ h => absurd h List.not_mem_nil) hc rest offset

theorem readValue_blanks {blanks : List Char} (h : IsBlanks blanks) {c : Char}
    (hc : Cursor.isBlank c = false) (depth : Nat) (rest : List Char) (offset : Nat) :
    readValue depth ⟨blanks ++ c :: rest, offset⟩ =
      readValue depth ⟨c :: rest, offset + byteLength blanks⟩ := by
  rw [readValue, readValue, skipBlanks_append h hc, skipBlanks_of_not_isBlank hc]

theorem readsAs_null (depth : Nat) : ReadsAs (readValue depth) "null".toList .null := by
  intro blanks rest offset hblanks _
  refine ⟨offset + byteLength blanks + 4, ?_⟩
  have hchars : "null".toList ++ rest = 'n' :: 'u' :: 'l' :: 'l' :: rest := rfl
  rw [hchars, readValue_blanks hblanks (by decide), readValue]
  rfl

theorem readsAs_string {text : String} {chars : List Char} (h : SpellsText text.toList chars)
    (depth : Nat) : ReadsAs (readValue depth) ('"' :: (chars ++ ['"'])) (.string text) := by
  intro blanks rest offset hblanks _
  obtain ⟨offset', hread⟩ := readString_text h rest (offset + byteLength blanks + '"'.utf8Size)
  refine ⟨offset', ?_⟩
  have hchars : '"' :: (chars ++ ['"']) ++ rest = '"' :: (chars ++ '"' :: rest) := by simp
  have hvalue : readValue depth ⟨'"' :: (chars ++ '"' :: rest), offset + byteLength blanks⟩ =
      (readString ⟨chars ++ '"' :: rest, offset + byteLength blanks + '"'.utf8Size⟩).bind
        fun read => .ok (.string read.1, read.2) := by
    rw [readValue]
    rfl
  rw [hchars, readValue_blanks hblanks (by decide), hvalue, hread]
  rfl

theorem isBlank_of_isDigit {c : Char} (hc : c.isDigit = true) : Cursor.isBlank c = false := by
  simp [Cursor.isBlank, ne_of_isDigit hc (d := ' ') rfl, ne_of_isDigit hc (d := '\n') rfl,
    ne_of_isDigit hc (d := '\t') rfl, ne_of_isDigit hc (d := '\r') rfl]

theorem readValue_digit {c : Char} (hc : c.isDigit = true) (depth : Nat) (rest : List Char)
    (offset : Nat) :
    readValue depth ⟨c :: rest, offset⟩ =
      (readNumber false ⟨c :: rest, offset⟩).bind fun read => .ok (.number read.1, read.2) := by
  rw [readValue, skipBlanks_of_not_isBlank (isBlank_of_isDigit hc)]
  simp only [hc, if_true, if_neg (ne_of_isDigit hc (d := 'n') rfl),
    if_neg (ne_of_isDigit hc (d := 't') rfl), if_neg (ne_of_isDigit hc (d := 'f') rfl),
    if_neg (ne_of_isDigit hc (d := '-') rfl)]
  rfl

theorem readsAs_unsigned {chars : List Char} {number : Number}
    (h : Settles (readNumber false) chars (some number)) {c : Char} (hc : c ∈ chars.head?)
    (hdigit : c.isDigit = true) (depth : Nat) :
    ReadsAs (readValue depth) chars (.number number) := by
  intro blanks rest offset hblanks hrest
  obtain ⟨offset', hread⟩ := h rest (offset + byteLength blanks) hrest
  refine ⟨offset', ?_⟩
  obtain ⟨tail, rfl⟩ := List.head?_eq_some_iff.1 hc
  rw [List.cons_append] at hread ⊢
  rw [readValue_blanks hblanks (isBlank_of_isDigit hdigit), readValue_digit hdigit, hread]
  rfl

theorem readValue_minus (depth : Nat) (rest : List Char) (offset : Nat) :
    readValue depth ⟨'-' :: rest, offset⟩ =
      (readNumber true ⟨rest, offset + '-'.utf8Size⟩).bind fun read =>
        .ok (.number read.1, read.2) := by
  rw [readValue]
  rfl

theorem readsAs_signed {chars : List Char} {number : Number}
    (h : Settles (readNumber true) chars (some number)) (depth : Nat) :
    ReadsAs (readValue depth) ('-' :: chars) (.number number) := by
  intro blanks rest offset hblanks hrest
  obtain ⟨offset', hread⟩ := h rest (offset + byteLength blanks + '-'.utf8Size) hrest
  refine ⟨offset', ?_⟩
  rw [List.cons_append, readValue_blanks hblanks rfl, readValue_minus, hread]
  rfl

theorem exists_head_toDigits (n : Nat) :
    ∃ c, c ∈ (Nat.toDigits 10 n).head? ∧ c.isDigit = true := by
  cases hchars : Nat.toDigits 10 n with
  | nil => exact absurd hchars Nat.toDigits_ne_nil
  | cons c tail =>
    exact ⟨c, rfl, (isDigits_toDigits n).isDigit c (hchars ▸ List.mem_cons_self)⟩

/-! Objects -/

section Objects

variable {α : Type} {spells : α → List Char → Prop} {item : Reader Value} {toValue : α → Value}

theorem readColon_append {before : List Char} (h : IsBlanks before) (rest : List Char)
    (offset : Nat) :
    ∃ offset', readColon ⟨before ++ ':' :: rest, offset⟩ = .ok ((), ⟨rest, offset'⟩) := by
  refine ⟨offset + byteLength before + 1, ?_⟩
  rw [readColon, skipBlanks_append h (by decide)]
  rfl

/-- What the reader of entries does with one member, from its key to the blanks behind its value. -/
theorem SpellsMember.reads
    (hitem : ∀ value chars, spells value chars → ReadsAs item chars (toValue value))
    {entry : String × α} {chars : List Char} (h : SpellsMember spells entry chars) :
    ∃ tail, chars = '"' :: tail ∧ ∀ (c : Char) (rest : List Char) (offset : Nat),
      c ∈ memberEnds →
      ∃ afterKey afterColon afterValue offset',
        readString ⟨tail ++ c :: rest, offset⟩ = .ok (entry.1, afterKey) ∧
        readColon afterKey = .ok ((), afterColon) ∧
        item afterColon = .ok (toValue entry.2, afterValue) ∧
        afterValue.skipBlanks = ⟨c :: rest, offset'⟩ := by
  obtain @⟨key, value, inner, before, after, chars, trailing, hkey, hbefore, hafter, hvalue,
    htrailing⟩ := h
  refine ⟨_, rfl, fun c rest offset hc => ?_⟩
  obtain ⟨offset₁, hread⟩ := readString_text hkey
    (before ++ ':' :: (after ++ (chars ++ (trailing ++ c :: rest)))) offset
  obtain ⟨offset₂, hcolon⟩ := readColon_append hbefore
    (after ++ (chars ++ (trailing ++ c :: rest))) offset₁
  obtain ⟨behind, offset₃, hitemRead, hskip⟩ :=
    (hitem value chars hvalue).reads_member hafter htrailing hc rest offset₂
  refine ⟨_, _, _, _, ?_, hcolon, hitemRead, hskip⟩
  rw [← hread]
  simp

theorem readEntries_members
    (hitem : ∀ value chars, spells value chars → ReadsAs item chars (toValue value))
    {entries : List (String × α)} {chars : List Char} (h : SpellsMembers spells entries chars) :
    ∃ tail, chars = '"' :: tail ∧ ∀ (fuel : Nat) (rest : List Char) (offset : Nat),
      entries.length ≤ fuel →
      ∃ offset', readEntries item fuel ⟨tail ++ '\x7d' :: rest, offset⟩ =
        .ok (entries.map fun entry => (entry.1, toValue entry.2), ⟨rest, offset'⟩) := by
  -- The reader enters behind the first quote, and each member costs it one unit of fuel.
  induction h with
  | @last entry chars hmember =>
    obtain ⟨tail, rfl, hreads⟩ := hmember.reads hitem
    refine ⟨tail, rfl, fun fuel rest offset hfuel => ?_⟩
    obtain ⟨fuel, rfl⟩ := Nat.exists_eq_succ_of_ne_zero (Nat.ne_of_gt hfuel)
    obtain ⟨_, _, _, offset', hkey, hcolon, hvalue, hskip⟩ := hreads '\x7d' rest offset (by decide)
    refine ⟨offset' + 1, ?_⟩
    simp only [readEntries, hkey, hcolon, hvalue, hskip, bind, Except.bind, if_true]
    rfl
  | @more entry entries chars blanks tail hmember hblanks hrest ih =>
    obtain ⟨first, rfl, hreads⟩ := hmember.reads hitem
    obtain ⟨others, rfl, hothers⟩ := ih
    refine ⟨first ++ ',' :: (blanks ++ '"' :: others), rfl, fun fuel rest offset hfuel => ?_⟩
    obtain ⟨fuel, rfl⟩ := Nat.exists_eq_succ_of_ne_zero (Nat.ne_of_gt (Nat.zero_lt_of_lt hfuel))
    obtain ⟨_, _, _, offset₁, hkey, hcolon, hvalue, hskip⟩ :=
      hreads ',' (blanks ++ '"' :: (others ++ '\x7d' :: rest)) offset (by decide)
    have hnext :
        (Cursor.step ⟨',' :: (blanks ++ '"' :: (others ++ '\x7d' :: rest)), offset₁⟩).skipBlanks =
          ⟨'"' :: (others ++ '\x7d' :: rest), offset₁ + ','.utf8Size + byteLength blanks⟩ :=
      skipBlanks_append hblanks rfl _ _
    obtain ⟨offset', hrestRead⟩ := hothers fuel rest
      (offset₁ + ','.utf8Size + byteLength blanks + '"'.utf8Size) (Nat.le_of_succ_le_succ hfuel)
    refine ⟨offset', ?_⟩
    have hbrace : ',' ≠ '\x7d' := by decide
    have htext : first ++ ',' :: (blanks ++ '"' :: others) ++ '\x7d' :: rest =
        first ++ ',' :: (blanks ++ '"' :: (others ++ '\x7d' :: rest)) := by simp
    rw [htext]
    simp only [readEntries, hkey, hcolon, hvalue, hskip, hnext, bind, Except.bind, if_neg hbrace,
      if_true]
    simp only [Cursor.step, hrestRead]
    rfl

theorem SpellsMembers.length_le {entries : List (String × α)} {chars : List Char}
    (h : SpellsMembers spells entries chars) : entries.length ≤ chars.length := by
  induction h with
  | last hmember =>
    cases hmember
    rw [List.length_cons, List.length_cons]
    exact Nat.succ_le_succ (Nat.zero_le _)
  | more hmember hblanks hrest ih =>
    rw [List.length_cons, List.length_append, List.length_cons, List.length_append]
    omega

theorem readValue_brace (depth : Nat) (rest : List Char) (offset : Nat) :
    readValue (depth + 1) ⟨'\x7b' :: rest, offset⟩ =
      readObject (readValue depth) ⟨rest, offset + '\x7b'.utf8Size⟩ := by
  rw [readValue]
  rfl

/-- An object is read if its members are. Of a key given twice the last value counts. -/
theorem readsAs_object {depth : Nat}
    (hitem : ∀ value chars, spells value chars → ReadsAs (readValue depth) chars (toValue value))
    {entries : List (String × α)} {chars : List Char} (h : SpellsObject spells entries chars) :
    ReadsAs (readValue (depth + 1)) chars
      (.object (membersOf (entries.map fun entry => (entry.1, toValue entry.2)))) := by
  intro blanks rest offset hblanks _
  cases h with
  | @empty inside hinside =>
    refine ⟨offset + byteLength blanks + '\x7b'.utf8Size + byteLength inside + '\x7d'.utf8Size, ?_⟩
    rw [List.cons_append, readValue_blanks hblanks rfl, readValue_brace, List.append_assoc,
      List.singleton_append, readObject, skipBlanks_append hinside rfl]
    rfl
  | @filled _ inside members hinside hmembers =>
    obtain ⟨tail, hmembersEq, hread⟩ := readEntries_members hitem hmembers
    have hlength := hmembers.length_le
    subst hmembersEq
    have hfuel : entries.length ≤ ('"' :: (tail ++ '\x7d' :: rest)).length + 1 := by
      rw [List.length_cons, List.length_append]
      rw [List.length_cons] at hlength
      omega
    obtain ⟨offset', hentries⟩ := hread _ rest
      (offset + byteLength blanks + '\x7b'.utf8Size + byteLength inside + '"'.utf8Size) hfuel
    refine ⟨offset', ?_⟩
    have htext : inside ++ ('"' :: tail ++ ['\x7d']) ++ rest =
        inside ++ '"' :: (tail ++ '\x7d' :: rest) := by simp
    have hquote : '"' ≠ '\x7d' := by decide
    rw [List.cons_append, readValue_blanks hblanks rfl, readValue_brace, htext, readObject,
      skipBlanks_append hinside rfl]
    simp only [if_neg hquote, if_true, Cursor.step, hentries, bind, Except.bind]

/-- A text that is one value between blanks is read as that value. -/
theorem read_of_readsAs {chars before after : List Char} {value : Value}
    (h : ReadsAs (readValue maxDepth) chars value) (hbefore : IsBlanks before)
    (hafter : IsBlanks after) {text : String} (htext : text.toList = before ++ (chars ++ after)) :
    read text = .ok value := by
  have hends : EndsNumber after := by
    have hblanks := endsNumber_blanks hafter endsNumber_nil
    rwa [List.append_nil] at hblanks
  obtain ⟨offset', hread⟩ := h before after 0 hbefore hends
  simp only [read, htext, hread, bind, Except.bind, skipBlanks_of_isBlanks hafter]

end Objects

end PuppetInventory.Json
