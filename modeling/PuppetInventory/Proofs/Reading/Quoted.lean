import PuppetInventory.Proofs.Reading.Delimited

/-!
Texts between single quotes: how they are written, the trees that they are read as, and what the
trees stand for. A quote has a backslash before it, and so has a backslash unless it stands before
another character of the text.
-/

namespace PuppetInventory.Syntax

/-! Spellings -/

/-- The ways to write a text between single quotes. -/
inductive SpellsQuoted : List Char → List Char → Prop where
  | nil : SpellsQuoted [] []
  | plain {c : Char} {text content : List Char} (hquote : c ≠ '\'') (hslash : c ≠ '\\')
    (h : SpellsQuoted text content) : SpellsQuoted (c :: text) (c :: content)
  | quote {text content : List Char} (h : SpellsQuoted text content) :
    SpellsQuoted ('\'' :: text) ('\\' :: '\'' :: content)
  | doubled {text content : List Char} (h : SpellsQuoted text content) :
    SpellsQuoted ('\\' :: text) ('\\' :: '\\' :: content)
  /-- A backslash that stands alone before another character. -/
  | alone {c : Char} {text content : List Char} (hquote : c ≠ '\'') (hslash : c ≠ '\\')
    (h : SpellsQuoted text content) : SpellsQuoted ('\\' :: c :: text) ('\\' :: c :: content)

namespace SpellsQuoted

variable {text content : List Char}

theorem unescapeSingle_eq (h : SpellsQuoted text content) : unescapeSingle content = text := by
  induction h with
  | nil => rfl
  | plain hquote hslash h ih => simp [unescapeSingle, hslash, ih]
  | quote h ih => rw [unescapeSingle, ih]
  | doubled h ih => rw [unescapeSingle, ih]
  | alone hquote hslash h ih => simp [unescapeSingle, ih]

/-- The content is one run of plain text, up to the closing quote. -/
theorem plainRun_eq (h : SpellsQuoted text content) (passed : Nat) (rest : List Char) :
    LiteralForm.singleQuoted.plainRun 0 passed (content ++ '\'' :: rest) =
      (passed + content.length, 0) := by
  have hraw : LiteralForm.singleQuoted.isRaw = true := rfl
  have hpair {c : Char} {content : List Char} (ih : ∀ passed,
      LiteralForm.singleQuoted.plainRun 0 passed (content ++ '\'' :: rest) =
        (passed + content.length, 0)) (passed : Nat) :
      LiteralForm.singleQuoted.plainRun 0 passed ('\\' :: c :: content ++ '\'' :: rest) =
        (passed + ('\\' :: c :: content).length, 0) := by
    rw [List.cons_append, List.cons_append, LiteralForm.plainRun_backslash hraw, ih]
    simp only [List.length_cons, Nat.add_assoc, Nat.add_comm 2]
  induction h generalizing passed with
  | nil =>
    rw [LiteralForm.plainRun.eq_def]
    simp [LiteralForm.dividesItems, LiteralForm.singleQuoted]
  | @plain c text content hquote hslash h ih =>
    have hopening : c ≠ LiteralForm.singleQuoted.opening := hquote
    rw [List.cons_append, LiteralForm.plainRun_raw hraw hslash hquote, if_neg hopening, ih,
      List.length_cons, Nat.add_assoc, Nat.add_comm 1]
  | quote h ih => exact hpair ih passed
  | doubled h ih => exact hpair ih passed
  | alone hquote hslash h ih => exact hpair ih passed

end SpellsQuoted

/-- A literal between single quotes. -/
def Literal.singleQuoted (content : List Char) : Literal :=
  ofRun .singleQuoted ['\''] content

theorem Literal.chars_singleQuoted (content : List Char) :
    (singleQuoted content).chars = '\'' :: (content ++ ['\'']) :=
  chars_ofRun _ _ content

theorem SpellsQuoted.divides {text content : List Char} (h : SpellsQuoted text content)
    (rest : List Char) :
    LiteralForm.singleQuoted.Divides rest 0 (Literal.singleQuoted content).parts := by
  have hrun := h.plainRun_eq 0 rest
  rw [Nat.zero_add] at hrun
  exact Literal.divides_ofRun _ _ content hrun

theorem SpellsQuoted.value_eq {text content : List Char} (h : SpellsQuoted text content) :
    (Literal.singleQuoted content).value = text := by
  rw [Literal.value, Literal.singleQuoted, Literal.values_ofRun]
  exact h.unescapeSingle_eq

/-! Texts with all backslashes written twice -/

def escapeChar (c : Char) : List Char :=
  if c = '\\' ∨ c = '\'' then ['\\', c] else [c]

/-- A text as it stands between single quotes: with a backslash before every backslash and every
quote. -/
def escaped (text : List Char) : List Char :=
  text.flatMap escapeChar

def quoted (text : List Char) : List Char :=
  '\'' :: (escaped text ++ ['\''])

theorem spellsQuoted_escaped (text : List Char) : SpellsQuoted text (escaped text) := by
  induction text with
  | nil => exact .nil
  | cons c text ih =>
    rw [escaped, List.flatMap_cons, escapeChar]
    split
    · next hspecial =>
      rcases hspecial with rfl | rfl
      · exact .doubled ih
      · exact .quote ih
    · next hplain =>
      rw [not_or] at hplain
      exact .plain hplain.2 hplain.1 ih

theorem escaped_eq_nil_iff {text : List Char} : escaped text = [] ↔ text = [] := by
  have hspells := spellsQuoted_escaped text
  constructor
  · intro h
    rw [h] at hspells
    cases hspells
    rfl
  · rintro rfl
    rfl

theorem mem_quoted {c : Char} {text : List Char} (h : c ∈ quoted text) :
    c ∈ text ∨ c = '\\' ∨ c = '\'' := by
  rw [quoted, List.mem_cons, List.mem_append, List.mem_singleton, escaped, List.mem_flatMap] at h
  rcases h with h | ⟨d, hd, hc⟩ | h
  · exact .inr (.inr h)
  · rw [escapeChar] at hc
    split at hc
    · next hspecial =>
      rw [List.mem_cons, List.mem_singleton] at hc
      rcases hc with rfl | rfl
      · exact .inr (.inl rfl)
      · exact .inr hspecial
    · rw [List.mem_singleton.1 hc]
      exact .inl hd
  · exact .inr (.inr h)

/-! Trees -/

/-- The opening quote of a text, with the text still to be read. -/
def Token.quote (position : Position) (spaced : Bool) (text rest : List Char) : Token :=
  .over (.literal .singleQuoted) position spaced ['\''] (escaped text ++ '\'' :: rest)

/-- The content of a text that starts at a place. An empty text has none. -/
def contentTrees (start : Position) (text : List Char) : List Tree :=
  if text.isEmpty then [] else [.leaf .stringContent ⟨start, start.past (escaped text)⟩]

/-- The tree of a text between single quotes. -/
def textTree (position : Position) (text : List Char) : Tree :=
  .branch .string ⟨position, position.past (quoted text)⟩
    (contentTrees (position.after '\'') text)

/-- A cursor right behind a text that starts at a place. -/
def Cursor.behindText (position : Position) (text rest : List Char) (trees : List Tree) : Cursor :=
  let stop := position.past (quoted text)
  .reading ⟨rest, stop⟩ ⟨position, stop⟩ (textTree position text :: trees)

section

variable {size : Nat} {rest : List Char} {position : Position} {last : Span} {trees : List Tree}

theorem quoted_append (text rest : List Char) :
    quoted text ++ rest = '\'' :: (escaped text ++ '\'' :: rest) := by
  simp [quoted]

theorem Literal.tree_escaped (position : Position) (text : List Char) :
    (singleQuoted (escaped text)).tree position = textTree position text := by
  have hparts : LiteralPart.trees (position.past ['\'']) (singleQuoted (escaped text)).parts =
      contentTrees (position.after '\'') text := by
    rw [contentTrees, singleQuoted, ofRun]
    by_cases hempty : text = []
    · rw [hempty]
      rfl
    · have hescaped : escaped text ≠ [] := mt escaped_eq_nil_iff.1 hempty
      simp only [List.isEmpty_iff, hempty, hescaped, if_false]
      rfl
  have hspan : position.past (singleQuoted (escaped text)).chars = position.past (quoted text) := by
    rw [chars_singleQuoted]
    rfl
  rw [textTree, ← hparts, ← hspan]
  rfl

theorem Runs.peek_quoted
    {stance : Stance} {rules : Rules} {blanks : List Char} (text : List Char)
    (hblanks : stance.Passes blanks) (htext : stance.takesText = true) :
    Runs (Grammar.peek stance) rules
      (.reading ⟨blanks ++ (quoted text ++ rest), position⟩ last trees)
      (.quote (position.past blanks) (!blanks.isEmpty) text rest)
      (.reading ⟨blanks ++ (quoted text ++ rest), position⟩ last trees) := by
  rw [quoted_append]
  exact peek_quote hblanks htext

theorem literal_quoted
    {rules : Rules} (hsize : rules.size = size + 2) (spaced : Bool) (text : List Char)
    {input : Input} :
    Runs (Grammar.literal .singleQuoted (.quote position spaced text rest)) rules
      (.reading input last trees) () (.behindText position text rest trees) := by
  let literal := Literal.singleQuoted (escaped text)
  have hchars : literal.chars = quoted text := Literal.chars_singleQuoted _
  have hcontent : LiteralPart.content literal.parts = escaped text := Literal.content_ofRun _ _ _
  have hbehind : literal.behind ++ rest = escaped text ++ '\'' :: rest := by
    rw [Literal.behind, hcontent, List.append_assoc]
    rfl
  have hlength : literal.parts.length < rules.size := by
    have hone : literal.parts.length ≤ 1 := by
      simp only [literal, Literal.singleQuoted, Literal.ofRun]
      split <;> simp
    omega
  have hread : Runs (Grammar.literal literal.form (literal.token position spaced rest)) rules
      (.reading input last trees) () (literal.cursorBehind position rest trees) :=
    Grammar.literal_runs rfl ((spellsQuoted_escaped text).divides rest) hlength spaced
  rw [Literal.token, Literal.cursorBehind, Literal.tree_escaped, hchars, hbehind] at hread
  exact hread

end

/-! Values -/

section

variable {document : Array Char} {position : Position} {text : List Char}

theorem value_textTree (role : Role) (h : Stands document position (quoted text)) :
    Tree.value document ((textTree position text).withRole role) = .text (String.ofList text) := by
  have hchars : (Literal.singleQuoted (escaped text)).chars = quoted text :=
    Literal.chars_singleQuoted _
  have htext := (Literal.singleQuoted (escaped text)).literalChars?_tree (List.cons_ne_nil _ _)
    (hchars ▸ h)
  have hvalue : (Literal.singleQuoted (escaped text)).value = text :=
    (spellsQuoted_escaped text).value_eq
  rw [Literal.tree_escaped, hvalue] at htext
  exact Tree.value_string rfl htext

end

end PuppetInventory.Syntax
