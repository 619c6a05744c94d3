import PuppetInventory.Proofs.Reading.Tokens
import PuppetInventory.Syntax.Lowering

/-!
Literals between delimiters: the parts that their content falls into, the trees that they are read
as, and what the trees stand for.
-/

namespace PuppetInventory.Syntax

/-- A part of the content of a literal. -/
inductive LiteralPart where
  /-- A run of plain text. -/
  | run (chars : List Char)
  | escape (chars : List Char)

namespace LiteralPart

def kind : LiteralPart → Kind
  | .run _ => .stringContent
  | .escape _ => .escapeSequence

def chars : LiteralPart → List Char
  | .run chars => chars
  | .escape chars => chars

/-- The characters that a part stands for, as far as its kind tells. -/
def value : LiteralPart → List Char
  | .run chars => chars
  | .escape chars => unescape chars

/-- The content that falls into parts. -/
def content (parts : List LiteralPart) : List Char :=
  parts.flatMap chars

def values (parts : List LiteralPart) : List Char :=
  parts.flatMap value

/-- The trees of parts that start at a place. -/
def trees (position : Position) : List LiteralPart → List Tree
  | [] => []
  | part :: rest =>
    .leaf part.kind ⟨position, position.past part.chars⟩ ::
      trees (position.past part.chars) rest

@[simp]
theorem content_nil : content [] = [] :=
  rfl

@[simp]
theorem content_cons (part : LiteralPart) (parts : List LiteralPart) :
    content (part :: parts) = part.chars ++ content parts :=
  List.flatMap_cons

end LiteralPart

namespace LiteralForm

/-- Whether a literal is a text or a symbol. Its delimiter is no backslash. -/
def isTextual (form : LiteralForm) : Bool :=
  (form.kind = .text || form.kind = .symbol) && form.closing ≠ '\\'

/-- How the content before the closing delimiter falls into parts. `depth` counts the delimiters
that are open inside. -/
inductive Divides (form : LiteralForm) (behind : List Char) : Nat → List LiteralPart → Prop where
  | closing : Divides form behind 0 []
  | run {depth inner : Nat} {chars : List Char} {parts : List LiteralPart} (hchars : chars ≠ [])
      (hrun : form.plainRun depth 0
          (chars ++ (LiteralPart.content parts ++ form.closing :: behind)) = (chars.length, inner))
      (hparts : Divides form behind inner parts) : Divides form behind depth (.run chars :: parts)
  | escape {depth : Nat} {chars : List Char} {parts : List LiteralPart}
      (hstop : form.plainRun depth 0
        ('\\' :: (chars ++ (LiteralPart.content parts ++ form.closing :: behind))) = (0, depth))
      (hescape : ∀ position : Position,
        (Input.mk ('\\' :: (chars ++ (LiteralPart.content parts ++ form.closing :: behind)))
          position).afterEscape? =
          some ⟨LiteralPart.content parts ++ form.closing :: behind,
            position.past ('\\' :: chars)⟩)
      (hparts : Divides form behind depth parts) :
      Divides form behind depth (.escape ('\\' :: chars) :: parts)

theorem kind_of_isTextual {form : LiteralForm} (h : form.isTextual = true) :
    form.kind = .text ∨ form.kind = .symbol := by
  simp only [isTextual, Bool.and_eq_true, Bool.or_eq_true, decide_eq_true_eq] at h
  exact h.1

theorem closing_ne_of_isTextual {form : LiteralForm} (h : form.isTextual = true) :
    form.closing ≠ '\\' := by
  simp only [isTextual, Bool.and_eq_true, decide_eq_true_eq] at h
  exact h.2

theorem dividesItems_of_isTextual {form : LiteralForm} (h : form.isTextual = true) :
    form.dividesItems = false := by
  rcases kind_of_isTextual h with hkind | hkind <;> simp [dividesItems, hkind]

theorem afterClosing_of_isTextual {form : LiteralForm} (h : form.isTextual = true)
    (input : Input) : form.afterClosing input = input.step := by
  rcases kind_of_isTextual h with hkind | hkind <;> simp [afterClosing, hkind]

/-! Forms that read no escapes -/

/-- Whether a form reads no escapes. Its delimiters are no backslashes and no line breaks. -/
def isRaw (form : LiteralForm) : Bool :=
  form.isTextual && !form.interpolates &&
    ['\\', '\r', '\n'].all fun c => c ≠ form.opening && c ≠ form.closing

section

variable {form : LiteralForm} {rest : List Char}

theorem dividesItems_of_isRaw (hform : form.isRaw = true) : form.dividesItems = false := by
  rw [isRaw, Bool.and_eq_true, Bool.and_eq_true] at hform
  exact dividesItems_of_isTextual hform.1.1

theorem interpolates_of_isRaw (hform : form.isRaw = true) : form.interpolates = false := by
  simp only [isRaw, Bool.and_eq_true, Bool.not_eq_true'] at hform
  exact hform.1.2

theorem ne_of_isRaw (hform : form.isRaw = true) {c : Char} (hc : c ∈ ['\\', '\r', '\n']) :
    c ≠ form.opening ∧ c ≠ form.closing := by
  rw [isRaw, Bool.and_eq_true] at hform
  simpa using List.all_eq_true.1 hform.2 c hc

theorem plainRun_raw
    (hform : form.isRaw = true) {c : Char} (hslash : c ≠ '\\') (hclosing : c ≠ form.closing)
    (depth passed : Nat) :
    form.plainRun depth passed (c :: rest) =
      form.plainRun (if c = form.opening then depth + 1 else depth) (passed + 1) rest := by
  rw [plainRun.eq_def]
  simp only [dividesItems_of_isRaw hform, interpolates_of_isRaw hform, hslash, hclosing,
    Bool.false_and, Bool.false_eq_true, if_false]
  split <;> rfl

theorem plainRun_closing (hform : form.isRaw = true) (depth passed : Nat) :
    form.plainRun (depth + 1) passed (form.closing :: rest) =
      form.plainRun depth (passed + 1) rest := by
  rw [plainRun.eq_def]
  simp [dividesItems_of_isRaw hform]

theorem plainRun_backslash (hform : form.isRaw = true) (depth passed : Nat) (c : Char) :
    form.plainRun depth passed ('\\' :: c :: rest) = form.plainRun depth (passed + 2) rest := by
  have hdelimiters : '\\' ≠ form.opening ∧ '\\' ≠ form.closing := ne_of_isRaw hform (by decide)
  rw [plainRun.eq_def]
  simp [dividesItems_of_isRaw hform, interpolates_of_isRaw hform, hdelimiters]

end

end LiteralForm

/-- A literal as it is written. -/
structure Literal where
  form : LiteralForm
  opening : List Char
  parts : List LiteralPart

namespace Literal

/-- The characters behind the opening. -/
def behind (literal : Literal) : List Char :=
  LiteralPart.content literal.parts ++ [literal.form.closing]

def chars (literal : Literal) : List Char :=
  literal.opening ++ literal.behind

def tree (literal : Literal) (position : Position) : Tree :=
  .branch (Grammar.literalTreeKind literal.form.kind) ⟨position, position.past literal.chars⟩
    (LiteralPart.trees (position.past literal.opening) literal.parts)

/-- The opening as a token, with what follows the literal. -/
def token (literal : Literal) (position : Position) (spaced : Bool) (rest : List Char) : Token :=
  .over (.literal literal.form) position spaced literal.opening (literal.behind ++ rest)

/-- A cursor right behind a literal that starts at a place. -/
def cursorBehind
    (literal : Literal) (position : Position) (rest : List Char) (trees : List Tree) : Cursor :=
  .reading ⟨rest, position.past literal.chars⟩ ⟨position, position.past literal.chars⟩
    (literal.tree position :: trees)

/-- The characters that a literal stands for. Behind a single quote, backslashes in its parts are
left to be read. -/
def value (literal : Literal) : List Char :=
  if literal.opening.head? = some '\'' then unescapeSingle (LiteralPart.values literal.parts)
  else LiteralPart.values literal.parts

/-- A literal whose content is one run of plain text. -/
def ofRun (form : LiteralForm) (opening content : List Char) : Literal where
  form := form
  opening := opening
  parts := if content.isEmpty then [] else [.run content]

section

variable (form : LiteralForm) (opening content : List Char)

theorem content_ofRun : LiteralPart.content (ofRun form opening content).parts = content := by
  cases content with
  | nil => rfl
  | cons c content => exact List.append_nil _

theorem values_ofRun : LiteralPart.values (ofRun form opening content).parts = content := by
  cases content with
  | nil => rfl
  | cons c content => exact List.append_nil _

theorem chars_ofRun :
    (ofRun form opening content).chars = opening ++ (content ++ [form.closing]) := by
  rw [chars, behind, content_ofRun]
  rfl

theorem divides_ofRun
    {rest : List Char}
    (h : form.plainRun 0 0 (content ++ form.closing :: rest) = (content.length, 0)) :
    form.Divides rest 0 (ofRun form opening content).parts := by
  cases content with
  | nil => exact .closing
  | cons c content => exact .run (List.cons_ne_nil c content) h .closing

end

end Literal

/-! Reading -/

namespace Grammar

variable {form : LiteralForm} {rules : Rules} {behind : List Char} {position : Position}
  {last : Span} {depth : Nat} {parts : List LiteralPart}

theorem literalStep_run
    (start : Position) (trees : List Tree) {chars rest : List Char} {inner : Nat}
    (hchars : chars ≠ []) (hrun : form.plainRun depth 0 (chars ++ rest) = (chars.length, inner)) :
    Runs (literalStep form start depth) rules (.reading ⟨chars ++ rest, position⟩ last trees)
      (some inner)
      (.reading ⟨rest, position.past chars⟩ last
        (.leaf .stringContent ⟨position, position.past chars⟩ :: trees)) := by
  have hlength : 0 < chars.length := List.length_pos_iff.2 hchars
  have hskip := Input.skip_append chars rest position
  unfold literalStep
  refine Runs.bind Runs.getCursor ?_
  simp only [Cursor.reading, hrun, hlength, if_true, hskip]
  exact Runs.bind (Runs.part _ _) (Runs.pure _)

theorem escape_runs {chars rest : List Char} (trees : List Tree)
    (hescape : (Input.mk ('\\' :: (chars ++ rest)) position).afterEscape? =
      some ⟨rest, position.past ('\\' :: chars)⟩) :
    Runs escape rules (.reading ⟨'\\' :: (chars ++ rest), position⟩ last trees) ()
      (.reading ⟨rest, position.past ('\\' :: chars)⟩ last
        (.leaf .escapeSequence ⟨position, position.past ('\\' :: chars)⟩ :: trees)) := by
  unfold escape
  refine Runs.bind Runs.getCursor ?_
  simp only [Cursor.reading, hescape]
  exact Runs.part .escapeSequence _

theorem literalStep_escape
    (hform : form.isTextual = true) (start : Position) (trees : List Tree)
    {chars rest : List Char}
    (hstop : form.plainRun depth 0 ('\\' :: (chars ++ rest)) = (0, depth))
    (hescape : (Input.mk ('\\' :: (chars ++ rest)) position).afterEscape? =
      some ⟨rest, position.past ('\\' :: chars)⟩) :
    Runs (literalStep form start depth) rules
      (.reading ⟨'\\' :: (chars ++ rest), position⟩ last trees) (some depth)
      (.reading ⟨rest, position.past ('\\' :: chars)⟩ last
        (.leaf .escapeSequence ⟨position, position.past ('\\' :: chars)⟩ :: trees)) := by
  have hclosing : '\\' ≠ form.closing := Ne.symm (LiteralForm.closing_ne_of_isTextual hform)
  unfold literalStep
  refine Runs.bind Runs.getCursor ?_
  simp only [Cursor.reading, hstop, LiteralForm.dividesItems_of_isTextual hform, hclosing,
    Bool.false_and, Bool.false_eq_true, if_false, if_true, Nat.lt_irrefl]
  exact Runs.bind (escape_runs trees hescape) (Runs.pure (some depth))

theorem literalStep_closing (hform : form.isTextual = true) (start : Position) (trees : List Tree) :
    Runs (literalStep form start 0) rules
      (.reading ⟨form.closing :: behind, position⟩ last trees) none
      (.reading ⟨behind, position.after form.closing⟩
        ⟨start, position.after form.closing⟩ trees) := by
  have hrun : form.plainRun 0 0 (form.closing :: behind) = (0, 0) := by
    rw [LiteralForm.plainRun.eq_def]
    simp [LiteralForm.dividesItems_of_isTextual hform]
  have hclose : closeLiteral form start = withCursor fun cursor =>
      { cursor with input := cursor.input.step, last := cursor.input.step.spanFrom start } := by
    unfold closeLiteral
    simp only [LiteralForm.afterClosing_of_isTextual hform]
  unfold literalStep
  refine Runs.bind Runs.getCursor ?_
  simp only [Cursor.reading, hrun, LiteralForm.dividesItems_of_isTextual hform, hclose,
    Bool.false_and, Bool.false_eq_true, if_false, if_true, Nat.lt_irrefl]
  exact Runs.bind (Runs.withCursor _) (Runs.pure none)

/-- The content of a literal is read part by part, up to the closing delimiter. -/
theorem iterateBy_literalStep
    (hform : form.isTextual = true) (start : Position) (hparts : form.Divides behind depth parts)
    {fuel : Nat} (hfuel : parts.length < fuel) (position : Position) (trees : List Tree) :
    Runs (iterateBy (literalStep form start) fuel depth) rules
      (.reading ⟨LiteralPart.content parts ++ form.closing :: behind, position⟩ last trees) 0
      (.reading ⟨behind, position.past (LiteralPart.content parts ++ [form.closing])⟩
        ⟨start, position.past (LiteralPart.content parts ++ [form.closing])⟩
        ((LiteralPart.trees position parts).reverse ++ trees)) := by
  induction hparts generalizing fuel position trees with
  | closing =>
    obtain ⟨fuel, rfl⟩ := Nat.exists_eq_succ_of_ne_zero (Nat.ne_zero_of_lt hfuel)
    exact Runs.iterateBy_stop fuel (literalStep_closing hform start trees)
  | @run depth inner chars parts hchars hrun hparts ih =>
    obtain ⟨fuel, rfl⟩ := Nat.exists_eq_succ_of_ne_zero (Nat.ne_zero_of_lt hfuel)
    have hrest := ih (Nat.lt_of_succ_lt_succ hfuel) (position.past chars)
      (.leaf .stringContent ⟨position, position.past chars⟩ :: trees)
    simp only [LiteralPart.content_cons, LiteralPart.chars, LiteralPart.trees, LiteralPart.kind,
      List.append_assoc, List.reverse_cons, List.singleton_append,
      Position.past_append position chars]
    exact Runs.iterateBy_step (literalStep_run start trees hchars hrun) hrest
  | @escape depth chars parts hstop hescape hparts ih =>
    obtain ⟨fuel, rfl⟩ := Nat.exists_eq_succ_of_ne_zero (Nat.ne_zero_of_lt hfuel)
    have hrest := ih (Nat.lt_of_succ_lt_succ hfuel) (position.past ('\\' :: chars))
      (.leaf .escapeSequence ⟨position, position.past ('\\' :: chars)⟩ :: trees)
    simp only [LiteralPart.content_cons, LiteralPart.chars, LiteralPart.trees, LiteralPart.kind,
      List.append_assoc, List.reverse_cons, List.singleton_append,
      Position.past_append position ('\\' :: chars)]
    exact Runs.iterateBy_step (literalStep_escape hform start trees hstop (hescape position)) hrest

/-- A literal is read to its closing delimiter and no further. -/
theorem literal_runs
    {literal : Literal} (hform : literal.form.isTextual = true)
    (hparts : literal.form.Divides behind 0 literal.parts)
    (hlength : literal.parts.length < rules.size) (spaced : Bool) {input : Input}
    {trees : List Tree} :
    Runs (Grammar.literal literal.form (literal.token position spaced behind)) rules
      (.reading input last trees) () (literal.cursorBehind position behind trees) := by
  obtain ⟨form, opening, parts⟩ := literal
  let whole : Literal := ⟨form, opening, parts⟩
  have hpast : position.past whole.chars =
      (position.past opening).past (LiteralPart.content parts ++ [form.closing]) :=
    Position.past_append _ _ _
  have hbehind : whole.behind ++ behind = LiteralPart.content parts ++ form.closing :: behind := by
    simp [whole, Literal.behind]
  have hcontent : Runs (iterate (literalStep form position) 0) rules
      (.reading ⟨whole.behind ++ behind, position.past opening⟩
        ⟨position, position.past opening⟩ []) 0
      (.reading ⟨behind, position.past whole.chars⟩ ⟨position, position.past whole.chars⟩
        (LiteralPart.trees (position.past opening) parts).reverse) := by
    rw [hpast, hbehind, ← List.append_nil (LiteralPart.trees (position.past opening) parts).reverse]
    exact Runs.iterate (iterateBy_literalStep hform position hparts hlength _ [])
  have htree : whole.tree position =
      .branch (literalTreeKind form.kind) ⟨position, position.past whole.chars⟩
        (LiteralPart.trees (position.past opening) parts).reverse.reverse := by
    rw [List.reverse_reverse]
    rfl
  show Runs (Grammar.literal form (whole.token position spaced behind)) rules _ _
    (whole.cursorBehind position behind trees)
  rw [Literal.cursorBehind, htree]
  refine Runs.node _ (Runs.bind (Runs.take ?_) (Runs.bind (Runs.blaming _ hcontent) (Runs.pure ())))
  rintro heredoc ⟨⟩

end Grammar

/-! Values -/

theorem mapM_eq_some {α β : Type} {read : α → Option β} {meaning : α → β} {items : List α}
    (h : ∀ item ∈ items, read item = some (meaning item)) :
    items.mapM read = some (items.map meaning) := by
  induction items with
  | nil => rfl
  | cons item items ih =>
    rw [List.mapM_cons, h item List.mem_cons_self,
      ih fun other hother => h other (List.mem_cons_of_mem item hother)]
    rfl

namespace Tree

variable {document : Array Char} {tree : Tree}

theorem value_eq_plainValue (hhash : tree.kind ≠ .hash) (harray : tree.kind ≠ .array) :
    value document tree = plainValue document tree := by
  obtain ⟨tag, children⟩ := tree
  rw [value]
  split
  · next hkind => exact absurd hkind hhash
  · next hkind => exact absurd hkind harray
  · rfl

theorem value_string {text : List Char} (hkind : tree.kind = .string)
    (h : literalChars? document tree = some text) :
    value document tree = .text (String.ofList text) := by
  rw [value_eq_plainValue (by simp [hkind]) (by simp [hkind]), plainValue, hkind]
  simp only [literalText?, h, Option.map_some, Option.getD_some]

theorem value_delimitedSymbol {text : List Char} (hkind : tree.kind = .delimitedSymbol)
    (h : literalChars? document tree = some text) :
    value document tree = .symbol (String.ofList text) := by
  rw [value_eq_plainValue (by simp [hkind]) (by simp [hkind]), plainValue, hkind]
  simp only [literalText?, h, Option.map_some, Option.getD_some]

/-- Texts that follow each other stand for what they spell together. -/
theorem value_chainedString {texts : List (List Char)} (hkind : tree.kind = .chainedString)
    (h : tree.namedChildren.mapM (fun part =>
      if part.kind = .string then literalChars? document part else none) = some texts) :
    value document tree = .text (String.ofList texts.flatten) := by
  rw [value_eq_plainValue (by simp [hkind]) (by simp [hkind]), plainValue, hkind]
  simp only [chainedText?, h, Option.map_some, Option.getD_some]

end Tree

section

variable {document : Array Char} {position : Position} {parts : List LiteralPart}

theorem mapM_pieceChars?_trees (h : Stands document position (LiteralPart.content parts)) :
    ((LiteralPart.trees position parts).mapM (Tree.pieceChars? document)).map List.flatten =
      some (LiteralPart.values parts) := by
  induction parts generalizing position with
  | nil => rfl
  | cons part parts ih =>
    rw [LiteralPart.content_cons] at h
    have hchars : (Span.mk position (position.past part.chars)).chars document = part.chars :=
      h.left.span_chars
    have hpart : Tree.pieceChars? document
        (.leaf part.kind ⟨position, position.past part.chars⟩) = some part.value := by
      cases part with
      | run chars => exact congrArg some hchars
      | escape chars => exact congrArg (some ∘ unescape) hchars
    have hrest := ih h.right
    rw [Option.map_eq_some_iff] at hrest ⊢
    obtain ⟨pieces, hpieces, hvalues⟩ := hrest
    refine ⟨part.value :: pieces, ?_, ?_⟩
    · rw [LiteralPart.trees, List.mapM_cons, hpart, hpieces]
      rfl
    · rw [List.flatten_cons, hvalues, LiteralPart.values, LiteralPart.values, List.flatMap_cons]

theorem named_of_mem_trees {tree : Tree} (h : tree ∈ LiteralPart.trees position parts) :
    ∃ part ∈ parts, ∃ span, tree = .leaf part.kind span := by
  induction parts generalizing position with
  | nil => cases h
  | cons part parts ih =>
    rcases List.mem_cons.1 h with rfl | h
    · exact ⟨part, List.mem_cons_self, _, rfl⟩
    · obtain ⟨other, hother, span, rfl⟩ := ih h
      exact ⟨other, List.mem_cons_of_mem part hother, span, rfl⟩

namespace Literal

variable (literal : Literal)

theorem namedChildren_tree (position : Position) :
    (literal.tree position).namedChildren =
      LiteralPart.trees (position.past literal.opening) literal.parts := by
  refine List.filter_eq_self.2 fun tree htree => ?_
  obtain ⟨part, -, span, rfl⟩ := named_of_mem_trees htree
  rfl

/-- What a literal stands for in a document. -/
theorem literalChars?_tree
    (hopening : literal.opening ≠ []) (h : Stands document position literal.chars) :
    Tree.literalChars? document (literal.tree position) = some literal.value := by
  have hspan : (literal.tree position).span.chars document = literal.chars := h.span_chars
  have hpieces := mapM_pieceChars?_trees h.right.left
  obtain ⟨first, others, hfirst⟩ := List.exists_cons_of_ne_nil hopening
  rw [Tree.literalChars?, namedChildren_tree, hpieces, hspan, chars, value, hfirst,
    List.cons_append, List.head?_cons]
  by_cases hquote : first = '\''
  · subst hquote
    simp
  · simp [hquote]

end Literal

end

end PuppetInventory.Syntax
