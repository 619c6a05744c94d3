import PuppetInventory.Proofs.Reading.Operands

/-!
Items between brackets. What is written with commas between its parts is read part by part, up to
the closing mark.
-/

namespace PuppetInventory.Syntax

/-! The end of an item -/

/-- Whether a comma or a closing mark comes next. -/
def EndsItem (rest : List Char) : Prop :=
  ∃ c behind mark, rest = c :: behind ∧ punctuation? c = some mark ∧
    (Lexeme.mark mark).endsItem = true

namespace EndsItem

variable {rest : List Char}

theorem of_punctuation {c : Char} {mark : Mark} (rest : List Char)
    (hmark : punctuation? c = some mark) (hends : (Lexeme.mark mark).endsItem = true) :
    EndsItem (c :: rest) :=
  ⟨c, rest, mark, rfl, hmark, hends⟩

theorem endsWord (h : EndsItem rest) : endsWord rest = true := by
  obtain ⟨c, behind, mark, rfl, hmark, hends⟩ := h
  unfold punctuation? at hmark
  split at hmark <;> first
    | rfl
    | (cases hmark <;> cases hends)

theorem endsExpression (h : EndsItem rest) (context : Context) (position : Position) :
    EndsExpression context ⟨rest, position⟩ := by
  obtain ⟨c, behind, mark, rfl, hmark, hends⟩ := h
  exact EndsExpression.punctuation hmark hends

theorem endsAll (h : EndsItem rest) (lineEnds : Bool) (position : Position) :
    EndsAll lineEnds ⟨rest, position⟩ :=
  fun context _ => h.endsExpression context position

end EndsItem

theorem Lexeme.ne_of_startsPrimary {lexeme : Lexeme} {mark : Mark}
    (hstarts : lexeme.startsPrimary = true) (hends : (Lexeme.mark mark).endsItem = true) :
    lexeme ≠ .mark mark := by
  rintro rfl
  unfold startsPrimary at hstarts
  split at hstarts <;> simp_all [endsItem]

/-! Items -/

/-- An item as it is written, and what it is read as. -/
structure Item where
  /-- What the first token is. -/
  lexeme : Lexeme
  opening : List Char
  /-- The characters behind the first token. -/
  behind : List Char
  tree : Position → Tree
  /-- Where the last token starts. -/
  lastStart : Position → Position

namespace Item

def chars (item : Item) : List Char :=
  item.opening ++ item.behind

def stop (item : Item) (position : Position) : Position :=
  position.past item.chars

/-- The last token. -/
def last (item : Item) (position : Position) : Span :=
  ⟨item.lastStart position, item.stop position⟩

def token (item : Item) (position : Position) (spaced : Bool) (rest : List Char) : Token :=
  .over item.lexeme position spaced item.opening (item.behind ++ rest)

/-- A cursor right behind an item that starts at a place. -/
def cursorBehind
    (item : Item) (position : Position) (rest : List Char) (trees : List Tree) : Cursor :=
  .reading ⟨rest, item.stop position⟩ (item.last position) (item.tree position :: trees)

/-- Items with a comma before each. -/
def moreChars (items : List Item) : List Char :=
  items.flatMap fun item => ',' :: ' ' :: item.chars

/-- Items with commas between them. -/
def allChars : List Item → List Char
  | [] => []
  | item :: items => item.chars ++ moreChars items

/-- The trees of items, the first of which starts at a place. -/
def trees (position : Position) : List Item → List Tree
  | [] => []
  | item :: items => item.tree position :: trees ((item.stop position).past [',', ' ']) items

theorem moreChars_cons (item : Item) (items : List Item) :
    moreChars (item :: items) = ',' :: ' ' :: allChars (item :: items) := by
  rw [moreChars, List.flatMap_cons, List.cons_append, List.cons_append]
  rfl

theorem allChars_eq_intercalate (items : List Item) :
    allChars items = [',', ' '].intercalate (items.map chars) := by
  induction items with
  | nil => rfl
  | cons item items ih =>
    cases items with
    | nil => exact (List.append_nil item.chars).trans List.intercalate_singleton.symm
    | cons other items =>
      simp only [List.map_cons] at ih ⊢
      rw [allChars, moreChars_cons, ih, List.intercalate_cons_cons, List.append_assoc]
      rfl

/-- Items between marks. -/
def enclosed (kind : Kind) (mark : Mark) (first final : Char) (items : List Item) : Item where
  lexeme := .mark mark
  opening := [first]
  behind := allChars items ++ [final]
  tree position :=
    .branch kind ⟨position, position.past (first :: (allChars items ++ [final]))⟩
      (trees (position.past [first]) items)
  lastStart position := position.past (first :: allChars items)

theorem chars_enclosed (kind : Kind) (mark : Mark) (first final : Char) (items : List Item) :
    (enclosed kind mark first final items).chars = first :: (allChars items ++ [final]) :=
  rfl

theorem length_enclosed (kind : Kind) (mark : Mark) (first final : Char) (items : List Item) :
    (enclosed kind mark first final items).chars.length = (allChars items).length + 2 := by
  rw [chars_enclosed, List.length_cons, List.length_append, List.length_singleton]

/-- Whether a rule reads an item to its end and no further, from where a stance looks for it. -/
structure IsReadBy (item : Item) (stance : Stance) (rule : Token → Parse Unit) (rules : Rules) :
    Prop where
  starts : item.lexeme.startsPrimary = true
  look {blanks : List Char} (hblanks : stance.Passes blanks) {rest : List Char}
    (hrest : EndsItem rest) (position : Position) (last : Span) (trees : List Tree) :
    Runs (Grammar.peek stance) rules
      (.reading ⟨blanks ++ (item.chars ++ rest), position⟩ last trees)
      (item.token (position.past blanks) (!blanks.isEmpty) rest)
      (.reading ⟨blanks ++ (item.chars ++ rest), position⟩ last trees)
  read {rest : List Char} (hrest : EndsItem rest) (position : Position) (spaced : Bool)
    (input : Input) (last : Span) (trees : List Tree) :
    Runs (rule (item.token position spaced rest)) rules (.reading input last trees) ()
      (item.cursorBehind position rest trees)

end Item

namespace Grammar

variable {stance : Stance} {rule : Token → Parse Unit} {rules : Rules} {closing : Mark} {c : Char}

/-- One more item with the mark behind it, or the closing mark; whether items can follow. -/
def itemStep (stance : Stance) (closing : Mark) (item : Token → Parse Unit) : Parse Bool := do
  let token ← peek stance
  if token.isMark closing then
    take token
    return false
  else
    item token
    let next ← peek Context.item.behind
    if next.isMark .comma then
      take next
      return true
    else if next.isMark closing then
      take next
      return false
    else fail

/-- A cursor right behind a mark at a place. -/
def cursorBehindMark (c : Char) (position : Position) (rest : List Char) (trees : List Tree) :
    Cursor :=
  .reading ⟨rest, position.past [c]⟩ ⟨position, position.past [c]⟩ trees

theorem take_mark (mark : Mark) (position : Position) (spaced : Bool) (rest : List Char)
    {input : Input} {last : Span} {trees : List Tree} :
    Runs (take (.over (.mark mark) position spaced [c] rest)) rules (.reading input last trees) ()
      (cursorBehindMark c position rest trees) :=
  Runs.take (by rintro heredoc ⟨⟩)

section

variable {item : Item} {blanks : List Char} {position : Position} {last : Span} {trees : List Tree}

theorem itemStep_empty
    (hclosing : punctuation? c = some closing) (rest : List Char) :
    Runs (itemStep stance closing rule) rules (.reading ⟨c :: rest, position⟩ last trees) false
      (cursorBehindMark c position rest trees) := by
  refine Runs.bind (Runs.peek_punctuation stance.passes_nil hclosing) ?_
  have hmark : (Token.over (.mark closing) position false [c] rest).isMark closing = true :=
    decide_eq_true rfl
  rw [Position.past_nil, List.isEmpty_nil, Bool.not_true, hmark]
  exact Runs.bind (take_mark closing position false rest) (Runs.pure false)

/-- An item is read with the mark behind it. -/
theorem itemStep_item
    (hclosing : (Lexeme.mark closing).endsItem = true) (hitem : item.IsReadBy stance rule rules)
    (hblanks : stance.Passes blanks) {mark : Mark} (hmark : punctuation? c = some mark)
    (hends : mark = .comma ∨ mark = closing ∧ closing ≠ .comma) (rest : List Char)
    (position : Position) (last : Span) (trees : List Tree) :
    Runs (itemStep stance closing rule) rules
      (.reading ⟨blanks ++ (item.chars ++ c :: rest), position⟩ last trees)
      (decide (mark = .comma))
      (cursorBehindMark c (item.stop (position.past blanks)) rest
        (item.tree (position.past blanks) :: trees)) := by
  have hends' : (Lexeme.mark mark).endsItem = true := by
    rcases hends with rfl | ⟨rfl, -⟩
    · rfl
    · exact hclosing
  have hrest : EndsItem (c :: rest) := .of_punctuation rest hmark hends'
  have hopen : (item.token (position.past blanks) (!blanks.isEmpty) (c :: rest)).isMark closing =
      false := decide_eq_false (Lexeme.ne_of_startsPrimary hitem.starts hclosing)
  refine Runs.bind (hitem.look hblanks hrest position last trees) ?_
  rw [hopen]
  refine Runs.bind (hitem.read hrest _ _ _ _ _) ?_
  refine Runs.bind (Runs.peek_punctuation (Stance.passes_nil _) hmark) ?_
  rcases hends with rfl | ⟨rfl, hother⟩
  · exact Runs.bind (take_mark .comma _ false rest) (Runs.pure true)
  · have hcomma : (Token.over (.mark mark) (item.stop (position.past blanks)) false [c] rest).isMark
        .comma = false := by simp [Token.isMark, Token.over, hother]
    have hmark : (Token.over (.mark mark) (item.stop (position.past blanks)) false [c] rest).isMark
        mark = true := decide_eq_true rfl
    rw [Position.past_nil, List.isEmpty_nil, Bool.not_true, hcomma, hmark, decide_eq_false hother]
    exact Runs.bind (take_mark mark _ false rest) (Runs.pure false)

/-- The items that are left are read up to the closing mark. -/
theorem repeats_items
    (hclosing : punctuation? c = some closing) (hends : (Lexeme.mark closing).endsItem = true)
    (hother : closing ≠ .comma) (items : List Item)
    (hitems : ∀ other ∈ item :: items, other.IsReadBy stance rule rules) {fuel : Nat}
    (hfuel : items.length < fuel) (hblanks : stance.Passes blanks) (rest : List Char)
    (position : Position) (last : Span) (trees : List Tree) :
    Repeats (itemStep stance closing rule) fuel rules
      (.reading ⟨blanks ++ (Item.allChars (item :: items) ++ c :: rest), position⟩ last trees)
      (cursorBehindMark c ((position.past blanks).past (Item.allChars (item :: items))) rest
        ((Item.trees (position.past blanks) (item :: items)).reverse ++ trees)) := by
  -- Along the items that are left: a comma comes behind each but the last.
  induction items generalizing item fuel blanks position last trees with
  | nil =>
    obtain ⟨fuel, rfl⟩ := Nat.exists_eq_succ_of_ne_zero (Nat.ne_zero_of_lt hfuel)
    have hstep := itemStep_item hends (hitems item List.mem_cons_self) hblanks hclosing
      (.inr ⟨rfl, hother⟩) rest position last trees
    have hchars : Item.allChars [item] = item.chars := List.append_nil _
    rw [decide_eq_false hother] at hstep
    rw [hchars]
    exact Repeats.stop fuel hstep
  | cons other items ih =>
    obtain ⟨fuel, rfl⟩ := Nat.exists_eq_succ_of_ne_zero (Nat.ne_zero_of_lt hfuel)
    let behind := ' ' :: (Item.allChars (other :: items) ++ c :: rest)
    have hstep : Runs (itemStep stance closing rule) rules
        (.reading ⟨blanks ++ (item.chars ++ ',' :: behind), position⟩ last trees) true
        (cursorBehindMark ',' (item.stop (position.past blanks)) behind
          (item.tree (position.past blanks) :: trees)) :=
      itemStep_item hends (hitems item List.mem_cons_self) hblanks rfl (.inl rfl) behind position
        last trees
    have hrest := ih (fun another hanother => hitems another (List.mem_cons_of_mem item hanother))
      (Nat.lt_of_succ_lt_succ hfuel) stance.passes_space
      ((item.stop (position.past blanks)).past [','])
      ⟨item.stop (position.past blanks), (item.stop (position.past blanks)).past [',']⟩
      (item.tree (position.past blanks) :: trees)
    have hchars : Item.allChars (item :: other :: items) ++ c :: rest =
        item.chars ++ ',' :: behind := by
      rw [Item.allChars, Item.moreChars_cons, List.append_assoc]
      rfl
    have hplace : (position.past blanks).past (Item.allChars (item :: other :: items)) =
        (((item.stop (position.past blanks)).past [',']).past [' ']).past
          (Item.allChars (other :: items)) := by
      rw [Item.allChars, Item.moreChars_cons, Position.past_append]
      rfl
    have htrees : (Item.trees (position.past blanks) (item :: other :: items)).reverse ++ trees =
        (Item.trees (((item.stop (position.past blanks)).past [',']).past [' '])
          (other :: items)).reverse ++ item.tree (position.past blanks) :: trees := by
      rw [Item.trees, List.reverse_cons, List.append_assoc]
      rfl
    rw [hchars, hplace, htrees]
    exact Repeats.again hstep hrest

/-- Items are read up to the closing mark, which is read too. -/
theorem items_runs
    (hclosing : punctuation? c = some closing) (hends : (Lexeme.mark closing).endsItem = true)
    (hother : closing ≠ .comma) {items : List Item}
    (hitems : ∀ item ∈ items, item.IsReadBy stance rule rules) (hsize : items.length < rules.size)
    (rest : List Char) (position : Position) (last : Span) (trees : List Tree) :
    Runs (Grammar.items stance closing rule) rules
      (.reading ⟨Item.allChars items ++ c :: rest, position⟩ last trees) ()
      (cursorBehindMark c (position.past (Item.allChars items)) rest
        ((Item.trees position items).reverse ++ trees)) := by
  refine Repeats.repeating ?_
  obtain ⟨fuel, hfuel⟩ := Nat.exists_eq_add_of_lt hsize
  cases items with
  | nil =>
    rw [hfuel]
    exact Repeats.stop _ (itemStep_empty hclosing rest)
  | cons item items =>
    exact repeats_items hclosing hends hother items hitems (Nat.lt_of_succ_lt hsize)
      stance.passes_nil rest position last trees

/-- Items between marks are read with both marks. -/
theorem enclosed_runs
    (kind : Kind) (mark : Mark) (first : Char) (hclosing : punctuation? c = some closing)
    (hends : (Lexeme.mark closing).endsItem = true) (hother : closing ≠ .comma) {items : List Item}
    (hitems : ∀ item ∈ items, item.IsReadBy stance rule rules) (hsize : items.length < rules.size)
    (rest : List Char) (position : Position) (spaced : Bool) (input : Input) (last : Span)
    (trees : List Tree) :
    let list := Item.enclosed kind mark first c items
    let token := list.token position spaced rest
    Runs
      (node kind token do
        take token
        Grammar.items stance closing rule)
      rules (.reading input last trees) () (list.cursorBehind position rest trees) := by
  intro list token
  have htoken : token =
      .over (.mark mark) position spaced [first] (Item.allChars items ++ c :: rest) := by
    simp [token, list, Item.token, Item.enclosed]
  have hplace : position.past list.chars =
      ((position.past [first]).past (Item.allChars items)).past [c] := by
    simp [list, Item.chars, Item.enclosed]
  have hinside := items_runs hclosing hends hother hitems hsize rest (position.past [first])
    ⟨position, position.past [first]⟩ []
  have htree : list.tree position =
      .branch kind ⟨position, position.past list.chars⟩
        ((Item.trees (position.past [first]) items).reverse ++ []).reverse := by
    rw [List.append_nil, List.reverse_reverse]
    rfl
  have hlast : list.last position =
      ⟨(position.past [first]).past (Item.allChars items), position.past list.chars⟩ := rfl
  rw [Item.cursorBehind, Item.stop, htree, hlast, htoken, hplace]
  exact Runs.node _ (Runs.bind (take_mark mark position spaced _) hinside)

end

end Grammar

end PuppetInventory.Syntax
