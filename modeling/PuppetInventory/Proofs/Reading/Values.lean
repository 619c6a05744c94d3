import PuppetInventory.Proofs.Reading.Arguments
import PuppetInventory.Proofs.Reading.Items

/-!
Items that are read as values: symbols, `nil`, arrays and hashes. A value between brackets may hold
others, so each comes with bounds on how many tokens it has and on how deeply it nests.
-/

namespace PuppetInventory.Syntax

/-- Whether a value can come here, and nothing but values that starts with a bracket. -/
def Stance.startsValue (stance : Stance) : Bool :=
  stance.operand && !stance.index && !stance.name

theorem Stance.eq_of_startsValue {stance : Stance} (h : stance.startsValue = true) :
    stance.operand = true ∧ stance.index = false ∧ stance.name = false := by
  simpa [startsValue, and_assoc] using h

namespace Item

/-- Whether an item starts as a value does: its first token is found where a value can come, and is
no key. -/
structure StartsValue (item : Item) (size : Nat) : Prop where
  starts : item.lexeme.startsPrimary = true
  look (stance : Stance) (hstance : stance.startsValue = true) {blanks : List Char}
    (hblanks : stance.Passes blanks) {rest : List Char} (hrest : EndsItem rest) (rules : Rules)
    (position : Position) (last : Span) (trees : List Tree) :
    Runs (Grammar.peek stance) rules
      (.reading ⟨blanks ++ (item.chars ++ rest), position⟩ last trees)
      (item.token (position.past blanks) (!blanks.isEmpty) rest)
      (.reading ⟨blanks ++ (item.chars ++ rest), position⟩ last trees)
  noKey (context : Context) {rules : Rules} (hsize : rules.size = size + 2) {rest : List Char}
    (hrest : EndsItem rest) (position : Position) (spaced : Bool) (input : Input) (last : Span)
    (trees : List Tree) :
    Runs (Grammar.startsPair context (item.token position spaced rest)) rules
      (.reading input last trees) false (.reading input last trees)

/-- Whether an item is read as a value, to its end and no further. -/
structure IsValue (item : Item) (size depth : Nat) : Prop extends item.StartsValue size where
  read (context : Context) (hcomma : context.comma = true) {rest : List Char}
    (hrest : EndsItem rest) (position : Position) (spaced : Bool) (input : Input) (last : Span)
    (trees : List Tree) :
    ∃ form : Form, form.isValue = true ∧
      Runs (Grammar.expression context (item.token position spaced rest))
        (grammar (size + 2) depth) (.reading input last trees) form
        (item.cursorBehind position rest trees)

variable {item : Item} {size depth : Nat}

/-- An operand that stands alone is a value between commas. -/
theorem StartsValue.isValue
    (h : item.StartsValue size) {form : Form} (hform : form = .value ∨ form = .target)
    (hread : ∀ context origin {rest : List Char}, EndsItem rest → ∀ position spaced input last,
      Runs (Grammar.simpleOperand context origin (item.token position spaced rest))
        (grammar (size + 2) depth) (.reading input last []) form
        (item.cursorBehind position rest [])) :
    item.IsValue size (depth + 2) where
  toStartsValue := h
  read context hcomma rest hrest position spaced input last trees := by
    have hvalue : form.isValue = true := by rcases hform with rfl | rfl <;> rfl
    have halone : form.standsAlone context := by
      rcases hform with rfl | rfl
      · exact .inl rfl
      · exact .inr (.inr ⟨rfl, hcomma⟩)
    exact ⟨form, hvalue, Grammar.expression_of_simpleOperand [item.tree position] h.starts
      (hrest.endsExpression context _) halone (hread context _ hrest position spaced input last)⟩

theorem argument_of_startsPrimary {context : Context} {token : Token} {rules : Rules}
    {cursor : Cursor} {next : Cursor} (hstarts : token.lexeme.startsPrimary = true)
    (hkey : Runs (Grammar.startsPair context token) rules cursor false cursor)
    (hplain : Runs (Grammar.plainArgument context token) rules cursor () next) :
    Runs (Grammar.argument context token) rules cursor () next := by
  unfold Grammar.argument
  split <;> first
    | (next hmark => rw [hmark] at hstarts; cases hstarts)
    | exact Runs.bind hkey hplain

/-- A value is an item between brackets. -/
theorem IsValue.isReadBy_argument (h : item.IsValue size depth) :
    item.IsReadBy (.argument []) (Grammar.argument .item) (grammar (size + 2) (depth + 1)) where
  starts := h.starts
  look hblanks _ hrest position last trees :=
    h.look _ rfl hblanks hrest _ position last trees
  read {rest} hrest position spaced input last trees := by
    obtain ⟨form, hvalue, hread⟩ := h.read .item rfl hrest position spaced input last []
    obtain ⟨next, hpeek, hnext⟩ := (hrest.endsAll Context.item.lineEnds _).look
      (grammar (size + 2) (depth + 1)) (item.last position) [item.tree position]
    have harrow : next.isMark .arrow = false := by
      rcases Lexeme.cases_of_endsItem hnext with h | h | h | h | h | h <;> simp [Token.isMark, h]
    refine argument_of_startsPrimary h.starts (h.noKey _ (grammar_size _ _) hrest _ _ _ _ _) ?_
    refine Runs.bind (Runs.start _) (Runs.bind Runs.read (Runs.bind (Runs.lift hread) ?_))
    rw [hvalue]
    refine Runs.bind hpeek ?_
    rw [harrow]
    exact Runs.finish _

/-! Symbols and `nil` -/

/-- An item that is one token. -/
def single (lexeme : Lexeme) (chars : List Char) (kind : Kind) : Item where
  lexeme := lexeme
  opening := chars
  behind := []
  tree position := .leaf kind ⟨position, position.past chars⟩
  lastStart position := position

def symbol (name : Name) : Item :=
  single .symbol (':' :: name.chars) .simpleSymbol

def absent : Item :=
  single (.keyword .nil) ['n', 'i', 'l'] .absent

theorem chars_single (lexeme : Lexeme) (chars : List Char) (kind : Kind) :
    (single lexeme chars kind).chars = chars :=
  List.append_nil chars

theorem leaf_single
    {lexeme : Lexeme} (hlexeme : ∀ heredoc, lexeme ≠ .heredoc heredoc) (chars : List Char)
    (kind : Kind) (rules : Rules) (position : Position) (spaced : Bool) (rest : List Char)
    (input : Input) (last : Span) (trees : List Tree) :
    Runs (leaf kind ((single lexeme chars kind).token position spaced rest)) rules
      (.reading input last trees) ()
      ((single lexeme chars kind).cursorBehind position rest trees) := by
  rw [cursorBehind, Item.last, stop, chars_single]
  exact Runs.leaf kind hlexeme

theorem isValue_symbol (name : Name) (size depth : Nat) :
    (symbol name).IsValue size (depth + 2) := by
  refine StartsValue.isValue ⟨rfl, ?_, ?_⟩ (.inl rfl) ?_
  · intro stance hstance blanks hblanks rest hrest rules position last trees
    have hoperand := (Stance.eq_of_startsValue hstance).1
    rw [symbol, chars_single]
    exact Runs.peek_symbol hblanks (by simp [Stance.takesSymbol, hoperand]) name.isName
      hrest.endsWord
  · intro context rules hsize rest hrest position spaced input last trees
    exact Runs.pure false
  · intro context origin rest hrest position spaced input last
    exact Runs.bind (leaf_single (by rintro heredoc ⟨⟩) _ _ _ _ _ _ _ _ _) (Runs.pure Form.value)

theorem isValue_absent (size depth : Nat) : absent.IsValue size (depth + 2) := by
  refine StartsValue.isValue ⟨rfl, ?_, ?_⟩ (.inr rfl) ?_
  · intro stance hstance blanks hblanks rest hrest rules position last trees
    have hoperand := (Stance.eq_of_startsValue hstance).1
    rw [absent, chars_single]
    exact Runs.peek_keyword hblanks hoperand (by decide) (by decide) rfl hrest.endsWord
  · intro context rules hsize rest hrest position spaced input last trees
    exact Runs.pure false
  · intro context origin rest hrest position spaced input last
    exact Runs.bind (leaf_single (by rintro heredoc ⟨⟩) _ _ _ _ _ _ _ _ _) (Runs.pure Form.target)

/-! Arrays -/

def array (items : List Item) : Item :=
  enclosed .array .openBracket '[' ']' items

theorem isValue_array
    {items : List Item} (hitems : ∀ item ∈ items, item.IsValue size depth)
    (hsize : items.length ≤ size) : (array items).IsValue size (depth + 3) := by
  refine StartsValue.isValue ⟨rfl, ?_, ?_⟩ (.inl rfl) ?_
  · intro stance hstance blanks hblanks rest hrest rules position last trees
    obtain ⟨-, hindex, hname⟩ := Stance.eq_of_startsValue hstance
    exact Runs.peek_openBracket hblanks hindex hname
  · intro context rules hsize rest hrest position spaced input last trees
    exact Runs.pure false
  · intro context origin rest hrest position spaced input last
    have hclosing : punctuation? ']' = some .closeBracket := rfl
    have hread := Grammar.enclosed_runs .array .openBracket '[' hclosing rfl (by decide)
      (fun item hitem => (hitems item hitem).isReadBy_argument) (by rw [grammar_size]; omega) rest
      position spaced input last []
    exact Runs.bind hread (Runs.pure Form.value)

/-! Hashes -/

/-- Where the value of a pair starts whose key is a symbol. -/
def pairStart (key : Name) (position : Position) : Position :=
  ((position.past (':' :: key.chars)).past [' ', '=', '>']).past [' ']

/-- A symbol and a value with an arrow between them. -/
def pair (key : Name) (item : Item) : Item where
  lexeme := .symbol
  opening := ':' :: key.chars
  behind := ' ' :: '=' :: '>' :: ' ' :: item.chars
  tree position :=
    .branch .pair ⟨position, item.stop (pairStart key position)⟩
      [(Tree.leaf .simpleSymbol ⟨position, position.past (':' :: key.chars)⟩).withRole .key,
        (item.tree (pairStart key position)).withRole .value]
  lastStart position := item.lastStart (pairStart key position)

theorem chars_pair (key : Name) (item : Item) :
    (pair key item).chars = ':' :: (key.chars ++ ' ' :: '=' :: '>' :: ' ' :: item.chars) :=
  rfl

theorem stop_pair (key : Name) (item : Item) (position : Position) :
    (pair key item).stop position = item.stop (pairStart key position) := by
  simp [stop, chars, pair, pairStart]

theorem last_pair (key : Name) (item : Item) (position : Position) :
    (pair key item).last position = item.last (pairStart key position) := by
  rw [last, stop_pair]
  rfl

theorem arrowPair_runs
    (h : item.IsValue size (depth + 2)) (key : Name) {rest : List Char} (hrest : EndsItem rest)
    (position : Position) (spaced : Bool) (input : Input) (last : Span) (trees : List Tree) :
    Runs (Grammar.arrowPair ((pair key item).token position spaced rest))
      (grammar (size + 2) (depth + 3)) (.reading input last trees) ()
      ((pair key item).cursorBehind position rest trees) := by
  let context := { Context.bracketed with comma := false }
  let behind := ' ' :: '=' :: '>' :: ' ' :: (item.chars ++ rest)
  let symbol := Tree.leaf .simpleSymbol ⟨position, position.past (':' :: key.chars)⟩
  have hkey : Runs (Grammar.expression context ((pair key item).token position spaced rest))
      (grammar (size + 2) (depth + 2)) (.reading input last []) .value
      (.reading ⟨behind, position.past (':' :: key.chars)⟩
        ⟨position, position.past (':' :: key.chars)⟩ [symbol]) :=
    Grammar.expression_symbol spaced _ (EndsExpression.arrow rfl)
  have harrow : Runs (Grammar.expect context.behind .arrow) (grammar (size + 2) (depth + 3))
      (.reading ⟨behind, position.past (':' :: key.chars)⟩
        ⟨position, position.past (':' :: key.chars)⟩ [symbol.withRole .key]) ()
      (.reading
        ⟨' ' :: (item.chars ++ rest), (position.past (':' :: key.chars)).past [' ', '=', '>']⟩
        ⟨(position.past (':' :: key.chars)).past [' '],
          (position.past (':' :: key.chars)).past [' ', '=', '>']⟩
        [symbol.withRole .key]) :=
    Runs.bind (Runs.peek_arrow (Stance.passes_space _) rfl) (Runs.take (by rintro heredoc ⟨⟩))
  have hlook := h.look (.value []) rfl (Stance.passes_space _) hrest
    (grammar (size + 2) (depth + 3)) ((position.past (':' :: key.chars)).past [' ', '=', '>'])
    ⟨(position.past (':' :: key.chars)).past [' '],
      (position.past (':' :: key.chars)).past [' ', '=', '>']⟩ [symbol.withRole .key]
  obtain ⟨form, -, hread⟩ := h.read .bracketed rfl hrest (pairStart key position) true
    ⟨' ' :: (item.chars ++ rest), (position.past (':' :: key.chars)).past [' ', '=', '>']⟩
    ⟨(position.past (':' :: key.chars)).past [' '],
      (position.past (':' :: key.chars)).past [' ', '=', '>']⟩ [symbol.withRole .key]
  rw [cursorBehind, stop_pair, last_pair]
  refine Runs.node [_, _] ?_
  refine Runs.bind (Runs.bind Runs.read (Runs.bind (Runs.lift hkey) (Runs.pure ()))) ?_
  refine Runs.bind (Runs.asRole .key _) (Runs.bind harrow ?_)
  refine Runs.bind hlook ?_
  refine Runs.bind (Runs.bind Runs.read (Runs.bind (Runs.lift hread) (Runs.pure ()))) ?_
  exact Runs.asRole .value _

/-- A pair is an item of a hash. -/
theorem IsValue.isReadBy_hashItem (h : item.IsValue size (depth + 2)) (key : Name) :
    (pair key item).IsReadBy (.hashItem []) Grammar.hashItem (grammar (size + 2) (depth + 3)) where
  starts := rfl
  look hblanks rest hrest position last trees := by
    rw [chars, List.append_assoc]
    exact Runs.peek_symbol hblanks rfl key.isName rfl
  read hrest position spaced input last trees :=
    Runs.bind (Runs.pure false) (arrowPair_runs h key hrest position spaced input last trees)

def hash (pairs : List (Name × Item)) : Item :=
  enclosed .hash .openBrace '{' '}' (pairs.map fun entry => pair entry.1 entry.2)

theorem isValue_hash
    {pairs : List (Name × Item)} (hpairs : ∀ entry ∈ pairs, entry.2.IsValue size (depth + 2))
    (hsize : pairs.length ≤ size) : (hash pairs).IsValue size (depth + 5) := by
  refine StartsValue.isValue ⟨rfl, ?_, ?_⟩ (.inl rfl) ?_
  · intro stance hstance blanks hblanks rest hrest rules position last trees
    exact Runs.peek_punctuation hblanks rfl
  · intro context rules hsize rest hrest position spaced input last trees
    exact Runs.pure false
  · intro context origin rest hrest position spaced input last
    have hitems : ∀ item ∈ pairs.map fun entry => pair entry.1 entry.2,
        item.IsReadBy (.hashItem []) Grammar.hashItem (grammar (size + 2) (depth + 3)) := by
      intro item hitem
      obtain ⟨entry, hentry, rfl⟩ := List.mem_map.1 hitem
      exact (hpairs entry hentry).isReadBy_hashItem entry.1
    have hclosing : punctuation? '}' = some .closeBrace := rfl
    have hread := Grammar.enclosed_runs .hash .openBrace '{' hclosing rfl (by decide) hitems
      (by rw [grammar_size, List.length_map]; omega) rest position spaced input last []
    exact Runs.bind hread (Runs.pure Form.value)

end Item

end PuppetInventory.Syntax
