import PuppetInventory.Proofs.Reading.Operands

/-!
Arguments: texts, and pairs in both styles.
-/

namespace PuppetInventory.Syntax

structure Name where
  chars : List Char
  isName : isName chars = true

inductive Argument where
  | text (content : List Char)
  /-- A symbol and a text with an arrow between them. -/
  | arrowPair (key : Name) (content : List Char)
  /-- A word and a text with a colon between them. -/
  | colonPair (key : Name) (content : List Char)

namespace Argument

/-- What the first token of an argument is. -/
def lexeme : Argument → Lexeme
  | .text _ => .literal .singleQuoted
  | .arrowPair _ _ => .symbol
  | .colonPair _ _ => .key

/-- The characters of the first token. -/
def opening : Argument → List Char
  | .text _ => ['\'']
  | .arrowPair key _ => ':' :: key.chars
  | .colonPair key _ => key.chars

/-- The characters behind the first token. -/
def behind : Argument → List Char
  | .text content => escaped content ++ ['\'']
  | .arrowPair _ content => [' ', '=', '>', ' '] ++ quoted content
  | .colonPair _ content => [':', ' '] ++ quoted content

def write (argument : Argument) : List Char :=
  argument.opening ++ argument.behind

@[simp]
theorem write_text (content : List Char) : (Argument.text content).write = quoted content :=
  rfl

@[simp]
theorem write_arrowPair (key : Name) (content : List Char) :
    (Argument.arrowPair key content).write =
      ':' :: (key.chars ++ ' ' :: '=' :: '>' :: ' ' :: quoted content) :=
  rfl

@[simp]
theorem write_colonPair (key : Name) (content : List Char) :
    (Argument.colonPair key content).write = key.chars ++ ':' :: ' ' :: quoted content :=
  rfl

def token (argument : Argument) (position : Position) (spaced : Bool) (rest : List Char) : Token :=
  .over argument.lexeme position spaced argument.opening (argument.behind ++ rest)

/-- The text of an argument, or that of its pair. -/
def content : Argument → List Char
  | .text content => content
  | .arrowPair _ content => content
  | .colonPair _ content => content

/-- Where that text starts. -/
def start (position : Position) : Argument → Position
  | .text _ => position
  | .arrowPair key _ => (position.past (':' :: key.chars)).past [' ', '=', '>', ' ']
  | .colonPair key _ => (position.past key.chars).past [':', ' ']

def stop (position : Position) (argument : Argument) : Position :=
  (argument.start position).past (quoted argument.content)

def pairTree (argument : Argument) (position : Position) (key : Tree) : Tree :=
  .branch .pair ⟨position, argument.stop position⟩
    [key.withRole .key,
      (textTree (argument.start position) argument.content).withRole .value]

def tree (position : Position) (argument : Argument) : Tree :=
  match argument with
  | .text content => textTree position content
  | .arrowPair key _ =>
    argument.pairTree position (.leaf .simpleSymbol ⟨position, position.past (':' :: key.chars)⟩)
  | .colonPair key _ =>
    argument.pairTree position (.leaf .hashKeySymbol ⟨position, position.past key.chars⟩)

theorem lexeme_cases (argument : Argument) :
    argument.lexeme = .literal .singleQuoted ∨ argument.lexeme = .symbol ∨
      argument.lexeme = .key := by
  cases argument with
  | text content => exact .inl rfl
  | arrowPair key content => exact .inr (.inl rfl)
  | colonPair key content => exact .inr (.inr rfl)

theorem past_write (position : Position) (argument : Argument) :
    position.past argument.write = argument.stop position := by
  cases argument with
  | text content => simp [write, opening, behind, stop, start, Argument.content, quoted]
  | arrowPair key content =>
    simp only [write, opening, behind, stop, start, Argument.content, Position.past_append]
  | colonPair key content =>
    simp only [write, opening, behind, stop, start, Argument.content, Position.past_append]

/-- A cursor right behind an argument that starts at a place. -/
def cursorBehind
    (argument : Argument) (position : Position) (rest : List Char) (trees : List Tree) : Cursor :=
  .reading ⟨rest, argument.stop position⟩ ⟨argument.start position, argument.stop position⟩
    (argument.tree position :: trees)

end Argument

section

variable {stance : Stance} {rules : Rules} {blanks rest : List Char} {position : Position}
  {last : Span} {trees : List Tree}

theorem Argument.token_text (content : List Char) (position : Position) (spaced : Bool) :
    (Argument.text content).token position spaced rest = .quote position spaced content rest := by
  simp [token, behind, lexeme, opening, Token.quote]

theorem Runs.peek_argument
    (argument : Argument) (hblanks : stance.Passes blanks) (hoperand : stance.operand = true)
    (hkey : stance.key = true) :
    Runs (Grammar.peek stance) rules
      (.reading ⟨blanks ++ (argument.write ++ rest), position⟩ last trees)
      (argument.token (position.past blanks) (!blanks.isEmpty) rest)
      (.reading ⟨blanks ++ (argument.write ++ rest), position⟩ last trees) := by
  cases argument with
  | text content =>
    rw [Argument.token_text]
    exact peek_quoted content hblanks (by simp [Stance.takesText, hoperand])
  | arrowPair key content =>
    rw [Argument.write, List.append_assoc]
    exact peek_symbol hblanks (by simp [Stance.takesSymbol, hoperand]) key.isName rfl
  | colonPair key content =>
    rw [Argument.write, List.append_assoc]
    exact peek_key hblanks hkey key.isName (by simp)

end

namespace Grammar

variable {context : Context} {rules : Rules} {size depth : Nat} {rest : List Char}
  {position : Position} {input : Input} {last : Span} {trees : List Tree}

/-! Texts -/

theorem isKey_quoted
    (hsize : rules.size = size + 2) (spaced : Bool) (content : List Char)
    (hends : EndsExpression context ⟨rest, position.past (quoted content)⟩) :
    Runs (isKey {} (literal .singleQuoted (.quote position spaced content rest))) rules
      (.reading input last trees) false (.reading input last trees) := by
  obtain ⟨next, hpeek, hnext⟩ := hends.noColon rules
    ⟨position, position.past (quoted content)⟩ (textTree position content :: trees)
  exact Runs.foresees (Runs.bind (literal_quoted hsize spaced content)
    (Runs.bind hpeek (Runs.pure_of_eq hnext)))

theorem argument_quoted
    (spaced : Bool) (content : List Char)
    (hends : EndsAll context.lineEnds ⟨rest, position.past (quoted content)⟩) :
    Runs (argument context (.quote position spaced content rest)) (grammar (size + 2) (depth + 3))
      (.reading input last trees) () (.behindText position content rest trees) := by
  obtain ⟨next, hpeek, hnext⟩ := hends.look (grammar (size + 2) (depth + 3))
    ⟨position, position.past (quoted content)⟩ [textTree position content]
  have harrow : next.isMark .arrow = false := by
    rcases Lexeme.cases_of_endsItem hnext with h | h | h | h | h | h <;> simp [Token.isMark, h]
  refine Runs.bind (isKey_quoted (grammar_size _ _) spaced content (hends context rfl)) ?_
  refine Runs.bind (Runs.start _) (Runs.bind Runs.read (Runs.bind
    (Runs.lift (expression_quoted spaced content (hends context rfl))) ?_))
  refine Runs.bind hpeek ?_
  rw [harrow]
  exact Runs.finish _

/-! Pairs -/

theorem value_quoted
    (spaced : Bool) (content : List Char)
    (hends : EndsExpression context ⟨rest, position.past (quoted content)⟩) :
    Runs (value context (.quote position spaced content rest)) (grammar (size + 2) (depth + 3))
      (.reading input last trees) () (.behindText position content rest trees) :=
  Runs.bind Runs.read
    (Runs.bind (Runs.lift (expression_quoted spaced content hends)) (Runs.pure ()))

/-- Behind an arrow that can make a pair, a text is no pattern. -/
theorem prefersPattern_quoted
    (hsize : rules.size = size + 2) (harrow : context.arrow = true) (spaced : Bool)
    (content : List Char)
    (hends : EndsAll context.lineEnds ⟨rest, position.past (quoted content)⟩) :
    Runs (prefersPattern context (.quote position spaced content rest)) rules
      (.reading input last trees) false (.reading input last trees) := by
  obtain ⟨next, hpeek, hnext⟩ := hends.look rules ⟨position, position.past (quoted content)⟩
    (textTree position content :: trees)
  have honly : Runs (onlyPatternEnds context) rules (.behindText position content rest trees) false
      (.behindText position content rest trees) := by
    refine Runs.bind hpeek ?_
    rcases Lexeme.cases_of_endsItem hnext with h | h | h | h | h | h <;> rw [h]
    · exact Runs.pure_of_eq (by rw [harrow]; rfl)
    all_goals exact Runs.pure false
  have hbehind : Runs
      (do
        let next ← peek context.behind
        if next.isMark .colon && !next.spaced then return true else onlyPatternEnds context)
      rules (.behindText position content rest trees) false
      (.behindText position content rest trees) := by
    have hcolon : next.isMark .colon = false := by
      rcases Lexeme.cases_of_endsItem hnext with h | h | h | h | h | h <;> simp [Token.isMark, h]
    refine Runs.bind hpeek ?_
    rw [hcolon]
    exact honly
  have honlyPattern : Runs (isOnlyPattern (.quote position spaced content rest)) rules
      (.reading input last trees) false _ :=
    Runs.bind (Runs.take (by rintro heredoc ⟨⟩)) (Runs.pure false)
  have hprimitive : Runs (primitive context (.quote position spaced content rest)) rules
      (.reading input last trees) () (.behindText position content rest trees) :=
    Runs.bind (textLiteral_quoted hsize spaced content (hends context rfl)) (Runs.pure ())
  exact Runs.bind (Runs.foresees honlyPattern) (Runs.foresees (Runs.bind hprimitive hbehind))

theorem pairValue_quoted
    (content : List Char)
    (hends : EndsAll context.lineEnds ⟨rest, (position.past [' ']).past (quoted content)⟩) :
    Runs (pairValue context) (grammar (size + 2) (depth + 3))
      (.reading ⟨' ' :: (quoted content ++ rest), position⟩ last trees) ()
      (.reading ⟨rest, (position.past [' ']).past (quoted content)⟩
        ⟨position.past [' '], (position.past [' ']).past (quoted content)⟩
        ((textTree (position.past [' ']) content).withRole .value :: trees)) := by
  have hpeek : Runs (peek (.value context.wordsBehindItem)) (grammar (size + 2) (depth + 3))
      (.reading ⟨' ' :: (quoted content ++ rest), position⟩ last trees)
      (.quote (position.past [' ']) true content rest)
      (.reading ⟨' ' :: (quoted content ++ rest), position⟩ last trees) :=
    Runs.peek_quoted content (Stance.passes_space _) rfl
  exact Runs.bind hpeek (Runs.bind (value_quoted true content (hends (valueContext context) rfl))
    (Runs.asRole .value _))

theorem expect_colon (hrest : rest.head? ≠ some ':') :
    Runs (expect {} .colon) rules (.reading ⟨':' :: rest, position⟩ last trees) ()
      (.reading ⟨rest, position.after ':'⟩ ⟨position, position.after ':'⟩ trees) :=
  Runs.bind (Runs.peek_colon (Stance.passes_nil {}) rfl hrest)
    (Runs.take (by rintro heredoc ⟨⟩))

theorem argument_colonPair
    (spaced : Bool) (key : Name) (content : List Char)
    (hends : EndsAll context.lineEnds ⟨rest, (Argument.colonPair key content).stop position⟩) :
    Runs (argument context ((Argument.colonPair key content).token position spaced rest))
      (grammar (size + 2) (depth + 3)) (.reading input last trees) ()
      ((Argument.colonPair key content).cursorBehind position rest trees) := by
  have hkey : Runs
      (leaf .hashKeySymbol ((Argument.colonPair key content).token position spaced rest))
      (grammar (size + 2) (depth + 3)) (.reading input last []) ()
      (.reading ⟨':' :: ' ' :: (quoted content ++ rest), position.past key.chars⟩
        ⟨position, position.past key.chars⟩
        [.leaf .hashKeySymbol ⟨position, position.past key.chars⟩]) :=
    Runs.leaf .hashKeySymbol (by rintro heredoc ⟨⟩)
  refine Runs.bind (Runs.pure true) ?_
  exact Runs.node [_, _] (Runs.bind hkey (Runs.bind (Runs.asRole .key _)
    (Runs.bind (expect_colon (by simp)) (pairValue_quoted content hends))))

theorem arrowArgument_quoted
    (harrow : context.arrow = true) (origin : Origin) (content : List Char)
    (hends : EndsAll context.lineEnds ⟨rest, (position.past [' ']).past (quoted content)⟩) :
    Runs (arrowArgument context origin) (grammar (size + 2) (depth + 3))
      (.reading ⟨' ' :: (quoted content ++ rest), position⟩ last trees) ()
      (.reading ⟨rest, (position.past [' ']).past (quoted content)⟩
        ⟨position.past [' '], (position.past [' ']).past (quoted content)⟩
        [.branch .pair ⟨origin.start, (position.past [' ']).past (quoted content)⟩
          ((textTree (position.past [' ']) content).withRole .value :: trees).reverse]) := by
  have hpeek : Runs (peek { Stance.value [] with key := true }) (grammar (size + 2) (depth + 3))
      (.reading ⟨' ' :: (quoted content ++ rest), position⟩ last trees)
      (.quote (position.past [' ']) true content rest)
      (.reading ⟨' ' :: (quoted content ++ rest), position⟩ last trees) :=
    Runs.peek_quoted content (Stance.passes_space _) rfl
  refine Runs.bind hpeek (Runs.bind Runs.read (Runs.bind
    (Runs.lift (prefersPattern_quoted (grammar_size _ _) harrow true content hends)) ?_))
  exact Runs.bind (value_quoted true content (hends (valueContext context) rfl))
    (Runs.bind (Runs.asRole .value _) (Runs.wrap origin .pair))

theorem argument_arrowPair
    (harrow : context.arrow = true) (spaced : Bool) (key : Name) (content : List Char)
    (hends : EndsAll context.lineEnds ⟨rest, (Argument.arrowPair key content).stop position⟩) :
    Runs (argument context ((Argument.arrowPair key content).token position spaced rest))
      (grammar (size + 2) (depth + 3)) (.reading input last trees) ()
      ((Argument.arrowPair key content).cursorBehind position rest trees) := by
  let behind := ' ' :: '=' :: '>' :: ' ' :: (quoted content ++ rest)
  have hkey : Runs
      (expression context (.over .symbol position spaced (':' :: key.chars) behind))
      (grammar (size + 2) (depth + 2)) (.reading input last []) .value
      (.reading ⟨behind, position.past (':' :: key.chars)⟩
        ⟨position, position.past (':' :: key.chars)⟩
        [.leaf .simpleSymbol ⟨position, position.past (':' :: key.chars)⟩]) :=
    expression_symbol spaced _ (EndsExpression.arrow (by rw [harrow, Bool.true_or]))
  refine Runs.bind (Runs.pure false) ?_
  refine Runs.bind (Runs.start _) (Runs.bind Runs.read (Runs.bind (Runs.lift hkey) ?_))
  refine Runs.bind (Runs.peek_arrow (Stance.passes_space _) rfl) ?_
  refine Runs.bind (Runs.asRole .key _) (Runs.bind (Runs.take (by rintro heredoc ⟨⟩)) ?_)
  exact Runs.bind (arrowArgument_quoted harrow _ content hends) (Runs.finish _)

/-- An argument is read to its end and no further. -/
theorem argument_runs
    (harrow : context.arrow = true) (spaced : Bool) (given : Argument)
    (hends : EndsAll context.lineEnds ⟨rest, given.stop position⟩) :
    Runs (argument context (given.token position spaced rest)) (grammar (size + 2) (depth + 3))
      (.reading input last trees) () (given.cursorBehind position rest trees) := by
  cases given with
  | text content =>
    rw [Argument.token_text]
    exact argument_quoted spaced content hends
  | arrowPair key content => exact argument_arrowPair harrow spaced key content hends
  | colonPair key content => exact argument_colonPair spaced key content hends

end Grammar

end PuppetInventory.Syntax
