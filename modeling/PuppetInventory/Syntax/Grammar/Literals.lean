import PuppetInventory.Syntax.Parse

/-!
Literals, heredoc bodies and comments, and the look at the next token, which reads the comments and
the heredoc bodies before it.
-/

namespace PuppetInventory.Syntax.Grammar

open PuppetInventory.Syntax

/-! Pieces of literals -/

def escape : Parse Unit := do
  match (← cursor).input.afterEscape? with
  | some stop => part .escapeSequence stop
  | none => fail

/-- A number sign and the characters behind it as the opening of an interpolation. -/
def interpolationOpening (length : Nat) : Parse Token := do
  let input := (← cursor).input
  let next := input.skip length
  return ⟨.mark .openBrace, next.spanFrom input.position, false, next⟩

def bracedInterpolation : Parse Unit := do
  let opening ← interpolationOpening 2
  node .interpolation opening do
    take opening
    (← read).enclosed

def bareInterpolation : Parse Unit := do
  let opening ← interpolationOpening 1
  node .interpolation opening do
    take opening
    match opening.next.afterVariable? with
    | some stop => leaf .variable ⟨.variable, stop.spanFrom opening.next.position, false, stop⟩
    | none => fail

/-! Delimited literals -/

def closeLiteral (form : LiteralForm) (start : Position) : Parse Unit :=
  withCursor fun cursor =>
    let stop := form.afterClosing cursor.input
    { cursor with input := stop, last := stop.spanFrom start }

/-- One more piece of a literal. `depth` counts the delimiters that are open inside; nothing remains
of it when the literal ends. -/
def literalStep (form : LiteralForm) (start : Position) (depth : Nat) : Parse (Option Nat) := do
  let input := (← cursor).input
  let (length, depth) := form.plainRun depth 0 input.rest
  if length > 0 then
    part .stringContent (input.skip length)
    return some depth
  else
    match input.rest with
    | [] => failWith .unfinished
    | c :: rest =>
      if form.dividesItems && isSpace c then
        withCursor fun cursor => { cursor with input := input.skipWhile isSpace }
        return some depth
      else if c = form.closing then
        closeLiteral form start
        return none
      else if c = '\\' then
        escape
        return some depth
      else
        match numberSign rest with
        | .braced => bracedInterpolation
        | _ => bareInterpolation
        return some depth

def literalTreeKind : LiteralKind → Kind
  | .text => .string
  | .symbol => .delimitedSymbol
  | .regularExpression => .regularExpression
  | .subshell => .subshell
  | .words => .wordArray
  | .symbols => .symbolArray

def literal (form : LiteralForm) (token : Token) : Parse Unit :=
  node (literalTreeKind form.kind) token do
    take token
    let start := token.span.start
    let _ ← blaming start (iterate (literalStep form start) 0)

/-! Heredoc bodies -/

/-- One more piece of a heredoc body; whether the body goes on. -/
def heredocStep (heredoc : Heredoc) : Parse Bool := do
  let input := (← cursor).input
  match heredoc.piece (← read).size input.rest with
  | .content length =>
    part .stringContent (input.skip length)
    return true
  | .word length =>
    withCursor fun cursor => { cursor with input := input.skip length }
    return false
  | .escape =>
    escape
    return true
  | .braced =>
    blaming input.position bracedInterpolation
    return true
  | .bare =>
    bareInterpolation
    return true
  | .comment =>
    part .comment (input.skipWhile fun c => c ≠ '\n' && c.toNat ≠ 0)
    return true
  | .broken => fail

/-- The body of the first heredoc that has been announced. -/
def heredocBody : Parse Unit := do
  let around ← cursor
  match around.heredocs with
  | [] => return ()
  | heredoc :: _ =>
    withCursor fun cursor => { cursor with inBody := true, waiting := [], trees := [] }
    repeating (heredocStep heredoc)
    withCursor fun cursor =>
      let span := cursor.input.spanFrom around.input.position
      { cursor with
        last := around.last
        heredocs := cursor.heredocs.drop 1
        inBody := false
        waiting := .branch .heredocBody span cursor.trees.reverse :: around.waiting
        trees := around.trees }

/-! What stands between tokens -/

/-- The end of the line behind which heredoc bodies start. -/
def lineEnd? : List Char → Position → Option Input
  | c :: rest, position =>
    if c = ' ' || c = '\t' then lineEnd? rest (position.after c)
    else if c = '\n' || c = '\r' then some ⟨c :: rest, position⟩
    else if c = '\\' then
      match rest with
      | '\r' :: d :: rest =>
        if isSpace d then lineEnd? rest (((position.after c).after '\r').after d) else none
      | d :: rest => if isSpace d then lineEnd? rest ((position.after c).after d) else none
      | [] => none
    else none
  | [], _ => none

/-- Where the body of an announced heredoc starts, if it comes next. -/
def bodyStart? (cursor : Cursor) : Option Input :=
  if cursor.inBody || cursor.heredocs.isEmpty then none
  else lineEnd? cursor.input.rest cursor.input.position

/-- Whether a line break that can end a statement comes next. -/
def endsLine (stance : Stance) (input : Input) : Bool :=
  stance.lineBreak && (gap? false none input.rest input.position).any fun gap => gap.newline.isSome

/-- The place behind the comment that comes next. One that lines enclose does not come before the
end of a statement. -/
def comment? (stance : Stance) (input : Input) : Option (Span × Input) :=
  let start := afterBlanks input.rest input.position
  let stance := { stance with assign := stance.assign || endsLine stance input }
  (start.afterComment? stance).map fun stop => (stop.spanFrom start.position, stop)

/-- Reads a heredoc body or a comment; whether one comes next. They wait for the tree that holds the
tokens on both sides. -/
def extra (stance : Stance) : Parse Bool := do
  let here ← cursor
  match bodyStart? here with
  | some start =>
    withCursor fun cursor => { cursor with input := start }
    heredocBody
    return true
  | none =>
    match comment? stance here.input with
    | some (span, stop) =>
      withCursor fun cursor =>
        { cursor with input := stop, waiting := .leaf .comment span :: cursor.waiting }
      return true
    | none => return false

def peek (stance : Stance) : Parse Token := do
  repeating (extra stance)
  return stance.token (← cursor).input

/-! Tokens that have to come -/

/-- A mark that has to come. -/
def expect (stance : Stance) (mark : Mark) : Parse Unit := do
  let token ← peek stance
  if token.isMark mark then take token else fail

def expectKeyword (stance : Stance) (keyword : Keyword) : Parse Unit := do
  let token ← peek stance
  if token.isKeyword keyword then take token else fail

def expectEnd : Parse Unit := do
  let token ← peek { words := [.end] }
  if token.isKeyword .end then
    withCursor fun cursor => (cursor.pass token).push (.endLeaf token.span)
  else fail

/-- The end of a line or a semicolon, if one comes next. -/
def terminator? (stance : Stance) : Parse Bool := do
  let token ← peek { stance with lineBreak := true }
  if token.lexeme = .lineBreak || token.isMark .semicolon then
    take token
    return true
  else return false

/-! Numbers and text literals -/

/-- A number with the letters that make it rational or imaginary, unless they start one of the given
keywords. -/
def number (words : List Keyword) (token : Token) : Parse Unit :=
  let stop :=
    if (keywordAt? words token.next).isSome then token.next else token.next.afterNumberKind
  leaf .number { token with next := stop, span := stop.spanFrom token.span.start }

/-- Text literals that follow each other are one chained literal; whether there are several. -/
def textLiteral (context : Context) (form : LiteralForm) (token : Token) : Parse Bool := do
  let origin ← start token
  literal form token
  let several ← iterate (more { context.behind with text := true }) false
  if several then wrap origin .chainedString
  finish origin
  return several
where
  more (stance : Stance) (_ : Bool) : Parse (Option Bool) := do
    let token ← peek stance
    match token.lexeme with
    | .literal form =>
      if form.kind = .text then
        literal form token
        return some true
      else return none
    | .stray => fail
    | .mark .openBracket => fail
    | _ => return none

end PuppetInventory.Syntax.Grammar
