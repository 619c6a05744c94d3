import PuppetInventory.Syntax.Grammar.Assignments

/-!
Operands, the operators between them, and expressions.
-/

namespace PuppetInventory.Syntax.Grammar

open PuppetInventory.Syntax

/-! Primary operands -/

def name (context : Context) (origin : Origin) (kind : Kind) (callee : Callee) (token : Token) :
    Parse Form := do
  leaf kind token
  called context origin callee

/-- Statements between parentheses, or targets. -/
def parenthesized (origin : Origin) (token : Token) : Parse Form := do
  take token
  let form ← (← read).statements [] true
  expect {} .closeParen
  if form = .targets then
    wrap origin .destructuring
    return .targets
  else
    wrap origin .parenthesizedStatements
    return .value

/-- A constant of no scope. -/
def topConstant (origin : Origin) (token : Token) : Parse Form := do
  take token
  let next ← peek .plainName
  if next.lexeme = .constant then
    leaf .constant next
    wrap origin .scopeResolution
    return .target
  else fail

/-- A word and the statements between parentheses that it applies to. -/
def qualifiedStatements (origin : Origin) (token : Token) : Parse Form := do
  take token
  let next ← peek (.value [])
  if next.isMark .openParen then
    let inner ← start next
    let form ← parenthesized inner next
    finish inner
    wrap origin .unary
    if form = .targets then fail else return .value
  else fail

def construct (context : Context) (origin : Origin) (keyword : Keyword) (token : Token) :
    Parse Form := do
  match keyword with
  | .self => name context origin .selfReference .variable token
  | .super => name context origin .superReference .variable token
  | .nil => constantOf .absent
  | .truth => constantOf .truth
  | .falsehood => constantOf .falsehood
  | .return => jump context .jump token
  | .break => jump context .jump token
  | .next => jump context .jump token
  | .yield => jump context .yieldCall token
  | .not => qualifiedStatements origin token
  | .defined => qualifiedStatements origin token
  | .redo => finished (repetition context token)
  | .retry => finished (repetition context token)
  | .if => finished (conditional .conditional token)
  | .unless => finished (conditional .unlessConditional token)
  | .while => finished (loop .whileLoop token)
  | .until => finished (loop .untilLoop token)
  | .for => finished (forLoop token)
  | .case => finished (selection token)
  | .begin => finished (beginBody token)
  | .definition => finished (method context token)
  | .classDefinition => finished (classBody token)
  | .moduleDefinition => finished (moduleBody token)
  | _ => fail
where
  constantOf (kind : Kind) : Parse Form := do
    leaf kind token
    return .target
  finished (rule : Parse Unit) : Parse Form := do
    rule
    return .value

/-- An operand without the calls behind it. -/
def simpleOperand (context : Context) (origin : Origin) (token : Token) : Parse Form := do
  match token.lexeme with
  | .word => name context origin .identifier .variable token
  | .constant => name context origin .constant .variable token
  | .variable => name context origin .variable .variable token
  | .markedWord => name context origin .identifier .marked token
  | .keyword keyword => construct context origin keyword token
  | .number => finished (number context.behind.words token)
  | .character => finished (leaf .character token)
  | .symbol => finished (leaf .simpleSymbol token)
  | .heredoc _ => finished (leaf .heredocBeginning token)
  | .literal form =>
    if form.kind = .text then do
      let _ ← textLiteral context form token
      return .value
    else finished (literal form token)
  | .mark .openParen => parenthesized origin token
  | .mark .openBracket => finished (array token)
  | .mark .openBrace => finished (hash token)
  | .mark .lambda => finished (lambda token)
  | .mark .scope => topConstant origin token
  | _ => fail
where
  finished (rule : Parse Unit) : Parse Form := do
    rule
    return .value

def linked (context : Context) (origin : Origin) (form : Form) : Parse Form := do
  let form ← chained context origin form
  if form = .blockCommand then commandChain context origin else return form

/-- An operand with the calls behind it. -/
def primary (context : Context) (token : Token) : Parse Form := do
  let origin ← start token
  let form ← linked context origin (← simpleOperand context origin token)
  finish origin
  return form

/-! Operators -/

/-- Both values of a choice by a question mark. -/
def choices (context : Context) : Parse Unit := do
  let chosen :=
    { context.argument with
      lineEnds := false
      follows := []
      conjoins := true
      comma := false
      colon := true
      bar := false
      braceTaken := false }
  value chosen (← peek (.value []))
  expect chosen.behind .colon
  let _ ← (← read).operand context.argument (← peek (.value []))

/-- The end of a range, which can be left out. -/
def rangeEnd (context : Context) : Parse Unit := do
  let token ← peek { Stance.value context.behind.words with
    joint := true
    lineBreak := context.lineEnds }
  if token.startsOperand then
    let _ ← (← read).operand context.argument token

/-- One more operator and its operand behind an expression that starts at the origin. -/
def operation (context : Context) (origin : Origin) (form : Form) : Parse (Option Form) := do
  if !form.isValue then return none
  else
    let token ← peek context.behind
    match token.lexeme with
    | .mark .question =>
      take token
      choices context
      wrap origin .ternary
      return some .value
    | .mark .range => range token
    | .mark .ellipsis => range token
    | .mark mark =>
      if mark.joins && !(mark = .pipe && context.bar) then
        take token
        let _ ← (← read).operand context.argument (← peek (.value []))
        wrap origin .binary
        return some .value
      else return none
    | _ => return none
where
  range (token : Token) : Parse (Option Form) := do
    take token
    rangeEnd context
    wrap origin .range
    return some .value

def joined (context : Context) (origin : Origin) (token : Token) : Parse Form := do
  iterate (operation context origin) (← (← read).operand context token)

/-- The pattern that a value which starts at the origin is held against, if one comes next. -/
def held (context : Context) (origin : Origin) (form : Form) : Parse Form := do
  if context.command && form.isValue then
    let next ← peek context.behind
    if (next.isMark .arrow && !context.arrow) || next.isKeyword .in then
      take next
      matchedPattern context origin (← peek { Stance.shape [] with key := true })
      return .command
    else return form
  else return form

/-- A value, or its match with a pattern. -/
def matched (context : Context) (token : Token) : Parse Form := do
  let origin ← start token
  let form ← held context origin (← joined context origin token)
  finish origin
  return form

/-! Operands -/

/-- A sign and the operand that it applies to, or the match of that with a pattern. -/
def signed (context : Context) (token : Token) : Parse Form :=
  node .unary token do
    let context := { context with arrow := false, targets := false }
    take token
    let first ← peek (.value [])
    let origin ← start first
    let form ← (← read).operand context first
    let isNumber :=
      first.lexeme = .number &&
        (token.isMark .plus || (token.isMark .unaryMinus && !first.spaced))
    let next ← peek context.behind
    let form ← if next.isMark .arrow && !isNumber then held context origin form else pure form
    finish origin
    return form.operated

/-- A word and the value that it applies to. If that stands between parentheses, calls can follow
the whole. -/
def qualified (context : Context) (token : Token) : Parse Form := do
  let origin ← start token
  take token
  let inner := { context with arrow := false, targets := false }
  let next ← peek (.value [])
  let form ←
    if next.isMark .openParen then do
      let enclosed ← start next
      let form ← parenthesized enclosed next
      if form = .targets then
        let form ← assignable inner enclosed form
        finish enclosed
        wrap origin .unary
        pure form.operated
      else
        finish enclosed
        wrap origin .unary
        assignable context origin (← linked context origin .value)
    else do
      let form ← matched inner next
      wrap origin .unary
      pure form.operated
  finish origin
  return form

/-- A range that starts nowhere. -/
def beginless (context : Context) (token : Token) : Parse Form :=
  node .range token do
    take token
    let _ ← (← read).operand context.argument (← peek (.value []))
    return .value

/-- An operand: what it starts with decides whether it is unary, an assignment, or a value. -/
def operand (context : Context) (token : Token) : Parse Form := do
  match token.lexeme with
  | .mark .bang => signed context token
  | .mark .tilde => signed context token
  | .mark .plus => signed context token
  | .mark .unaryMinus => signed context token
  | .keyword .not => qualified context token
  | .keyword .defined => qualified context token
  | .mark .range => beginless context token
  | .mark .ellipsis => beginless context token
  | .mark .star =>
    let origin ← start token
    target context token
    let form ← multipleAssignment context origin
    finish origin
    return form
  | _ =>
    let origin ← start token
    let form ← (← read).primary context token
    let form ← assignable context origin form
    finish origin
    return form

/-! Expressions -/

/-- One more `and` or `or` and its operand behind an expression that starts at the origin. -/
def conjunction (context : Context) (origin : Origin) (form : Form) : Parse (Option Form) := do
  if !context.conjoins || form = .targets then return none
  else
    let token ← peek (if form.isValue then context.behind else context.behindCommand)
    if token.isKeyword .and || token.isKeyword .or then
      take token
      let right ←
        matched { context with arrow := false, targets := false } (← peek (.value []))
      wrap origin .binary
      return some (if form.isValue then right.operated else .command)
    else return none

/-- Values joined by `and` and `or`, behind the first one, which starts at the origin. -/
def conjoined (context : Context) (origin : Origin) (form : Form) : Parse Form :=
  iterate (conjunction context origin) form

def expression (context : Context) (token : Token) : Parse Form := do
  let origin ← start token
  let form ← conjoined context origin (← matched context token)
  finish origin
  return form

end PuppetInventory.Syntax.Grammar
