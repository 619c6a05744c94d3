import PuppetInventory.Syntax.Grammar.Literals

/-!
Arguments and the items of brackets: pairs, splats, argument lists with and without parentheses,
arrays and hashes.
-/

namespace PuppetInventory.Syntax.Grammar

open PuppetInventory.Syntax

/-! Values -/

/-- A value that is no call without parentheses. -/
def value (context : Context) (token : Token) : Parse Unit := do
  let _ ← (← read).expression context token

def valueContext (context : Context) : Context :=
  { context.argument with
    follows := context.follows.filter (· ≠ .in)
    conjoins := context.conjoins }

/-! Pairs -/

/-- Whether a token is a key, for a colon comes right behind it. `rule` reads the token, and the
colon is looked for in a stance. -/
def isKey (stance : Stance) (rule : Parse Unit) : Parse Bool :=
  foresees do
    rule
    let next ← peek stance
    return next.isMark .colon && !next.spaced

def startsPair (context : Context) (token : Token) : Parse Bool :=
  match token.lexeme with
  | .key => return true
  | .markedWord => isKey context.behindName (take token)
  | .literal form => if form.kind = .text then isKey {} (literal form token) else return false
  | _ => return false

def skipBlanks (token : Token) : Parse Unit :=
  withCursor fun cursor =>
    { cursor with
      input := cursor.input.skip (token.span.start.offset - cursor.input.position.offset) }

/-- The value behind the colon of a pair, which may be missing. A line break behind the colon does
not end the pair. -/
def pairValue (context : Context) : Parse Unit := do
  let token ← peek (.value context.wordsBehindItem)
  if token.startsOperand then
    value (valueContext context) token
    asRole .value
  else skipBlanks token

def colonPair (context : Context) (token : Token) : Parse Unit :=
  node .pair token do
    match token.lexeme with
    | .literal form => literal form token
    | _ => leaf .hashKeySymbol token
    asRole .key
    expect {} .colon
    pairValue context

/-! Arguments -/

/-- A mark and the operand that it applies to, which may be missing. -/
def markedOperand (context : Context) (kind : Kind) (token : Token) : Parse Unit :=
  node kind token do
    take token
    let next ← peek { Stance.value context.wordsBehindItem with lineBreak := context.lineEnds }
    if next.startsOperand then value (valueContext context) next

/-- Three dots that pass all arguments on, unless a range starts with them. -/
def startsForwarding (context : Context) (token : Token) : Parse Bool :=
  foresees do
    take token
    let next ← peek { Stance.value context.wordsBehindItem with lineBreak := context.lineEnds }
    return !next.startsOperand

/-- A pattern behind the arrow of a value that starts at the origin. -/
def matchedPattern (context : Context) (origin : Origin) (token : Token) : Parse Unit := do
  (← read).patterns { context with follows := .and :: .or :: context.follows } token
  wrap origin .pattern

/-- What follows the arrow behind an argument that starts at the origin: the value of a pair, or a
pattern. -/
def arrowArgument (context : Context) (origin : Origin) : Parse Unit := do
  let token ← peek { Stance.value [] with key := true }
  if ← (← read).prefersPattern context token then matchedPattern context origin token
  else
    value (valueContext context) token
    asRole .value
    wrap origin .pair

/-- A positional argument, or the pair or the match that it starts. -/
def plainArgument (context : Context) (token : Token) : Parse Unit := do
  let origin ← start token
  let form ← (← read).expression context token
  if form.isValue then
    let next ← peek context.behind
    if next.isMark .arrow then
      asRole .key
      take next
      arrowArgument context origin
  finish origin

def argument (context : Context) (token : Token) : Parse Unit := do
  match token.lexeme with
  | .mark .splat => markedOperand context .splat token
  | .mark .hashSplat => markedOperand context .hashSplat token
  | .mark .blockAmpersand => markedOperand context .blockArgument token
  | .mark .ellipsis =>
    if ← startsForwarding context token then leaf .forwardedArguments token
    else plainArgument context token
  | _ =>
    if ← startsPair context token then colonPair context token else plainArgument context token

/-- The items up to a closing mark, which is read too. A comma may follow the last one. -/
def items (stance : Stance) (closing : Mark) (item : Token → Parse Unit) : Parse Unit :=
  repeating do
    let token ← peek stance
    if token.isMark closing then
      take token
      return false
    else
      item token
      let next ← peek Context.item.behind
      if next.isMark .comma then
        take next
        return true
      else if next.isMark closing then
        take next
        return false
      else fail

/-- Items between brackets, where line breaks do not count. -/
def bracketed (closing : Mark) (token : Token) : Parse Unit := do
  take token
  items (.argument []) closing (argument .item)

def argumentList (token : Token) : Parse Unit := do
  node .argumentList token (bracketed .closeParen token)
  asRole .arguments

/-- The context of the arguments of a call without parentheses. The call may take a block behind
them. -/
def commandContext (context : Context) (blocks : Bool) : Context :=
  { context with
    follows := if blocks then .do :: context.follows else context.follows
    command := true
    conjoins := false
    comma := true
    arrow := true
    braceTaken := context.braceTaken || blocks
    targets := false }

/-- The arguments of a call without parentheses: they end where no comma follows. -/
def commandArguments (context : Context) (token : Token) : Parse Unit := do
  node .argumentList token do
    argument context token
    repeating do
      let next ← peek context.behind
      if next.isMark .comma then
        take next
        argument context (← peek (.argument []))
        return true
      else return false
  asRole .arguments

/-! Arrays and hashes -/

def array (token : Token) : Parse Unit :=
  node .array token (bracketed .closeBracket token)

def arrowPair (token : Token) : Parse Unit :=
  node .pair token do
    let context := { Context.bracketed with comma := false }
    value context token
    asRole .key
    expect context.behind .arrow
    value .bracketed (← peek (.value []))
    asRole .value

def hashItem (token : Token) : Parse Unit := do
  match token.lexeme with
  | .mark .hashSplat => markedOperand .item .hashSplat token
  | _ => if ← startsPair .bracketed token then colonPair .item token else arrowPair token

def hash (token : Token) : Parse Unit :=
  node .hash token do
    take token
    items (.hashItem []) .closeBrace hashItem

end PuppetInventory.Syntax.Grammar
