import PuppetInventory.Syntax.Grammar.Blocks

/-!
Calls: what follows a name that can be called, and what follows a finished operand.
-/

namespace PuppetInventory.Syntax.Grammar

open PuppetInventory.Syntax

/-! Arguments behind a name -/

/-- Whether a token is the first argument of the name before it. -/
def startsArgument (context : Context) (token : Token) : Bool :=
  match token.lexeme with
  | .keyword keyword => keyword.startsOperand && !context.behind.words.contains keyword
  | .key => true
  | .mark mark =>
    match mark with
    | .openParen => true
    | .openBracket => true
    | .lambda => true
    | .bang => true
    | .tilde => true
    | .unaryMinus => true
    | .splat => true
    | .hashSplat => true
    | .blockAmpersand => true
    | .star => true
    | .scope => token.spaced
    | _ => false
  | _ => token.startsOperand

/-- Whether a token can stand behind a hash that is an argument, and cannot behind a block. -/
def followsHash (context : Context) (token : Token) : Bool :=
  match token.lexeme with
  | .mark .openBrace => !context.braceTaken
  | .mark .comma => !context.comma
  | .keyword .do => !context.doTaken
  | _ => false

/-- Whether the first tokens behind a brace tell that it opens a hash. -/
def opensHash (context : Context) (token : Token) : Parse Bool :=
  foresees do
    take token
    let first ← peek (.hashItem [])
    if first.isMark .hashSplat then return true
    else if first.isMark .closeBrace then
      take first
      return followsHash context (← peek { context.behind with words := [.do] })
    else startsPair .bracketed first

/-- A block behind a name, unless the brace opens a hash; whether it is one. -/
def blockUnlessHash (context : Context) (token : Token) : Parse Bool := do
  if ← opensHash context token then return false
  else
    let before ← cursor
    let isBlock ← node .block token do
      take token
      let first ← peek (.statement [])
      let isBlock ←
        if first.isMark .pipe then do
          blockParameters first
          body .blockBody []
          pure true
        else do (← read).blockStatements
      if isBlock then expect {} .closeBrace
      return isBlock
    if isBlock then asRole .block else withCursor fun _ => before
    return isBlock

/-! What follows a name -/

/-- How a name that can be called stands. -/
inductive Callee where
  /-- By itself; without arguments it is a variable. -/
  | variable
  /-- By itself, with a final mark. -/
  | marked
  /-- Behind a receiver. -/
  | received
deriving Repr, DecidableEq, Inhabited

def finishCall (context : Context) (origin : Origin) : Parse Form := do
  block? context
  wrap origin .call
  return .value

def commandCall (context : Context) (origin : Origin) (token : Token) : Parse Form := do
  let inner := commandContext context true
  commandArguments inner token
  let next ← peek inner.behind
  if next.isMark .openBrace then
    braceBlock next
    wrap origin .call
    return .blockCommand
  else if next.isKeyword .do && !context.doTaken then
    doBlock next
    wrap origin .call
    return .blockCommand
  else
    wrap origin .call
    return .command

def bareName (origin : Origin) : Callee → Parse Form
  | .variable => return .target
  | .marked => do
    asRole .method
    wrap origin .call
    return .value
  | .received => do
    wrap origin .call
    return .target

/-- What follows a name that can be called and that has just been read. -/
def called (context : Context) (origin : Origin) (callee : Callee) : Parse Form := do
  let token ←
    peek (if callee = .marked then context.behindMarkedName else context.behindName)
  if context.command && token.lexeme = .stray then fail
  else if token.isMark .openParen && !token.spaced then
    asRole .method
    argumentList token
    finishCall context origin
  else if token.isMark .openBrace then
    asRole .method
    if !context.command then
      braceBlock token
      wrap origin .call
      return .value
    else if ← blockUnlessHash context token then
      wrap origin .call
      return .value
    else commandCall context origin token
  else if token.isKeyword .do && !context.doTaken then
    asRole .method
    doBlock token
    wrap origin .call
    return .value
  else if context.command && startsArgument context token then
    asRole .method
    commandCall context origin token
  else bareName origin callee

/-! What follows an operand -/

/-- A method of the operand before it, behind a dot or two colons. A constant behind two colons is
one of the operand's scope. -/
def methodCall (context : Context) (origin : Origin) (mark : Mark) : Parse Form := do
  let token ← peek .methodName
  match token.lexeme with
  | .constant =>
    if mark = .scope then
      leaf .constant token
      wrap origin .scopeResolution
      return .target
    else named token
  | .word => named token
  | .markedWord => named token
  | .operatorName => named token
  | .mark .openParen =>
    if token.spaced then fail
    else
      argumentList token
      finishCall context origin
  | _ => fail
where
  named (token : Token) : Parse Form := do
    leaf .identifier token
    asRole .method
    called context origin .received

def elementReference (context : Context) (origin : Origin) (token : Token) : Parse Form := do
  bracketed .closeBracket token
  let next ← peek context.behindCall
  if next.isMark .openBrace && !context.braceTaken then braceBlock next
  else if next.isKeyword .do && !context.doTaken then doBlock next
  wrap origin .elementReference
  return .target

def selects (token : Token) : Bool :=
  token.isMark .dot || token.isMark .safeDot || (token.isMark .scope && !token.spaced)

/-- One more call or index behind an operand. -/
def chainStep (context : Context) (origin : Origin) (form : Form) : Parse (Option Form) := do
  if !form.isValue then return none
  else
    let token ← peek { context.behind with assign := form = .target }
    if selects token then
      asRole .receiver
      take token
      return some (← methodCall context origin
        (if token.isMark .scope then .scope else .dot))
    else if token.isMark .openIndex then
      return some (← elementReference context origin token)
    else return none

def chained (context : Context) (origin : Origin) (form : Form) : Parse Form :=
  iterate (chainStep context origin) form

/-- The mark that selects a method of a call with arguments without parentheses and a block. No range
can start there, so three dots select the operator of two dots. -/
def commandSelector? (context : Context) : Parse (Option Token) := do
  let token ← peek context.behindCommand
  if selects token then return some token
  else if token.isMark .ellipsis then
    let start := afterBlanks (← cursor).input.rest (← cursor).input.position
    return some { token with lexeme := .mark .dot, next := start.step }
  else return none

/-- A method of a call with arguments without parentheses and a block. Its own arguments can only be
without parentheses. -/
def commandChain (context : Context) (origin : Origin) : Parse Form := do
  match ← commandSelector? context with
  | none => return .blockCommand
  | some selector =>
    asRole .receiver
    take selector
    let name ← peek .methodName
    if name.lexeme = .word || name.lexeme = .markedWord || name.lexeme = .constant ||
        name.lexeme = .operatorName then
      leaf .identifier name
      asRole .method
      let inner := commandContext context false
      let next ← peek { Stance.argument inner.behind.words with lineBreak := context.lineEnds }
      if startsItem inner next then commandArguments inner next
      wrap origin .call
      return .command
    else fail
where
  startsItem (context : Context) (token : Token) : Bool :=
    match token.lexeme with
    | .keyword _ => startsArgument context token
    | _ => startsArgument context token || token.startsOperand

end PuppetInventory.Syntax.Grammar
