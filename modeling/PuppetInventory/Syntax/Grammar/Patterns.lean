import PuppetInventory.Syntax.Grammar.Definitions

/-!
Patterns that values are held against.
-/

namespace PuppetInventory.Syntax.Grammar

open PuppetInventory.Syntax

def behindPattern (context : Context) : Stance :=
  { lineBreak := context.lineEnds, words := context.follows }

/-- Whether a pattern can start with a token. -/
def startsShape (token : Token) : Bool :=
  match token.lexeme with
  | .word => true
  | .constant => true
  | .number => true
  | .character => true
  | .symbol => true
  | .literal _ => true
  | .keyword .nil => true
  | .keyword .self => true
  | .keyword .truth => true
  | .keyword .falsehood => true
  | .mark mark =>
    match mark with
    | .openBracket => true
    | .openBrace => true
    | .openParen => true
    | .caret => true
    | .unaryMinus => true
    | .plus => true
    | .range => true
    | .ellipsis => true
    | .scope => true
    | .lambda => true
    | _ => false
  | _ => false

/-! Values as patterns -/

/-- A literal as a pattern. -/
def primitive (context : Context) (token : Token) : Parse Unit := do
  match token.lexeme with
  | .number => number context.follows token
  | .character => leaf .character token
  | .symbol => leaf .simpleSymbol token
  | .literal form =>
    if form.kind = .text then
      let _ ← textLiteral context form token
    else literal form token
  | .keyword .nil => leaf .absent token
  | .keyword .self => leaf .selfReference token
  | .keyword .truth => leaf .truth token
  | .keyword .falsehood => leaf .falsehood token
  | .mark .unaryMinus => signed token
  | .mark .plus => signed token
  | .mark .lambda => lambda token
  | _ => fail
where
  signed (token : Token) : Parse Unit :=
    node .unary token do
      take token
      let next ← peek (.shape [])
      if next.lexeme = .number && !(token.isMark .unaryMinus && next.spaced) then
        number context.follows next
      else fail

/-- A literal, or the range that it starts. -/
def primitiveRange (context : Context) (token : Token) : Parse Unit := do
  let origin ← start token
  primitive context token
  let next ← peek (behindPattern context)
  if next.isMark .range || next.isMark .ellipsis then
    take next
    let stop ← peek { Stance.shape context.follows with lineBreak := context.lineEnds }
    if startsShape stop && !startsOther stop then primitive context stop
    wrap origin .range
  finish origin
where
  /-- Whether a pattern that is no literal starts with a token. -/
  startsOther (token : Token) : Bool :=
    match token.lexeme with
    | .word => true
    | .constant => true
    | .mark mark => mark ≠ .unaryMinus && mark ≠ .plus && mark ≠ .lambda
    | _ => false

/-- A value that has been bound before. -/
def boundValue (token : Token) : Parse Unit :=
  node .pattern token do
    take token
    let next ← peek .plainName
    match next.lexeme with
    | .word => leaf .identifier next
    | .variable => leaf .variable next
    | .mark .openParen =>
      take next
      let context := { Context.item with comma := false, arrow := false }
      let _ ← (← read).expression context (← peek (.value []))
      expect context.behind .closeParen
    | _ => fail

/-! Lists of patterns -/

/-- What has been read of a list of patterns. -/
structure PatternList where
  size : Nat := 0
  stars : Nat := 0
  /-- Whether the first item is a star. -/
  leading : Bool := false
  /-- Whether the items have keys. -/
  keyed : Bool := false
  /-- Whether two stars have ended the list. -/
  ended : Bool := false
deriving Repr, Inhabited

namespace PatternList

def takesKey (list : PatternList) : Bool :=
  list.size = 0 || list.keyed

def takesPattern (list : PatternList) : Bool :=
  !list.keyed && list.stars < 2

def takesStar (list : PatternList) : Bool :=
  !list.keyed && (list.stars = 0 || (list.stars = 1 && list.leading && list.size > 1))

def takesComma (list : PatternList) : Bool :=
  !list.ended && list.stars < 2

def canEndWithComma (list : PatternList) : Bool :=
  list.stars = 0

end PatternList

/-- The name behind stars, which may be missing. -/
def starName (context : Context) : Parse Unit := do
  let next ← peek { behindPattern context with word := true }
  if next.lexeme = .word then leaf .identifier next

/-- A pattern with a key; the pattern may be missing. -/
def keyedPattern (context : Context) (token : Token) : Parse Unit :=
  node .pair token do
    match token.lexeme with
    | .literal form => literal form token
    | _ => leaf .hashKeySymbol token
    asRole .key
    expect {} .colon
    let next ← peek { Stance.shape context.follows with lineBreak := context.lineEnds }
    if startsShape next then (← read).pattern context next

def patternItem (context : Context) (list : PatternList) (token : Token) : Parse PatternList := do
  let longer := { list with size := list.size + 1 }
  match token.lexeme with
  | .mark .star =>
    if list.takesStar then
      node .splat token do
        take token
        starName context
      return { longer with stars := list.stars + 1, leading := list.leading || list.size = 0 }
    else fail
  | .mark .doubleStar =>
    if list.takesKey then
      node .hashSplat token do
        take token
        starName context
      return { longer with keyed := true, ended := true }
    else fail
  | _ =>
    if list.takesKey && (← startsPair .bracketed token) then
      keyedPattern context token
      return { longer with keyed := true }
    else if list.takesPattern then
      (← read).pattern context token
      return longer
    else fail

def startsItem (list : PatternList) (token : Token) : Bool :=
  match token.lexeme with
  | .key => true
  | .markedWord => true
  | .literal _ => true
  | .mark .star => true
  | .mark .doubleStar => true
  | _ => !list.keyed && startsShape token

/-- Patterns that commas divide, from their first token on. -/
def patternList (context : Context) (token : Token) : Parse PatternList := do
  let first ← patternItem context {} token
  iterate step first
where
  step (list : PatternList) : Parse (Option PatternList) := do
    let comma ← peek (behindPattern context)
    if comma.isMark .comma && list.takesComma then
      take comma
      let stance := { Stance.shape context.follows with key := list.keyed }
      let next ← peek { stance with lineBreak := context.lineEnds && list.canEndWithComma }
      if startsItem list next then return some (← patternItem context list next)
      else if list.canEndWithComma then return none
      else fail
    else return none

def patterns (context : Context) (token : Token) : Parse Unit := do
  let _ ← patternList context token

def patternContext : Context :=
  { Context.bracketed with follows := [] }

/-- Patterns between brackets; whether they have keys. Nothing remains if there are none. -/
def enclosedPatterns (closing : Mark) (token : Token) : Parse (Option Bool) := do
  take token
  let next ← peek { Stance.shape [] with key := closing ≠ .closeBracket || !token.spaced }
  if next.isMark closing then
    take next
    return none
  else
    let list ← patternList patternContext next
    expect (behindPattern patternContext) closing
    return some list.keyed

/-- A constant with the patterns of its parts. -/
def constantPattern (context : Context) (token : Token) : Parse Unit :=
  node .pattern token do
    if token.isMark .scope then
      take token
      constantName
    else leaf .constant token
    repeating do
      let next ← peek (behindPattern context)
      if next.isMark .scope then
        take next
        constantName
        return true
      else return false
    let next ← peek (behindPattern context)
    if !next.spaced then
      if next.isMark .openParen then
        let _ ← enclosedPatterns .closeParen next
      else if next.isMark .openBracket then
        let _ ← enclosedPatterns .closeBracket next
where
  constantName : Parse Unit := do
    let name ← peek .plainName
    if name.lexeme = .constant then leaf .constant name else fail

/-- A pattern without alternatives. -/
def simplePattern (context : Context) (token : Token) : Parse Unit := do
  match token.lexeme with
  | .word => leaf .identifier token
  | .constant => constantPattern context token
  | .mark mark =>
    match mark with
    | .openBracket => node .pattern token do
      if (← enclosedPatterns .closeBracket { token with spaced := true }) = some true then fail
    | .openBrace => node .pattern token do
      if (← enclosedPatterns .closeBrace token) = some false then fail
    | .openParen => node .pattern token do
      take token
      (← read).pattern patternContext (← peek (.shape []))
      expect (behindPattern patternContext) .closeParen
    | .caret => boundValue token
    | .scope => constantPattern context token
    | .range => beginless token
    | .ellipsis => beginless token
    | _ => primitiveRange context token
  | _ => primitiveRange context token
where
  beginless (token : Token) : Parse Unit :=
    node .range token do
      take token
      primitive context (← peek (.shape []))

/-- A pattern with its alternatives and the names that it binds. -/
def pattern (context : Context) (token : Token) : Parse Unit := do
  let origin ← start token
  simplePattern context token
  repeating do
    let next ← peek (behindPattern context)
    if next.isMark .pipe then
      take next
      simplePattern context (← peek (.shape []))
      wrap origin .pattern
      return true
    else return false
  repeating do
    let next ← peek (behindPattern context)
    if next.isMark .arrow then
      take next
      let name ← peek .plainName
      if name.lexeme = .word then
        leaf .identifier name
        wrap origin .pattern
        return true
      else fail
    else return false
  finish origin

/-! Where values can come as well -/

def expectConstant : Parse Unit := do
  let name ← peek .plainName
  if name.lexeme = .constant then take name else fail

/-- Whether what starts here is a pattern, and cannot be a value. -/
def isOnlyPattern (token : Token) : Parse Bool := do
  take token
  match token.lexeme with
  | .mark .caret => return true
  | .mark .openBracket => (← read).isOnlyPattern (← peek (.value []))
  | .mark .openParen => (← read).isOnlyPattern (← peek (.value []))
  | .mark .openBrace =>
    let key ← peek (.hashItem [])
    if ← startsPair .bracketed key then
      match key.lexeme with
      | .literal form => literal form key
      | _ => take key
      expect {} .colon
      (← read).isOnlyPattern (← peek (.value []))
    else return false
  | .mark .scope =>
    expectConstant
    let next ← peek Context.bracketed.behind
    return next.isMark .openParen && !next.spaced
  | _ => return false

/-- Reads something that is a value as well as a pattern. -/
def valueOrPattern (context : Context) (token : Token) : Parse Unit := do
  match token.lexeme with
  | .word => take token
  | .constant => take token
  | .mark .scope =>
    take token
    expectConstant
  | .mark .openBracket =>
    take token
    expect (.argument []) .closeBracket
  | .mark .openBrace =>
    take token
    expect (.hashItem []) .closeBrace
  | .mark .range =>
    take token
    primitive context (← peek (.value []))
  | .mark .ellipsis =>
    take token
    primitive context (← peek (.value []))
  | _ => primitive context token

/-- Whether what comes next can follow a pattern, and cannot follow a value. -/
def onlyPatternEnds (context : Context) : Parse Bool := do
  let next ← peek context.behind
  match next.lexeme with
  | .lineBreak => return !context.arrow
  | .mark .semicolon => return !context.arrow
  | .keyword keyword => return !context.arrow && Keyword.modifiers.contains keyword
  | .mark .arrow => return true
  | _ => return false

/-- Whether a star starts a pattern, and no target of an assignment. -/
def starsPattern (context : Context) (token : Token) : Parse Bool := do
  take token
  let next ← peek { Stance.target with lineBreak := context.lineEnds }
  if next.lexeme = .word then
    take next
    let next ← peek context.behindTarget
    return !(endsTarget next || selects next || next.isMark .openIndex || next.isMark .openParen)
  else return !next.startsOperand && !endsTarget next
where
  endsTarget (token : Token) : Bool :=
    token.isMark .comma || token.isMark .assign

/-- Whether a pattern comes where a value can come as well. The first thing that only one of them can
hold tells, and nothing that both can hold stands behind the first operand. -/
def prefersPattern (context : Context) (token : Token) : Parse Bool := do
  if ← foresees (isOnlyPattern token) then return true
  else
    match token.lexeme with
    | .mark .doubleStar => return true
    | .mark .star => foresees (starsPattern context token)
    | .literal _ =>
      foresees do
        primitive context token
        let next ← peek context.behind
        if next.isMark .colon && !next.spaced then return true else onlyPatternEnds context
    | _ =>
      if ← startsPair .bracketed token then return true
      else
        foresees do
          valueOrPattern context token
          onlyPatternEnds context

end PuppetInventory.Syntax.Grammar
