import PuppetInventory.Syntax.Grammar.Arguments

/-!
Parameters, bodies with their clauses, and blocks.
-/

namespace PuppetInventory.Syntax.Grammar

open PuppetInventory.Syntax

/-! Parameters -/

def behindParameter (context : Context) : Stance :=
  { word := true
    colon := true
    assign := true
    lineBreak := context.lineEnds
    words := context.follows }

def namedParameter (context : Context) (token : Token) : Parse Unit := do
  leaf .identifier token
  let next ← peek (behindParameter context)
  if next.isMark .colon && !next.spaced then
    take next
    let next ← peek { Stance.value context.follows with lineBreak := context.lineEnds }
    if next.startsOperand then value context next
  else if next.isMark .assign then
    take next
    value context (← peek (.value []))

/-- The name behind the mark of a parameter, which may be missing. -/
def markedParameter (context : Context) (token : Token) : Parse Unit := do
  take token
  let next ← peek (behindParameter context)
  if next.lexeme = .word then leaf .identifier next

def enclosedParameters (token : Token) : Parse Unit :=
  node .parameters token do
    take token
    let first ← peek .plainName
    if first.isMark .closeParen then take first
    else
      (← read).parameter .bracketed first
      repeating do
        let next ← peek (behindParameter .bracketed)
        if next.isMark .comma then
          take next
          (← read).parameter .bracketed (← peek .plainName)
          return true
        else return false
      expect (behindParameter .bracketed) .closeParen

def parameter (context : Context) (token : Token) : Parse Unit :=
  node .parameter token do
    match token.lexeme with
    | .word => namedParameter context token
    | .mark .openParen => enclosedParameters token
    | .mark .star => markedParameter context token
    | .mark .doubleStar => markedParameter context token
    | .mark .ampersand => markedParameter context token
    | .mark .ellipsis => take token
    | _ => fail

/-- Parameters that commas divide, up to a token that starts none. -/
def openParameters (context : Context) (token : Token) : Parse Unit :=
  node .parameters token do
    if token.isMark .openParen then fail
    (← read).parameter context token
    repeating do
      let next ← peek (behindParameter context)
      if next.isMark .comma then
        take next
        (← read).parameter context (← peek .plainName)
        return true
      else return false

def blockVariables : Parse Unit := do
  let name ← peek .plainName
  if name.lexeme = .word then
    leaf .identifier name
    repeating do
      let next ← peek .plainName
      if next.isMark .comma then
        take next
        let name ← peek .plainName
        if name.lexeme = .word then
          leaf .identifier name
          return true
        else fail
      else return false
  else fail

/-- The parameters of a block between bars. A comma may follow the last one. -/
def blockParameters (token : Token) : Parse Unit :=
  node .parameters token do
    let context := { Context.bracketed with bar := true }
    take token
    repeating do
      let next ← peek .plainName
      if next.isMark .pipe || next.isMark .semicolon then return false
      else if next.isMark .comma then
        take next
        return false
      else
        (← read).parameter context next
        let comma ← peek (behindParameter context)
        if comma.isMark .comma then
          take comma
          return true
        else return false
    let next ← peek (behindParameter context)
    if next.isMark .semicolon then
      take next
      blockVariables
    expect .plainName .pipe

/-! Bodies -/

def startsStatement (closers : List Keyword) (token : Token) : Bool :=
  match token.lexeme with
  | .keyword keyword => !closers.contains keyword
  | _ => token.startsOperand

/-- Statements up to one of the given keywords, if there are any, as one tree. -/
def body (kind : Kind) (closers : List Keyword) : Parse Unit := do
  let token ← peek (.statement closers)
  if startsStatement closers token || token.isMark .semicolon then
    node kind token do
      let _ ← (← read).statements closers false

/-- The body of a branch: behind the end of a line, a semicolon or the word `then`. -/
def branchBody (stance : Stance) (closers : List Keyword) : Parse Unit := do
  let ended ← terminator? stance
  let token ← peek (if ended then .statement (.then :: closers) else stance)
  if token.isKeyword .then then
    take token
    body .thenBody closers
  else if ended then body .thenBody closers
  else fail

/-- The words that end the statements of a body which can rescue. -/
def bodyClosers : List Keyword := [.rescue, .else, .ensure, .end]

def exceptionContext : Context :=
  { (Context.statement []).argument with follows := [.then], comma := true, conjoins := true }

def exception (token : Token) : Parse Unit :=
  if token.isMark .splat then markedOperand exceptionContext .splat token
  else value exceptionContext token

def exceptions : Parse Unit := do
  let token ← peek { Stance.values [.then] with lineBreak := true }
  if token.startsOperand || token.isMark .splat then
    exception token
    repeating do
      let next ← peek exceptionContext.behind
      if next.isMark .comma then
        take next
        exception (← peek (.values []))
        return true
      else return false

def exceptionTarget : Parse Unit := do
  let token ← peek exceptionContext.behind
  if token.isMark .arrow then
    take token
    let form ← (← read).primary exceptionContext (← peek (.value []))
    if form ≠ .target then fail

def rescueClause (token : Token) : Parse Unit :=
  node .rescueClause token do
    take token
    exceptions
    exceptionTarget
    branchBody exceptionContext.behind bodyClosers

/-- A clause that holds statements alone. -/
def plainClause (kind : Kind) (token : Token) : Parse Unit :=
  node kind token do
    take token
    let _ ← (← read).statements bodyClosers false

/-- Statements that can be followed by clauses for exceptions. -/
def rescuableStatements : Parse Unit := do
  let _ ← (← read).statements bodyClosers false
  repeating do
    let token ← peek { words := bodyClosers }
    match token.lexeme with
    | .keyword .rescue =>
      rescueClause token
      return true
    | .keyword .else =>
      plainClause .elseBody token
      return true
    | .keyword .ensure =>
      plainClause .ensureClause token
      return true
    | _ => return false

/-- The body of a definition or of a block between `do` and `end`, with the word `end`. -/
def rescuableBody : Parse Unit := do
  let token ← peek (.statement bodyClosers)
  if !token.isKeyword .end then node .bodyStatement token rescuableStatements
  expectEnd

/-! Blocks -/

def optionalBlockParameters (stance : Stance) : Parse Unit := do
  let token ← peek stance
  if token.isMark .pipe then blockParameters token

def braceBlock (token : Token) : Parse Unit := do
  node .block token do
    take token
    optionalBlockParameters (.statement [])
    body .blockBody []
    expect {} .closeBrace
  asRole .block

def doBlock (token : Token) : Parse Unit := do
  node .doBlock token do
    take token
    let _ ← terminator? (.statement bodyClosers)
    optionalBlockParameters (.statement bodyClosers)
    rescuableBody
  asRole .block

/-- The block that comes next, if one does. -/
def block? (context : Context) : Parse Unit := do
  let token ← peek context.behindCall
  if token.isMark .openBrace then braceBlock token
  else if token.isKeyword .do && !context.doTaken then doBlock token

end PuppetInventory.Syntax.Grammar
