import PuppetInventory.Syntax.Grammar.Patterns

/-!
Conditionals, loops, selections, and the other constructs that keywords open.
-/

namespace PuppetInventory.Syntax.Grammar

open PuppetInventory.Syntax

/-- A statement that stands before a part of a construct that one of the given keywords starts. -/
def headStatement (follows : List Keyword) : Parse Unit := do
  let token ← peek (.statement [])
  let _ ← (← read).statement (.statement follows) token

/-! Conditionals -/

def branchClosers : List Keyword := [.elsif, .else, .end]

/-- A condition and the statements that hang on it. -/
def branch : Parse Unit := do
  headStatement [.then]
  branchBody (Context.statement [.then]).behind branchClosers

/-- What is left of a list of branches: other conditions, and what holds if none does. -/
def otherBranches : Parse Unit := do
  repeating do
    let token ← peek { words := branchClosers }
    if token.isKeyword .elsif then
      node .elsifBranch token do
        take token
        branch
      return true
    else return false
  let token ← peek { words := [.else, .end] }
  if token.isKeyword .else then elseBody token
where
  elseBody (token : Token) : Parse Unit :=
    node .elseBody token do
      take token
      let _ ← (← read).statements [.end] false

def conditional (kind : Kind) (token : Token) : Parse Unit :=
  node kind token do
    take token
    branch
    otherBranches
    expectEnd

/-! Loops -/

def loopBody (stance : Stance) : Parse Unit := do
  let token ← peek { stance with lineBreak := true }
  if token.lexeme = .lineBreak || token.isMark .semicolon || token.isKeyword .do then
    node .doBody token do
      take token
      let _ ← (← read).statements [.end] false
      expectEnd
  else fail

def loop (kind : Kind) (token : Token) : Parse Unit :=
  node kind token do
    take token
    headStatement [.do]
    loopBody (Context.statement [.do]).behind

/-! Selections -/

def selectorContext : Context :=
  { (Context.statement []).argument with follows := [.then], comma := true, conjoins := true }

def selector (token : Token) : Parse Unit :=
  if token.isMark .splat then markedOperand selectorContext .splat token
  else value selectorContext token

def whenClause (token : Token) : Parse Unit :=
  node .whenClause token do
    take token
    selector (← peek (.values []))
    repeating do
      let next ← peek selectorContext.behind
      if next.isMark .comma then
        take next
        selector (← peek (.values []))
        return true
      else return false
    branchBody selectorContext.behind [.when, .else, .end]

def guard : Parse Unit := do
  let context := Context.condition [.then]
  let stance := { lineBreak := true, words := [.if, .unless, .then] }
  let next ← peek stance
  if next.isKeyword .if || next.isKeyword .unless then
    take next
    let _ ← (← read).expression context (← peek (.value []))
    branchBody context.behind [.in, .else, .end]
  else branchBody stance [.in, .else, .end]

def inClause (token : Token) : Parse Unit :=
  node .inClause token do
    take token
    let context :=
      { (Context.statement []).argument with follows := [.if, .unless, .then] }
    let first ← peek { Stance.shape [] with key := true }
    patterns context first
    guard

/-- The clauses of a selection that start with the given keyword. -/
def clauses (keyword : Keyword) (clause : Token → Parse Unit) : Parse Unit :=
  repeating do
    let token ← peek { words := [.when, .in, .else, .end] }
    if token.isKeyword keyword then
      clause token
      return true
    else return false

def clauseWords : List Keyword := [.when, .in, .else, .end]

/-- The value that a selection is about; whether there is one. -/
def subject : Parse Bool := do
  let token ← peek (.statement [.when, .else, .end])
  if startsStatement [.when, .else, .end] token then
    let context := Context.statement clauseWords
    let _ ← (← read).statement context token
    let _ ← terminator? context.behind
    return true
  else
    let _ ← terminator? { words := clauseWords }
    return false

def selection (token : Token) : Parse Unit := do
  let origin ← start token
  take token
  let hasSubject ← subject
  let next ← peek { words := clauseWords }
  let byShape := hasSubject && next.isKeyword .in
  if byShape then clauses .in inClause else clauses .when whenClause
  let next ← peek { words := clauseWords }
  if next.isKeyword .else then
    node .elseBody next do
      take next
      let _ ← (← read).statements [.end] false
  expectEnd
  wrap origin (if byShape then .caseMatch else .caseSelection)
  finish origin

/-! Other constructs -/

def beginBody (token : Token) : Parse Unit :=
  node .beginBody token do
    take token
    rescuableStatements
    expectEnd

/-- A word that leaves its surroundings, or that calls their block, with its arguments. -/
def jump (context : Context) (kind : Kind) (token : Token) : Parse Form := do
  let origin ← start token
  take token
  let next ← peek context.behindJump
  let form ←
    if context.command && next.lexeme = .stray then fail
    else if next.isMark .openParen && !next.spaced then do
      argumentList next
      pure Form.value
    else if context.command &&
        (startsArgument context next || (next.isMark .openBrace && !context.braceTaken)) then do
      commandArguments (commandContext context false) next
      pure Form.command
    else pure Form.value
  wrap origin kind
  finish origin
  return form

/-- A word that repeats its surroundings. -/
def repetition (context : Context) (token : Token) : Parse Unit :=
  node .jump token do
    take token
    let next ← peek context.behind
    if next.isMark .openParen && !next.spaced then argumentList next

end PuppetInventory.Syntax.Grammar
