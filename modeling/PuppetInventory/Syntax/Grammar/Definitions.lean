import PuppetInventory.Syntax.Grammar.Calls

/-!
Definitions of methods, classes and modules, and lambdas.
-/

namespace PuppetInventory.Syntax.Grammar

open PuppetInventory.Syntax

/-! Methods -/

/-- The equals sign right behind a name, which makes it the name of an assignment; whether it is
there. -/
def assignmentSign? (stance : Stance) : Parse Bool := do
  let token ← peek { stance with assign := true }
  if token.isMark .assign && !token.spaced then
    take token
    return true
  else return false

/-- The name of a method where it is defined or where another name is given to it, and what can come
behind it. -/
def definedName (stance : Stance) (token : Token) : Parse Unit := do
  match token.lexeme with
  | .word =>
    leaf .identifier token
    let _ ← assignmentSign? stance
  | .markedWord => leaf .identifier token
  | .constant => leaf .constant token
  | .variable => leaf .variable token
  | .operatorName => leaf .identifier token
  | .symbol => leaf .simpleSymbol token
  | .literal form => if form.kind = .symbol then literal form token else fail
  | _ => fail

def behindDefinedName : Stance where
  word := true
  assign := true
  lineBreak := true

/-- The dot or the two colons between an object and the name of its method. -/
def singletonMark? (stance : Stance) : Parse Bool := do
  let token ← peek stance
  if token.isMark .dot || (token.isMark .scope) then
    take token
    return true
  else return false

/-- The name of a method behind the object that it is defined on. -/
def singletonName : Parse Unit := do
  if ← singletonMark? {} then definedName .plainName (← peek .methodName) else fail

/-- The name of a method; whether it is defined on a single object. -/
def methodHead : Parse Bool := do
  let token ← peek { Stance.methodName with words := [.self, .super] }
  match token.lexeme with
  | .mark .openParen =>
    take token
    let context := { Context.bracketed with comma := false }
    value context (← peek (.value []))
    expect context.behind .closeParen
    singletonName
    return true
  | .keyword _ =>
    take token
    singletonName
    return true
  | .word =>
    leaf .identifier token
    if ← assignmentSign? .plainName then return false else optionalName
  | .constant =>
    leaf .constant token
    optionalName
  | .variable =>
    leaf .variable token
    optionalName
  | _ =>
    definedName .plainName token
    return false
where
  /-- The name of a method, if what has been read is the object that it is defined on. -/
  optionalName : Parse Bool := do
    if ← singletonMark? behindDefinedName then
      definedName .plainName (← peek .methodName)
      return true
    else return false

def openParameterContext : Context :=
  { (Context.statement []).argument with follows := [], comma := true, conjoins := true }

/-- The single value of a method that is defined by an equals sign. -/
def methodValue (context : Context) : Parse Unit := do
  let inner := { context.argument with follows := .rescue :: context.follows }
  let token ← peek (.value [])
  let origin ← start token
  value inner token
  let next ← peek inner.behind
  if next.isKeyword .rescue then
    take next
    value inner (← peek (.value []))
    wrap origin .modifier
  finish origin

def methodRest (context : Context) : Parse Unit := do
  let token ← peek behindDefinedName
  if token.isMark .assign then
    take token
    methodValue context
  else if token.isMark .openParen then
    enclosedParameters token
    let next ← peek { Stance.statement bodyClosers with assign := true, lineBreak := true }
    if next.isMark .assign then
      take next
      methodValue context
    else rescuableBody
  else if token.lexeme = .lineBreak || token.isMark .semicolon then
    take token
    rescuableBody
  else
    openParameters openParameterContext token
    if ← terminator? openParameterContext.behind then rescuableBody else fail

def method (context : Context) (token : Token) : Parse Unit := do
  let origin ← start token
  take token
  let isSingleton ← methodHead
  methodRest context
  wrap origin (if isSingleton then .singletonMethod else .method)
  finish origin

/-! Classes and modules -/

def headContext : Context :=
  { (Context.statement []).argument with follows := [], conjoins := true }

/-- Constants that two colons divide. -/
def constants (token : Token) : Parse Unit := do
  let origin ← start token
  if token.isMark .scope then
    take token
    constant (← peek .plainName)
    wrap origin .scopeResolution
  else constant token
  repeating do
    let next ← peek headContext.behind
    if next.isMark .scope then
      take next
      constant (← peek .plainName)
      wrap origin .scopeResolution
      return true
    else return false
  finish origin
where
  constant (token : Token) : Parse Unit :=
    if token.lexeme = .constant then leaf .constant token else fail

/-- Whether constants come that a brace or a bracket of the statements behind them follows. -/
def endsAtBracket (token : Token) : Parse Bool :=
  foresees do
    constants token
    let next ← peek { headContext.behind with operand := true }
    return next.isMark .openBrace || next.isMark .openBracket

def className (token : Token) : Parse Unit := do
  if ← endsAtBracket token then constants token
  else
    let form ← (← read).primary headContext token
    let isName :=
      match (← cursor).trees.head? with
      | some tree => tree.kind = .constant || tree.kind = .scopeResolution
      | none => false
    if form ≠ .target || !isName then fail

/-- The class that a class extends, and the end of the line behind it. -/
def superclass? : Parse Unit := do
  let token ← peek { Stance.statement bodyClosers with lineBreak := true }
  if token.isMark .less then
    let context := Context.condition []
    node .superclass token do
      take token
      let _ ← (← read).expression context (← peek (.value []))
    if ← terminator? context.behind then return () else fail

def classBody (token : Token) : Parse Unit := do
  let origin ← start token
  take token
  let next ← peek { Stance.value [] with classOf := true }
  if next.isMark .classOf then
    take next
    value headContext (← peek (.value []))
    if ← terminator? headContext.behind then
      rescuableBody
      wrap origin .singletonClass
    else fail
  else
    className next
    superclass?
    rescuableBody
    wrap origin .classBody
  finish origin

def moduleBody (token : Token) : Parse Unit :=
  node .moduleBody token do
    take token
    className (← peek (.value []))
    rescuableBody

/-! Lambdas -/

def lambdaContext : Context :=
  { Context.bracketed with follows := [.do], braceTaken := true }

def lambda (token : Token) : Parse Unit :=
  node .lambda token do
    take token
    let next ← peek { word := true, words := [.do] }
    match next.lexeme with
    | .mark .openBrace => pure ()
    | .keyword .do => pure ()
    | .mark .openParen => enclosedParameters next
    | _ => openParameters lambdaContext next
    let next ← peek { words := [.do] }
    if next.isMark .openBrace then braceBlock next
    else if next.isKeyword .do then doBlock next
    else fail

end PuppetInventory.Syntax.Grammar
