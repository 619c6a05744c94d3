import PuppetInventory.Syntax.Grammar.Expressions

/-!
Statements and lists of statements, and the grammar as a whole.
-/

namespace PuppetInventory.Syntax

namespace Grammar

/-! Statements -/

def aliasStatement (token : Token) : Parse Unit :=
  node .aliasStatement token do
    take token
    definedName { Stance.methodName with word := true } (← peek .methodName)
    definedName .plainName (← peek .methodName)

def undefStatement (token : Token) : Parse Unit :=
  node .undefStatement token do
    take token
    definedName .plainName (← peek .methodName)
    repeating do
      let next ← peek (Context.statement []).behind
      if next.isMark .comma then
        take next
        definedName .plainName (← peek .methodName)
        return true
      else return false

/-- Statements that run before or after all others. -/
def hookBlock (token : Token) : Parse Unit :=
  node .hookBlock token do
    take token
    expect {} .openBrace
    let _ ← (← read).statements [] false
    expect {} .closeBrace

/-- One more modifier behind a statement that starts at the origin. -/
def modifier (context : Context) (origin : Origin) (form : Form) : Parse (Option Form) := do
  if form = .targets then return none
  else
    let token ← peek (if form.isValue then context.behind else context.behindCommand)
    match token.lexeme with
    | .keyword keyword =>
      if Keyword.modifiers.contains keyword then
        take token
        let _ ← (← read).expression { context with targets := false } (← peek (.value []))
        wrap origin .modifier
        return some .command
      else return none
    | _ => return none

def modified (context : Context) (origin : Origin) (form : Form) : Parse Form :=
  iterate (modifier context origin) form

def statement (context : Context) (token : Token) : Parse Form := do
  let origin ← start token
  let form ←
    match token.lexeme with
    | .keyword .alias => finished (aliasStatement token)
    | .keyword .undef => finished (undefStatement token)
    | .keyword .beginHook => finished (hookBlock token)
    | .keyword .endHook => finished (hookBlock token)
    | _ => do (← read).expression context token
  let form ← modified context origin form
  finish origin
  return form
where
  finished (rule : Parse Unit) : Parse Form := do
    rule
    return .command

/-! Lists of statements -/

/-- The end of a statement: the end of the line or a semicolon; whether another statement can
follow. -/
def statementEnd (context : Context) : Parse Bool :=
  terminator? context.behind

/-- Semicolons, or one statement with the end that it needs. -/
def statementStep (closers : List Keyword) : Parse Bool := do
  let token ← peek (.statement closers)
  if token.isMark .semicolon then
    take token
    return true
  else if startsStatement closers token then
    let context := Context.statement closers
    let form ← statement context token
    if form = .targets then fail
    statementEnd context
  else return false

/-- Statements up to one of the given keywords or to a closing mark. They are targets if they can be
and if there is nothing else. -/
def statements (closers : List Keyword) (canBeTargets : Bool) : Parse Form := do
  let token ← peek (.statement closers)
  if canBeTargets && startsStatement closers token then
    let context := { Context.statement closers with targets := true }
    let form ← statement context token
    if form = .targets then return .targets
    else
      if ← statementEnd context then repeating (statementStep closers)
      return .value
  else
    repeating (statementStep closers)
    return .value

/-- Whether an arrow makes the value before it a key. -/
def makesKey (context : Context) (arrow : Token) : Parse Bool :=
  foresees do
    take arrow
    let token ← peek { Stance.value [] with key := true }
    return !(← (← read).prefersPattern context token)

/-- The first statement behind a brace; whether the brace does not open a hash after all, since an
arrow makes the first value a key. -/
def firstBlockStatement (token : Token) : Parse Bool := do
  let context := Context.statement []
  let origin ← start token
  let form ← joined context origin token
  let next ← peek context.behind
  let isKey ←
    if form.isValue && next.isMark .arrow then makesKey context next else pure false
  if isKey then return false
  else
    let form ← conjoined context origin (← held context origin form)
    let _ ← modified context origin form
    finish origin
    if ← statementEnd context then repeating (statementStep [])
    return true

/-- Statements behind a brace that can also open a hash; whether it does not. -/
def blockStatements : Parse Bool := do
  let token ← peek (.statement [])
  if token.startsOperand then node .blockBody token (firstBlockStatement token)
  else if startsStatement [] token || token.isMark .semicolon then
    node .blockBody token do
      repeating (statementStep [])
      return true
  else return true

def enclosed : Parse Unit := do
  repeating (statementStep [])
  expect {} .closeBrace

end Grammar

/-! The grammar -/

/-- The rules with a bound on the number of tokens and on how deeply the rules nest. -/
def grammar (size : Nat) : Nat → Rules
  | 0 =>
    { size := size
      statements := fun _ _ => .error ∘ Cursor.fault
      blockStatements := .error ∘ Cursor.fault
      enclosed := .error ∘ Cursor.fault
      statement := fun _ _ => .error ∘ Cursor.fault
      expression := fun _ _ => .error ∘ Cursor.fault
      operand := fun _ _ => .error ∘ Cursor.fault
      primary := fun _ _ => .error ∘ Cursor.fault
      parameter := fun _ _ => .error ∘ Cursor.fault
      pattern := fun _ _ => .error ∘ Cursor.fault
      patterns := fun _ _ => .error ∘ Cursor.fault
      isOnlyPattern := fun _ => .error ∘ Cursor.fault
      prefersPattern := fun _ _ => .error ∘ Cursor.fault }
  | depth + 1 =>
    { size := size
      statements := fun closers targets => Grammar.statements closers targets (grammar size depth)
      blockStatements := fun cursor => Grammar.blockStatements (grammar size depth) cursor
      enclosed := fun cursor => Grammar.enclosed (grammar size depth) cursor
      statement := fun context token => Grammar.statement context token (grammar size depth)
      expression := fun context token => Grammar.expression context token (grammar size depth)
      operand := fun context token => Grammar.operand context token (grammar size depth)
      primary := fun context token => Grammar.primary context token (grammar size depth)
      parameter := fun context token => Grammar.parameter context token (grammar size depth)
      pattern := fun context token => Grammar.pattern context token (grammar size depth)
      patterns := fun context token => Grammar.patterns context token (grammar size depth)
      isOnlyPattern := fun token => Grammar.isOnlyPattern token (grammar size depth)
      prefersPattern := fun context token =>
        Grammar.prefersPattern context token (grammar size depth) }

end PuppetInventory.Syntax
