import PuppetInventory.Syntax.Grammar.Constructs

/-!
Assignments to one target or to several, and loops over the items of a value.
-/

namespace PuppetInventory.Syntax.Grammar

open PuppetInventory.Syntax

/-! Targets -/

/-- A target, or the star that gathers what other targets leave. -/
def target (context : Context) (token : Token) : Parse Unit := do
  if token.isMark .star then
    node .splat token do
      take token
      let next ← peek .target
      if next.startsOperand then single next
  else single token
where
  single (token : Token) : Parse Unit := do
    let form ← (← read).primary { context.argument with comma := true } token
    if form ≠ .target && form ≠ .targets then fail

/-- Targets behind the first one. A comma may follow the last one. -/
def otherTargets (context : Context) : Parse Unit :=
  repeating do
    let comma ← peek context.behindTargets
    if comma.isMark .comma then
      take comma
      let next ← peek .target
      if next.startsOperand then
        target context next
        return true
      else return false
    else return false

/-! Values -/

def assignedContext (context : Context) (several : Bool) : Context :=
  { context with
    follows := .rescue :: context.follows
    conjoins := false
    comma := several || context.comma
    arrow := false
    targets := false }

def assignedSplat (context : Context) (token : Token) : Parse Unit :=
  node .splat token do
    take token
    let next ← peek { context.behind with operand := true, index := false }
    if next.startsOperand then value context.argument next

def listedValue (context : Context) (token : Token) : Parse Unit :=
  if token.isMark .splat then assignedSplat context token else value context.argument token

/-- The values behind the first one of an assignment; whether there are any. -/
def otherValues (context : Context) : Parse Bool :=
  iterate step false
where
  step (_ : Bool) : Parse (Option Bool) := do
    let comma ← peek context.behind
    if comma.isMark .comma then
      take comma
      listedValue context (← peek (.values []))
      return some true
    else return none

/-- The value that is assigned if the evaluation of the first one fails. -/
def rescuedValue (context : Context) (origin : Origin) : Parse Unit := do
  let next ← peek context.behind
  if next.isKeyword .rescue then
    take next
    value { context.argument with conjoins := false } (← peek (.value []))
    wrap origin .modifier

/-- The value of an assignment, or its values if there can be several. -/
def assigned (context : Context) (several : Bool) : Parse Form := do
  let inner := assignedContext context several
  let listed := several && !context.comma
  let token ← peek (if several then .values [] else .value [])
  let origin ← start token
  if several && token.isMark .splat then
    assignedSplat inner token
    let isList ← if listed then otherValues inner else pure false
    if isList then wrap origin .assignmentList
    finish origin
    return .value
  else
    let form ← (← read).expression inner token
    let isList ← if listed && form.isValue then otherValues inner else pure false
    if isList then wrap origin .assignmentList
    else rescuedValue { inner with comma := context.comma } origin
    finish origin
    return form.operated

/-- An assignment behind its targets, which start at the origin. -/
def assignment (context : Context) (origin : Origin) (sign : Token) (several : Bool) :
    Parse Form := do
  take sign
  let form ← assigned context several
  wrap origin .assignment
  return form

/-- Several targets with their values, behind the first target. -/
def multipleAssignment (context : Context) (origin : Origin) : Parse Form := do
  otherTargets context
  let next ← peek context.behindTargets
  if next.isMark .assign then
    wrap origin .assignmentList
    assignment context origin next true
  else if context.targets then
    wrap origin .destructuring
    return .targets
  else fail

/-- What follows an operand that starts at the origin, if it can be assigned to. -/
def assignable (context : Context) (origin : Origin) (form : Form) : Parse Form := do
  if form = .target || form = .targets then
    let next ← peek (if form = .target then context.behindTarget else context.behindTargets)
    if next.isMark .assign then assignment context origin next true
    else if next.isMark .comma && !context.comma then multipleAssignment context origin
    else if form = .target then
      if next.isMark .operatorAssign then assignment context origin next false
      else return .target
    else if context.targets then return .targets
    else fail
  else return form

/-! Loops over items -/

def forLoop (token : Token) : Parse Unit :=
  node .forLoop token do
    take token
    let context := { (Context.statement []).argument with lineEnds := false, follows := [.in] }
    target context (← peek .target)
    otherTargets context
    expectKeyword context.behind .in
    let context := { (Context.statement []).argument with follows := [.do], conjoins := true }
    value context (← peek (.value []))
    loopBody context.behind

end PuppetInventory.Syntax.Grammar
