import PuppetInventory.Syntax.Lexer
import PuppetInventory.Syntax.Tree

/-!
The frame of the grammar: the cursor that moves over a document and gathers trees, the faults that
stop it, what a rule knows about its surroundings, and the rules that other rules are built from.
-/

namespace PuppetInventory.Syntax

inductive Fault where
  /-- A token on this row does not fit. -/
  | misplaced (row : Nat)
  /-- The text ends inside a construct. -/
  | unfinished
deriving Repr, DecidableEq, Inhabited

/-! The cursor -/

structure Cursor where
  /-- The text that has not been read. -/
  input : Input
  last : Span
  /-- The heredocs that have been announced and whose bodies have not been read. -/
  heredocs : List Heredoc
  /-- Whether the body of the first of them is being read. -/
  inBody : Bool
  /-- The comments and heredoc bodies behind the last token, the latest first. -/
  waiting : List Tree
  /-- The parts of the tree that is being read, the latest first. -/
  trees : List Tree
deriving Inhabited

namespace Cursor

def ofInput (input : Input) : Cursor where
  input := input
  last := ⟨.start, .start⟩
  heredocs := []
  inBody := false
  waiting := []
  trees := []

/-- What waits becomes part of the tree that is being read. -/
def settle (cursor : Cursor) : Cursor :=
  { cursor with trees := cursor.waiting ++ cursor.trees, waiting := [] }

def push (cursor : Cursor) (tree : Tree) : Cursor :=
  { cursor with trees := tree :: cursor.trees }

/-- Moves behind a token. -/
def pass (cursor : Cursor) (token : Token) : Cursor :=
  let heredocs :=
    match token.lexeme with
    | .heredoc heredoc => cursor.heredocs ++ [heredoc]
    | _ => cursor.heredocs
  { cursor.settle with input := token.next, last := token.span, heredocs := heredocs }

/-- The fault of a token that fits nowhere. A token that starts an expression is blamed on the one
before it. -/
def fault (cursor : Cursor) : Fault :=
  let token := Stance.anything.token cursor.input
  match token.lexeme with
  | .finish => .unfinished
  | .stray => .misplaced token.span.start.row
  | .mark mark =>
    if mark.isInner then .misplaced token.span.start.row else .misplaced cursor.last.start.row
  | _ => .misplaced cursor.last.start.row

end Cursor

/-! Surroundings -/

/-- What surrounds an expression. -/
structure Context where
  /-- Whether a line break ends it. -/
  lineEnds : Bool
  /-- The keywords that can follow it. -/
  follows : List Keyword
  /-- Whether a call in it may take arguments without parentheses. -/
  command : Bool
  /-- Whether `and` and `or` belong to it. -/
  conjoins : Bool
  comma : Bool
  /-- Whether an arrow can follow it that makes it a key. -/
  arrow : Bool
  colon : Bool
  bar : Bool
  /-- Whether a brace that follows it opens a block of a call around it. -/
  braceTaken : Bool
  /-- Whether it can be the targets of an assignment around it. -/
  targets : Bool
deriving Repr, Inhabited

namespace Context

/-- The context of a statement in a list that the given keywords close. -/
def statement (closers : List Keyword) : Context where
  lineEnds := true
  follows := .in :: Keyword.modifiers ++ closers
  command := true
  conjoins := true
  comma := false
  arrow := false
  colon := false
  bar := false
  braceTaken := false
  targets := false

/-- The context of an expression behind which only the given keywords can come, and `in`. -/
def condition (follows : List Keyword) : Context :=
  { statement [] with follows := .in :: follows }

/-- The context of the items between brackets. -/
def item : Context :=
  { statement [] with lineEnds := false, follows := [.in], comma := true, arrow := true }

/-- The context of a value that is no call without parentheses. -/
def argument (context : Context) : Context :=
  { context with command := false, conjoins := false, arrow := false, targets := false }

/-- The context of a value between brackets that is no call without parentheses. -/
def bracketed : Context :=
  { item.argument with conjoins := true }

/-- Whether `do` belongs to a construct around it. -/
def doTaken (context : Context) : Bool :=
  context.follows.contains .do

def behind (context : Context) : Stance where
  joint := true
  index := true
  colon := context.colon
  lineBreak := context.lineEnds
  words := .and :: .or :: context.follows

/-- The keywords that can come behind an item whose value is left out. -/
def wordsBehindItem (context : Context) : List Keyword :=
  let follows := context.follows.filter (· ≠ .in)
  if context.conjoins then follows else .and :: .or :: follows

/-- What can come behind something that a value can be assigned to. -/
def behindTarget (context : Context) : Stance :=
  { context.behind with assign := true }

/-- What can come behind several things that values can be assigned to. -/
def behindTargets (context : Context) : Stance :=
  { context.behindTarget with joint := false, lineBreak := false }

/-- What can come behind something that a block can be passed to. -/
def behindCall (context : Context) : Stance :=
  { context.behindTarget with words := .do :: context.behind.words }

/-- A stance in which arguments without parentheses can come as well, if a call may take them. -/
def orArgument (context : Context) (stance : Stance) : Stance :=
  if context.command then
    { stance with
      operand := true
      key := true
      splat := true
      hashSplat := true
      blockAmpersand := true }
  else stance

/-- What can come behind a name that can take arguments and a block. -/
def behindName (context : Context) : Stance :=
  context.orArgument context.behindCall

/-- What can come behind a name that ends with a mark. -/
def behindMarkedName (context : Context) : Stance :=
  { context.behindName with assign := false }

/-- What can come behind a word that can take arguments and no block. -/
def behindJump (context : Context) : Stance :=
  context.orArgument context.behind

/-- What can come behind an expression that no operator can follow. -/
def behindCommand (context : Context) : Stance :=
  { context.behind with joint := false, index := false }

end Context

/-- What an operand turned out to be. -/
inductive Form where
  | value
  /-- Something that a value can be assigned to. -/
  | target
  /-- Targets between parentheses. -/
  | targets
  /-- A call with arguments without parentheses, which no operator can follow. -/
  | command
  /-- Such a call with a block. -/
  | blockCommand
deriving Repr, DecidableEq, Inhabited

namespace Form

def isValue (form : Form) : Bool :=
  form = .value || form = .target

/-- What remains of a form behind an operator. -/
def operated (form : Form) : Form :=
  if form.isValue then .value else .command

end Form

/-! Rules -/

abbrev Step (α : Type) := StateT Cursor (Except Fault) α

/-- The rules that other rules are built from. Those that take a token start with it. -/
structure Rules where
  /-- A bound on the number of tokens. -/
  size : Nat
  /-- Statements up to one of the given keywords or to a closing mark. They can be targets if the
  second argument says so. -/
  statements : List Keyword → Bool → Step Form
  /-- Statements behind a brace that can also open a hash; whether it does not. -/
  blockStatements : Step Bool
  /-- Statements up to the closing brace, which is read too. -/
  enclosed : Step Unit
  statement : Context → Token → Step Form
  expression : Context → Token → Step Form
  operand : Context → Token → Step Form
  primary : Context → Token → Step Form
  parameter : Context → Token → Step Unit
  /-- A pattern without commas. -/
  pattern : Context → Token → Step Unit
  /-- Patterns that commas divide. -/
  patterns : Context → Token → Step Unit
  /-- Whether what starts here is a pattern, and cannot be a value. -/
  isOnlyPattern : Token → Step Bool
  /-- Whether a pattern comes where a value can come as well. -/
  prefersPattern : Context → Token → Step Bool

abbrev Parse (α : Type) := ReaderT Rules (StateT Cursor (Except Fault)) α

def cursor : Parse Cursor :=
  fun _ cursor => .ok (cursor, cursor)

def withCursor (change : Cursor → Cursor) : Parse Unit :=
  fun _ cursor => .ok ((), change cursor)

def failWith {α : Type} (fault : Fault) : Parse α :=
  fun _ _ => .error fault

def fail {α : Type} : Parse α :=
  fun _ cursor => .error cursor.fault

/-- Whether a rule succeeds with an answer that holds. Nothing is read. -/
def foresees (rule : Parse Bool) : Parse Bool := fun rules cursor =>
  match rule rules cursor with
  | .ok (answer, _) => .ok (answer, cursor)
  | .error _ => .ok (false, cursor)

/-- A text that ends inside a rule is blamed on a place. -/
def blaming {α : Type} (position : Position) (rule : Parse α) : Parse α := fun rules cursor =>
  match rule rules cursor with
  | .error .unfinished => .error (.misplaced position.row)
  | result => result

/-- Repeats a step until it yields nothing. -/
def iterateBy {α : Type} (step : α → Parse (Option α)) : Nat → α → Parse α
  | 0, found => return found
  | fuel + 1, found => do
    match ← step found with
    | none => return found
    | some next => iterateBy step fuel next

def iterate {α : Type} (step : α → Parse (Option α)) (found : α) : Parse α := do
  iterateBy step (← read).size found

/-- Repeats a step as long as it says so. -/
def repeating (step : Parse Bool) : Parse Unit :=
  iterate (fun _ => do if ← step then return some () else return none) ()

/-! Trees -/

def take (token : Token) : Parse Unit :=
  withCursor fun cursor => cursor.pass token

def leaf (kind : Kind) (token : Token) : Parse Unit :=
  withCursor fun cursor => (cursor.pass token).push (.leaf kind token.span)

/-- A part of a literal, up to the given place. -/
def part (kind : Kind) (stop : Input) : Parse Unit :=
  withCursor fun cursor =>
    let span := stop.spanFrom cursor.input.position
    { cursor with input := stop }.push (.leaf kind span)

/-- Where a tree starts, and the parts of the tree around it. -/
structure Origin where
  start : Position
  around : List Tree
deriving Inhabited

def start (token : Token) : Parse Origin := do
  let around := (← cursor).settle
  withCursor fun _ => { around with trees := [] }
  return ⟨token.span.start, around.trees⟩

/-- Makes one tree of all that has been read since an origin. -/
def wrap (origin : Origin) (kind : Kind) : Parse Unit :=
  withCursor fun cursor =>
    { cursor with
      trees := [.branch kind ⟨origin.start, cursor.last.stop⟩ cursor.trees.reverse] }

/-- Goes back to the tree around an origin. -/
def finish (origin : Origin) : Parse Unit :=
  withCursor fun cursor => { cursor with trees := cursor.trees ++ origin.around }

/-- A tree over all that a rule reads from a token on. -/
def node {α : Type} (kind : Kind) (token : Token) (rule : Parse α) : Parse α := do
  let origin ← start token
  let answer ← rule
  wrap origin kind
  finish origin
  return answer

/-- Says what the last tree is to its parent. -/
def asRole (role : Role) : Parse Unit :=
  withCursor fun cursor =>
    match cursor.trees with
    | [] => cursor
    | tree :: rest => { cursor with trees := tree.withRole role :: rest }

end PuppetInventory.Syntax
