import PuppetInventory.Syntax.Acceptance
import PuppetInventory.Syntax.Grammar.Statements
import PuppetInventory.Syntax.Lowering

/-!
Reading whole documents: the tree of a text, and the calls of a text whose tree is valid. Nothing is
recovered behind the first fault of a text: its tree ends with one leaf for that fault. Every text
has a tree, so that a reader that cannot be set up, or that gives up, has no counterpart here.
-/

namespace PuppetInventory.Syntax

/-- A parser gives each text a tree. Of bare words its trees hold those that close constructs. -/
abbrev Parser := List Char → Tree

namespace Document

/-- A byte order mark before the text is passed over. -/
def textStart (document : List Char) : Input :=
  let input := Input.ofDocument document
  match document with
  | c :: _ => if c.toNat = 0xFEFF then input.step else input
  | [] => input

/-- The node that tells of a fault in the statement that starts at a place. -/
def faultTree (position : Position) : Fault → Tree
  | .misplaced row =>
    let position := { position with row := row }
    .leaf .error ⟨position, position⟩
  | .unfinished => .leaf .missing ⟨position, position⟩

/-- The words that end the statements of a document. -/
def closers : List Keyword := [.dataMark]

/-- The trees of the statements from the cursor on, up to the end or to the first that does not
read. -/
def statementTrees (rules : Rules) : Nat → Cursor → List Tree
  | 0, cursor => [faultTree cursor.input.position .unfinished]
  | fuel + 1, cursor =>
    let cursor := { cursor with trees := [] }
    match Grammar.peek (.statement closers) rules cursor with
    | .error fault => [faultTree cursor.input.position fault]
    | .ok (token, next) =>
      match Grammar.statementStep closers rules next with
      | .error fault => [faultTree token.span.start fault]
      | .ok (true, next) => next.trees.reverse ++ statementTrees rules fuel next
      | .ok (false, next) => ending next
where
  ending (cursor : Cursor) : List Tree :=
    match Grammar.peek { words := closers } rules cursor with
    | .error fault => [faultTree cursor.input.position fault]
    | .ok (token, next) =>
      match token.lexeme with
      | .finish => next.settle.trees.reverse
      | .keyword .dataMark => next.settle.trees.reverse
      | _ => [faultTree token.span.start next.fault]

/-- How deeply the rules can nest in a text. -/
def nesting (document : List Char) : Nat :=
  8 * document.length + 16

def tree (document : List Char) : Tree :=
  let size := document.length + 2
  let input := textStart document
  let rules := grammar size (nesting document)
  .branch .program ⟨input.position, (input.skip document.length).position⟩
    (statementTrees rules size (.ofInput input))

/-- The calls of a text that a parser gives a tree, or the line on which it is invalid. -/
def callsBy (parser : Parser) (text : String) : Except Nat (List Call) :=
  let document := text.toList
  let found := parser document
  match found.invalidLine? document.toArray with
  | some line => .error line
  | none => .ok (found.callsBelow document.toArray)

def calls (text : String) : Except Nat (List Call) :=
  callsBy tree text

end Document

end PuppetInventory.Syntax
