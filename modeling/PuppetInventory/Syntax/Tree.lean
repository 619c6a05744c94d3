import PuppetInventory.Syntax.Position

/-!
Concrete trees of documents. A node covers a span of the text; its children come in the order of
the text.
-/

namespace PuppetInventory.Syntax

inductive Kind where
  | program
  /-- Text that fits nowhere. -/
  | error
  /-- The place of something that the text should still hold. -/
  | missing
  | comment
  | identifier
  | constant
  | variable
  | selfReference
  | superReference
  | absent
  | truth
  | falsehood
  | number
  | character
  | string
  | chainedString
  | simpleSymbol
  | delimitedSymbol
  | regularExpression
  | subshell
  | wordArray
  | symbolArray
  | stringContent
  | escapeSequence
  | interpolation
  | heredocBeginning
  | heredocBody
  | hashKeySymbol
  | pair
  | hash
  | array
  | call
  | argumentList
  | splat
  | hashSplat
  | blockArgument
  | forwardedArguments
  | block
  | blockBody
  | doBlock
  | parameters
  | parameter
  | destructuring
  | lambda
  | bodyStatement
  | parenthesizedStatements
  | thenBody
  | elseBody
  | elsifBranch
  | conditional
  | unlessConditional
  | whileLoop
  | untilLoop
  | forLoop
  | doBody
  | caseSelection
  | caseMatch
  | whenClause
  | inClause
  | pattern
  | beginBody
  | rescueClause
  | ensureClause
  | method
  | singletonMethod
  | classBody
  | singletonClass
  | superclass
  | moduleBody
  | modifier
  | unary
  | binary
  | range
  | ternary
  | assignment
  | assignmentList
  | scopeResolution
  | elementReference
  | yieldCall
  | jump
  | aliasStatement
  | undefStatement
  | hookBlock
  /-- The word that closes a construct. -/
  | endWord
deriving Repr, DecidableEq, Inhabited

namespace Kind

/-- Whether a node of this kind tells that the text around it does not read. -/
def isFault : Kind → Bool
  | .error => true
  | .missing => true
  | _ => false

/-- The constructs that the word `end` closes. -/
def closesWithEnd : Kind → Bool
  | .doBlock => true
  | .doBody => true
  | .method => true
  | .singletonMethod => true
  | .classBody => true
  | .singletonClass => true
  | .moduleBody => true
  | .conditional => true
  | .unlessConditional => true
  | .whileLoop => true
  | .untilLoop => true
  | .forLoop => true
  | .caseSelection => true
  | .caseMatch => true
  | .beginBody => true
  | _ => false

/-- The nodes whose children are statements. -/
def holdsStatements : Kind → Bool
  | .program => true
  | .bodyStatement => true
  | .blockBody => true
  | .thenBody => true
  | .elseBody => true
  | .parenthesizedStatements => true
  | _ => false

end Kind

/-- What a node is to its parent. -/
inductive Role where
  | child
  | receiver
  | method
  | arguments
  | block
  | key
  | value
deriving Repr, DecidableEq, Inhabited

structure Tag where
  kind : Kind
  role : Role
  /-- Whether the node stands for a part of the grammar, not for a bare word. -/
  named : Bool
  span : Span
deriving Repr, DecidableEq, Inhabited

inductive Tree where
  | node (tag : Tag) (children : List Tree)
deriving Repr, Inhabited

namespace Tree

def tag : Tree → Tag
  | .node tag _ => tag

def children : Tree → List Tree
  | .node _ children => children

def kind (tree : Tree) : Kind :=
  tree.tag.kind

def span (tree : Tree) : Span :=
  tree.tag.span

/-- The line on which a node starts, from one. -/
def line (tree : Tree) : Nat :=
  tree.span.start.line

def text (document : Array Char) (tree : Tree) : String :=
  tree.span.text document

def leaf (kind : Kind) (span : Span) : Tree :=
  .node ⟨kind, .child, true, span⟩ []

def branch (kind : Kind) (span : Span) (children : List Tree) : Tree :=
  .node ⟨kind, .child, true, span⟩ children

/-- The word `end` as part of the construct that it closes. -/
def endLeaf (span : Span) : Tree :=
  .node ⟨.endWord, .child, false, span⟩ []

def withRole (role : Role) : Tree → Tree
  | .node tag children => .node { tag with role := role } children

/-- The first child that plays a role. -/
def child? (tree : Tree) (role : Role) : Option Tree :=
  tree.children.find? fun child => child.tag.role = role

def namedChildren (tree : Tree) : List Tree :=
  tree.children.filter fun child => child.tag.named

end Tree

end PuppetInventory.Syntax
