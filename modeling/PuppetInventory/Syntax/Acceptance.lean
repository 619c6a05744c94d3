import PuppetInventory.Syntax.Tree

/-!
Whether a tree is the tree of a valid document, and on which line it is not.
-/

namespace PuppetInventory.Syntax.Tree

mutual

def hasFault : Tree → Bool
  | .node tag children => tag.kind.isFault || anyFault children

def anyFault : List Tree → Bool
  | [] => false
  | tree :: rest => tree.hasFault || anyFault rest

end

mutual

/-- The line of the first node that tells of a fault. Trees without one are passed over. -/
def firstFault? : Tree → Option Nat
  | .node tag children =>
    if tag.kind.isFault then some tag.span.start.line
    else if anyFault children then firstFaultOf? children
    else none

def firstFaultOf? : List Tree → Option Nat
  | [] => none
  | tree :: rest => (firstFault? tree).or (firstFaultOf? rest)

end

/-- Whether a node is an `end` that closes nothing: a bare word outside the constructs that it
closes, or a statement of its own. -/
def isStrayEnd (document : Array Char) (parent : Option Kind) (tag : Tag) : Bool :=
  match tag.kind with
  | .endWord => !tag.named && !parent.any Kind.closesWithEnd
  | .identifier => tag.span.text document = "end" && parent.any Kind.holdsStatements
  | _ => false

mutual

def firstStrayEnd? (document : Array Char) (parent : Option Kind) : Tree → Option Nat
  | .node tag children =>
    if isStrayEnd document parent tag then some tag.span.start.line
    else firstStrayEndOf? document (some tag.kind) children

def firstStrayEndOf? (document : Array Char) (parent : Option Kind) : List Tree → Option Nat
  | [] => none
  | tree :: rest =>
    (firstStrayEnd? document parent tree).or (firstStrayEndOf? document parent rest)

end

/-- The line on which a tree is not the tree of a valid document. -/
def invalidLine? (document : Array Char) (tree : Tree) : Option Nat :=
  if tree.hasFault then some (tree.firstFault?.getD 1)
  else tree.firstStrayEnd? document none

end PuppetInventory.Syntax.Tree
