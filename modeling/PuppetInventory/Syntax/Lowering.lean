import PuppetInventory.Call
import PuppetInventory.Syntax.Tree

/-!
The calls of a tree and the values of their arguments.
-/

namespace PuppetInventory.Syntax

/-! Literals -/

/-- The characters of an escape between double quotes. Unknown ones stand for themselves. -/
def unescape (sequence : List Char) : List Char :=
  match sequence with
  | ['\\', 'n'] => ['\n']
  | ['\\', 't'] => ['\t']
  | ['\\', 'r'] => ['\r']
  | ['\\', '0'] => [Char.ofNat 0]
  | '\\' :: rest => rest
  | _ => sequence

/-- Between single quotes, a backslash escapes itself and the quote, and nothing else. -/
def unescapeSingle : List Char → List Char
  | '\\' :: '\\' :: rest => '\\' :: unescapeSingle rest
  | '\\' :: '\'' :: rest => '\'' :: unescapeSingle rest
  | '\\' :: c :: rest => '\\' :: c :: unescapeSingle rest
  | c :: rest => c :: unescapeSingle rest
  | [] => []

namespace Tree

/-- The characters that a part of a literal stands for; interpolations have none. -/
def pieceChars? (document : Array Char) (tree : Tree) : Option (List Char) :=
  match tree.kind with
  | .stringContent => some (tree.span.chars document)
  | .escapeSequence => some (unescape (tree.span.chars document))
  | _ => none

/-- The text of a literal without interpolations. -/
def literalChars? (document : Array Char) (tree : Tree) : Option (List Char) :=
  let content := (tree.namedChildren.mapM (pieceChars? document)).map List.flatten
  match tree.span.chars document with
  | '\'' :: _ => content.map unescapeSingle
  | _ => content

def literalText? (document : Array Char) (tree : Tree) : Option String :=
  (literalChars? document tree).map String.ofList

/-- The text of literals that follow each other. -/
def chainedText? (document : Array Char) (tree : Tree) : Option String :=
  let parts := tree.namedChildren.mapM fun part =>
    if part.kind = .string then literalChars? document part else none
  parts.map fun parts => String.ofList parts.flatten

def symbolName (document : Array Char) (tree : Tree) : String :=
  String.ofList ((tree.span.chars document).dropWhile (· = ':'))

/-- The key of a pair; one with interpolations has none. -/
def keyText? (document : Array Char) (key : Tree) : Option String :=
  match key.kind with
  | .simpleSymbol => some (symbolName document key)
  | .string => literalText? document key
  | .delimitedSymbol => literalText? document key
  | _ => some (key.text document)

/-- The value of a literal that holds no other values. -/
def plainValue (document : Array Char) (tree : Tree) : Value :=
  let source := Value.source (tree.text document)
  match tree.kind with
  | .string => ((literalText? document tree).map Value.text).getD source
  | .simpleSymbol => .symbol (symbolName document tree)
  | .delimitedSymbol => ((literalText? document tree).map Value.symbol).getD source
  | .chainedString => ((chainedText? document tree).map Value.text).getD source
  | .absent => .absent
  | _ => source

mutual

def value (document : Array Char) : Tree → Value
  | .node tag children =>
    match tag.kind with
    | .hash => .hash (pairs document children)
    | .array => .list (itemValues document children)
    | _ => plainValue document (.node tag children)

/-- The values of all named trees but comments. -/
def itemValues (document : Array Char) : List Tree → List Value
  | [] => []
  | .node tag children :: rest =>
    if tag.named && tag.kind ≠ .comment then
      value document (.node tag children) :: itemValues document rest
    else itemValues document rest

def pairs (document : Array Char) : List Tree → List (String × Value)
  | [] => []
  | .node tag children :: rest =>
    if tag.named && tag.kind = .pair then
      (pair? document (.node tag children)).toList ++ pairs document rest
    else pairs document rest

def pair? (document : Array Char) : Tree → Option (String × Value)
  | .node tag children =>
    match (child? (.node tag children) .key).bind (keyText? document),
      pairValue? document children with
    | some key, some value => some (key, value)
    | _, _ => none

/-- The value of the first tree that is a pair's value. -/
def pairValue? (document : Array Char) : List Tree → Option Value
  | [] => none
  | .node tag children :: rest =>
    if tag.role = .value then some (value document (.node tag children))
    else pairValue? document rest

end

/-- The arguments of an argument list. Its pairs form one last hash. -/
def argumentValues (document : Array Char) (list : Tree) : List Value :=
  let positional := list.namedChildren.filter fun child =>
    child.kind ≠ .comment && child.kind ≠ .pair
  let options := pairs document list.children
  positional.map (value document) ++ if options.isEmpty then [] else [.hash options]

/-- The name of the method that a node calls without a receiver. -/
def calledMethod? (tree : Tree) : Option Tree :=
  if tree.kind = .call && (tree.child? .receiver).isNone then tree.child? .method else none

mutual

/-- The outermost calls in a named tree, the tree itself included. -/
def calls (document : Array Char) : Tree → List Call
  | .node tag children =>
    if tag.named then
      match calledMethod? (.node tag children) with
      | some method =>
        [{ name := method.text document
           arguments :=
            ((child? (.node tag children) .arguments).map (argumentValues document)).getD []
           line := tag.span.start.line
           children := callsOfAll document children }]
      | none => callsOfAll document children
    else []

def callsOfAll (document : Array Char) : List Tree → List Call
  | [] => []
  | tree :: rest => calls document tree ++ callsOfAll document rest

end

def callsBelow (document : Array Char) (tree : Tree) : List Call :=
  callsOfAll document tree.children

end Tree

end PuppetInventory.Syntax
