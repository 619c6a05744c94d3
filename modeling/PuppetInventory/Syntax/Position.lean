/-!
Places in a document, and what is left of it from a place on.
-/

namespace PuppetInventory.Syntax

/-- The characters and the line breaks before a place. -/
structure Position where
  offset : Nat
  row : Nat
deriving Repr, DecidableEq, Inhabited

namespace Position

def start : Position where
  offset := 0
  row := 0

def after (position : Position) (c : Char) : Position where
  offset := position.offset + 1
  row := if c = '\n' then position.row + 1 else position.row

/-- The line of a place, from one. -/
def line (position : Position) : Nat :=
  position.row + 1

end Position

/-- The part of a document from `start` up to `stop`. -/
structure Span where
  start : Position
  stop : Position
deriving Repr, DecidableEq, Inhabited

namespace Span

def isEmpty (span : Span) : Bool :=
  span.stop.offset ≤ span.start.offset

def chars (span : Span) (document : Array Char) : List Char :=
  (document.extract span.start.offset span.stop.offset).toList

def text (span : Span) (document : Array Char) : String :=
  String.ofList (span.chars document)

end Span

/-- A place together with all that follows it. -/
structure Input where
  rest : List Char
  position : Position
deriving Repr, Inhabited

namespace Input

def ofDocument (document : List Char) : Input where
  rest := document
  position := .start

def step (input : Input) : Input :=
  match input.rest with
  | [] => input
  | c :: rest => ⟨rest, input.position.after c⟩

def skip : Nat → Input → Input
  | 0, input => input
  | count + 1, input => skip count input.step

def skipWhile (passed : Char → Bool) (input : Input) : Input :=
  skip (input.rest.takeWhile passed).length input

def next? (input : Input) : Option Char :=
  input.rest.head?

def second? (input : Input) : Option Char :=
  input.rest[1]?

def startsWith (input : Input) (word : List Char) : Bool :=
  word.isPrefixOf input.rest

/-- The span from an earlier place up to this one. -/
def spanFrom (input : Input) (start : Position) : Span where
  start := start
  stop := input.position

end Input

end PuppetInventory.Syntax
