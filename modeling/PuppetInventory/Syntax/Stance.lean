import PuppetInventory.Syntax.Token

/-!
What can come next in a document. The same characters are different tokens in different stances:
behind a name `-1` is an argument, and behind a number it is a subtraction.
-/

namespace PuppetInventory.Syntax

structure Stance where
  operand : Bool := false
  /-- Whether a word with a colon is a key. -/
  key : Bool := false
  /-- Whether a star can pass a list on. -/
  splat : Bool := false
  /-- Whether two stars can pass a hash on. -/
  hashSplat : Bool := false
  /-- Whether an ampersand can pass a block on. -/
  blockAmpersand : Bool := false
  /-- Whether an operator between operands can come. -/
  joint : Bool := false
  index : Bool := false
  /-- Whether a text literal can continue the one before. -/
  text : Bool := false
  pattern : Bool := false
  name : Bool := false
  word : Bool := false
  /-- Whether the object of a singleton class can be announced. -/
  classOf : Bool := false
  /-- Whether a single colon can come where two colons cannot. -/
  colon : Bool := false
  assign : Bool := false
  lineBreak : Bool := false
  /-- The keywords that can come, other than those that start an operand. -/
  words : List Keyword := []
deriving Repr, DecidableEq, Inhabited

namespace Stance

def takesText (stance : Stance) : Bool :=
  stance.operand || stance.text || stance.pattern || stance.key

def takesWord (stance : Stance) : Bool :=
  stance.operand || stance.pattern || stance.name || stance.word || stance.key

/-- Whether a question or exclamation mark can end a word. -/
def takesMarkedWord (stance : Stance) : Bool :=
  stance.operand || stance.name || stance.key

def takesSymbol (stance : Stance) : Bool :=
  stance.operand || stance.pattern || stance.name

def takesNumber (stance : Stance) : Bool :=
  stance.operand || stance.pattern

def takesKeyword (stance : Stance) (keyword : Keyword) : Bool :=
  (stance.operand && keyword.startsOperand) || stance.words.contains keyword

/-! Where something has to come -/

/-- An operand has to come; the given keywords can come instead. -/
def value (words : List Keyword) : Stance where
  operand := true
  words := words

/-- A value or a list has to come. -/
def values (words : List Keyword) : Stance :=
  { value words with splat := true }

/-- A target of an assignment has to come, or what ends the targets. -/
def target : Stance :=
  { value [.in] with assign := true }

def argument (words : List Keyword) : Stance :=
  { values words with key := true, hashSplat := true, blockAmpersand := true }

def hashItem (words : List Keyword) : Stance :=
  { value words with key := true, hashSplat := true }

/-- A statement can come; the given keywords close the list of statements. -/
def statement (closers : List Keyword) : Stance :=
  value (Keyword.statementWords ++ closers)

def methodName : Stance where
  name := true

def plainName : Stance where
  word := true

def shape (words : List Keyword) : Stance where
  pattern := true
  words := [.nil, .self, .truth, .falsehood] ++ words

/-- Everything that can be told apart. -/
def anything : Stance where
  operand := true
  joint := true
  index := true

end Stance

end PuppetInventory.Syntax
