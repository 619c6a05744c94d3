import PuppetInventory.Syntax.Literal

/-!
The tokens of a document: what each is, where it stands, and where the text goes on behind it.
-/

namespace PuppetInventory.Syntax

inductive Keyword where
  | alias
  | and
  | begin
  | beginHook
  | break
  | case
  | classDefinition
  /-- The word that ends the statements of a document. -/
  | dataMark
  | definition
  | defined
  | do
  | else
  | elsif
  | end
  | endHook
  | ensure
  | falsehood
  | for
  | if
  | in
  | moduleDefinition
  | next
  | nil
  | not
  | or
  | redo
  | rescue
  | retry
  | return
  | self
  | super
  | then
  | truth
  | undef
  | unless
  | until
  | when
  | while
  | yield
deriving Repr, DecidableEq, Inhabited

namespace Keyword

def spelling : Keyword → String
  | .alias => "alias"
  | .and => "and"
  | .begin => "begin"
  | .beginHook => "BEGIN"
  | .break => "break"
  | .case => "case"
  | .classDefinition => "class"
  | .dataMark => "__END__"
  | .definition => "def"
  | .defined => "defined?"
  | .do => "do"
  | .else => "else"
  | .elsif => "elsif"
  | .end => "end"
  | .endHook => "END"
  | .ensure => "ensure"
  | .falsehood => "false"
  | .for => "for"
  | .if => "if"
  | .in => "in"
  | .moduleDefinition => "module"
  | .next => "next"
  | .nil => "nil"
  | .not => "not"
  | .or => "or"
  | .redo => "redo"
  | .rescue => "rescue"
  | .retry => "retry"
  | .return => "return"
  | .self => "self"
  | .super => "super"
  | .then => "then"
  | .truth => "true"
  | .undef => "undef"
  | .unless => "unless"
  | .until => "until"
  | .when => "when"
  | .while => "while"
  | .yield => "yield"

def all : List Keyword :=
  [.alias, .and, .begin, .beginHook, .break, .case, .classDefinition, .dataMark, .definition,
    .defined, .do, .else, .elsif, .end, .endHook, .ensure, .falsehood, .for, .if, .in,
    .moduleDefinition, .next, .nil, .not, .or, .redo, .rescue, .retry, .return, .self, .super,
    .then, .truth, .undef, .unless, .until, .when, .while, .yield]

def ofWord? (word : List Char) : Option Keyword :=
  all.find? fun keyword => keyword.spelling.toList = word

def startsOperand : Keyword → Bool
  | .begin => true
  | .break => true
  | .case => true
  | .classDefinition => true
  | .definition => true
  | .defined => true
  | .falsehood => true
  | .for => true
  | .if => true
  | .moduleDefinition => true
  | .next => true
  | .nil => true
  | .not => true
  | .redo => true
  | .retry => true
  | .return => true
  | .self => true
  | .super => true
  | .truth => true
  | .unless => true
  | .until => true
  | .while => true
  | .yield => true
  | _ => false

def modifiers : List Keyword := [.if, .unless, .while, .until, .rescue]

/-- The keywords of the statements that are no expressions. -/
def statementWords : List Keyword := [.alias, .undef, .beginHook, .endHook]

end Keyword

/-- Punctuation. Marks that are spelled alike and differ in meaning are told apart. -/
inductive Mark where
  | openParen
  | closeParen
  | openBracket
  /-- The bracket of an index, which follows what it selects from. -/
  | openIndex
  | closeBracket
  | openBrace
  | closeBrace
  | comma
  | semicolon
  | dot
  | safeDot
  | scope
  | colon
  | question
  | arrow
  | lambda
  | range
  /-- Three dots. -/
  | ellipsis
  | pipe
  | assign
  | operatorAssign
  | bang
  | tilde
  | plus
  | unaryMinus
  /-- A star that passes a list on as arguments. -/
  | splat
  | hashSplat
  | blockAmpersand
  | star
  | doubleStar
  | ampersand
  | caret
  | less
  /-- The two angle brackets behind the word that starts a class. -/
  | classOf
  /-- Any other operator between two operands. -/
  | operator
deriving Repr, DecidableEq, Inhabited

namespace Mark

/-- Whether a mark stands between two operands. -/
def joins : Mark → Bool
  | .pipe => true
  | .plus => true
  | .ampersand => true
  | .caret => true
  | .less => true
  | .operator => true
  | _ => false

def startsOperand : Mark → Bool
  | .openParen => true
  | .openBracket => true
  | .openBrace => true
  | .lambda => true
  | .bang => true
  | .tilde => true
  | .plus => true
  | .unaryMinus => true
  | .scope => true
  | .range => true
  | .ellipsis => true
  | .star => true
  | _ => false

/-- Whether a mark can stand only between or behind expressions. -/
def isInner : Mark → Bool
  | .openParen => false
  | .openBracket => false
  | .openIndex => false
  | .openBrace => false
  | .lambda => false
  | .bang => false
  | .tilde => false
  | .unaryMinus => false
  | .splat => false
  | .hashSplat => false
  | .blockAmpersand => false
  | _ => true

end Mark

inductive Lexeme where
  | word
  /-- A word that ends with a question or exclamation mark. -/
  | markedWord
  | constant
  | variable
  | keyword (keyword : Keyword)
  /-- A word that the colon behind it makes a key. -/
  | key
  | number
  | character
  | symbol
  /-- The opening of a literal between delimiters. -/
  | literal (form : LiteralForm)
  | heredoc (heredoc : Heredoc)
  | mark (mark : Mark)
  /-- The name of an operator where a method is named. -/
  | operatorName
  | lineBreak
  /-- A character that starts no token. -/
  | stray
  | finish
deriving Repr, DecidableEq, Inhabited

structure Token where
  lexeme : Lexeme
  span : Span
  /-- Whether blanks come before the token. -/
  spaced : Bool
  next : Input
deriving Repr, Inhabited

namespace Token

def isMark (token : Token) (mark : Mark) : Bool :=
  token.lexeme = .mark mark

def isKeyword (token : Token) (keyword : Keyword) : Bool :=
  token.lexeme = .keyword keyword

def startsOperand (token : Token) : Bool :=
  match token.lexeme with
  | .word => true
  | .markedWord => true
  | .constant => true
  | .variable => true
  | .keyword keyword => keyword.startsOperand
  | .number => true
  | .character => true
  | .symbol => true
  | .literal _ => true
  | .heredoc _ => true
  | .mark mark => mark.startsOperand
  | _ => false

end Token

end PuppetInventory.Syntax
