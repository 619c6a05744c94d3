import PuppetInventory.Syntax.Stance

/-!
Reading the next token of a document in a stance. Tokens whose meaning hangs on the blanks around
them are tried first, all others after them.
-/

namespace PuppetInventory.Syntax

/-! Blanks -/

/-- The blanks before a token. -/
structure Gap where
  input : Input
  spaced : Bool
  /-- Where the first line ends. -/
  newline : Option Position
deriving Repr, Inhabited

/-- The blanks that a token with a meaning of its own may follow; nothing if a backslash stands
there that continues no line. -/
def gap? (spaced : Bool) (newline : Option Position) : List Char → Position → Option Gap
  | c :: rest, position =>
    if c = ' ' || c = '\t' || c = '\r' then gap? true newline rest (position.after c)
    else if c = '\n' then gap? true (newline.or (some position)) rest (position.after c)
    else if c = '\\' then
      match rest with
      | '\r' :: d :: rest =>
        if isSpace d then
          gap? true newline rest (((position.after c).after '\r').after d)
        else none
      | d :: rest =>
        if isSpace d then gap? true newline rest ((position.after c).after d) else none
      | [] => none
    else some ⟨⟨c :: rest, position⟩, spaced, newline⟩
  | [], position => some ⟨⟨[], position⟩, spaced, newline⟩

/-- The place behind blanks and continued lines. -/
def afterBlanks : List Char → Position → Input
  | '\\' :: '\n' :: rest, position => afterBlanks rest ((position.after '\\').after '\n')
  | '\\' :: '\r' :: '\n' :: rest, position =>
    afterBlanks rest (((position.after '\\').after '\r').after '\n')
  | c :: rest, position =>
    if isSpace c then afterBlanks rest (position.after c) else ⟨c :: rest, position⟩
  | [], position => ⟨[], position⟩

/-- The line break that ends a statement before a token. A dot and an ampersand on the next line
continue the statement. -/
def Gap.lineBreak? (gap : Gap) : Option Position :=
  match gap.input.rest with
  | '.' :: '.' :: _ => gap.newline
  | '.' :: _ => none
  | '&' :: _ => none
  | '#' :: _ => none
  | _ => gap.newline

/-! Literals -/

def pairedDelimiter : Char → Char
  | '(' => ')'
  | '[' => ']'
  | '{' => '}'
  | '<' => '>'
  | c => c

/-- Whether a character behind a sign tells that the sign joins operands, where it can. -/
def partsOperands (c : Char) : Bool :=
  c = ' ' || c = '\t' || c = '\n' || c = '\r' || c = '='

/-- Whether a character delimits a literal. Where an operator can stand, blanks and equals signs do
not. -/
def isDelimiter (stance : Stance) (c : Char) : Bool :=
  if partsOperands c then !stance.joint
  else c.toNat > 32 && c.toNat < 127 && !c.isAlphanum

/-- The form that a percent sign and the letter behind it select, and the length of both. -/
def percentForm : Option Char → LiteralKind × Bool × Nat
  | some 's' => (.symbol, false, 2)
  | some 'r' => (.regularExpression, true, 2)
  | some 'x' => (.subshell, true, 2)
  | some 'q' => (.text, false, 2)
  | some 'Q' => (.text, true, 2)
  | some 'w' => (.words, false, 2)
  | some 'W' => (.words, true, 2)
  | some 'i' => (.symbols, false, 2)
  | some 'I' => (.symbols, true, 2)
  | _ => (.text, true, 1)

def Stance.takesLiteral (stance : Stance) : LiteralKind → Bool
  | .text => stance.takesText
  | .subshell => stance.operand
  | _ => stance.operand || stance.pattern

def percentLiteral? (stance : Stance) (input : Input) : Option (Lexeme × Input) :=
  let (kind, interpolates, length) := percentForm input.second?
  let opened := input.skip length
  match opened.next? with
  | none => none
  | some c =>
    if stance.takesLiteral kind && isDelimiter stance c then
      some (.literal ⟨kind, c, pairedDelimiter c, interpolates⟩, opened.step)
    else none

def startsExpression (stance : Stance) (spaced : Bool) (following : Option Char) : Bool :=
  stance.takesLiteral .regularExpression &&
    (!stance.joint || (spaced && !following.any partsOperands))

/-- The literal that starts here, and the place behind its opening. -/
def literal? (stance : Stance) (spaced : Bool) (input : Input) : Option (Lexeme × Input) :=
  match input.rest with
  | '\'' :: _ => some (.literal ⟨.text, '\'', '\'', false⟩, input.step)
  | '"' :: _ => some (.literal ⟨.text, '"', '"', true⟩, input.step)
  | '`' :: _ =>
    if stance.operand then some (.literal ⟨.subshell, '`', '`', true⟩, input.step) else none
  | '/' :: rest =>
    if startsExpression stance spaced rest.head? then
      some (.literal ⟨.regularExpression, '/', '/', true⟩, input.step)
    else none
  | '%' :: _ => percentLiteral? stance input
  | '<' :: '<' :: _ =>
    (Heredoc.announced? (input.skip 2)).map fun (heredoc, stop) =>
      (if stance.operand then .heredoc heredoc else .stray, stop)
  | _ => none

def symbol? (input : Input) : Option (Lexeme × Input) :=
  match input.rest with
  | ':' :: '"' :: _ => some (.literal ⟨.symbol, '"', '"', true⟩, input.skip 2)
  | ':' :: '\'' :: _ => some (.literal ⟨.symbol, '\'', '\'', false⟩, input.skip 2)
  | _ => input.step.afterSymbolName?.map fun stop => (.symbol, stop)

/-! Marks with a meaning of their own -/

/-- The meaning of a mark that joins operands when blanks are around it or none, and that starts an
argument when they are only before it. -/
def sidedMark? (joint argument spaced : Bool) (following : Option Char) (mark : Mark) :
    Option Mark :=
  if joint && !spaced then some .operator
  else if argument && !following.any isSpace then some mark
  else if joint then some .operator
  else if argument then some mark
  else none

/-- The meaning of the stars that start here, and their number. -/
def star? (stance : Stance) (spaced : Bool) : List Char → Option (Mark × Nat)
  | '*' :: '*' :: '=' :: _ => none
  | '*' :: '*' :: rest =>
    (sidedMark? stance.joint stance.hashSplat spaced rest.head? .hashSplat).map (·, 2)
  | '*' :: '=' :: _ => none
  | '*' :: rest => (sidedMark? stance.joint stance.splat spaced rest.head? .splat).map (·, 1)
  | _ => none

/-- The meaning of a minus sign that `following` comes behind. -/
def minus? (stance : Stance) (spaced : Bool) (following : Option Char) : Option Mark :=
  if following = some '=' || following = some '>' then none
  else if stance.takesNumber && (!stance.joint || spaced) && following.any Char.isDigit then
    some .unaryMinus
  else if stance.operand && spaced && !following.any isSpace then some .unaryMinus
  else if stance.joint then some .operator
  else if stance.operand then some .unaryMinus
  else none

def blockAmpersand? (following : Option Char) : Option Mark :=
  if following.any fun c => c = '&' || c = '.' || c = '=' || isSpace c then none
  else some .blockAmpersand

/-- The key or the word with a final mark that starts here. -/
def keyOrMarkedWord? (stance : Stance) (input : Input) : Option (Lexeme × Input) :=
  let word := input.rest.takeWhile isPlainWordChar
  let stop := input.skip word.length
  match stop.rest with
  | ':' :: rest => if stance.key && rest.head? ≠ some ':' then some (.key, stop) else none
  | '!' :: rest =>
    if stance.takesMarkedWord && rest.head? ≠ some '=' then some (.markedWord, stop.step) else none
  | '?' :: _ =>
    if stance.takesMarkedWord && word ≠ ['d', 'e', 'f', 'i', 'n', 'e', 'd'] then
      some (.markedWord, stop.step)
    else none
  | _ => none

/-- A token whose meaning hangs on the stance and on the blanks around it. -/
def contextual? (stance : Stance) (gap : Gap) : Option (Lexeme × Input) :=
  let input := gap.input
  let marked := fun (found : Option Mark) (length : Nat) =>
    found.map fun mark => (Lexeme.mark mark, input.skip length)
  match input.rest with
  | '&' :: rest =>
    if stance.blockAmpersand then
      if stance.lineBreak && gap.newline.isSome then
        (blockAmpersand? rest.head?).map fun _ => (.stray, input.step)
      else marked (blockAmpersand? rest.head?) 1
    else none
  | '*' :: rest => (star? stance gap.spaced ('*' :: rest)).bind fun (mark, length) =>
    marked (some mark) length
  | '-' :: rest => marked (minus? stance gap.spaced rest.head?) 1
  | ':' :: _ => if stance.takesSymbol then symbol? input else none
  | '[' :: _ =>
    if stance.index && (!gap.spaced || !stance.takesText) then marked (some .openIndex) 1 else none
  | '<' :: rest =>
    if stance.classOf then
      if rest.head? = some '<' then marked (some .classOf) 2 else none
    else if stance.takesText then literal? stance gap.spaced input
    else none
  | c :: _ =>
    if (stance.takesMarkedWord || stance.key) && (c.isAlpha || c = '_') then
      keyOrMarkedWord? stance input
    else if stance.takesText then literal? stance gap.spaced input
    else none
  | [] => none

/-! All other tokens -/

/-- The assignment by an operator that starts here, and its length. -/
def operatorAssign? : List Char → Option (Mark × Nat)
  | '&' :: '&' :: '=' :: _ => some (.operatorAssign, 3)
  | '&' :: '=' :: _ => some (.operatorAssign, 2)
  | '|' :: '|' :: '=' :: _ => some (.operatorAssign, 3)
  | '|' :: '=' :: _ => some (.operatorAssign, 2)
  | '^' :: '=' :: _ => some (.operatorAssign, 2)
  | '<' :: '<' :: '=' :: _ => some (.operatorAssign, 3)
  | '>' :: '>' :: '=' :: _ => some (.operatorAssign, 3)
  | '*' :: '*' :: '=' :: _ => some (.operatorAssign, 3)
  | '*' :: '=' :: _ => some (.operatorAssign, 2)
  | '+' :: '=' :: _ => some (.operatorAssign, 2)
  | '-' :: '=' :: _ => some (.operatorAssign, 2)
  | '/' :: '=' :: _ => some (.operatorAssign, 2)
  | '%' :: '=' :: _ => some (.operatorAssign, 2)
  | _ => none

/-- The operator that starts here between operands, and its length. -/
def jointMark? : List Char → Option (Mark × Nat)
  | '&' :: '&' :: _ => some (.operator, 2)
  | '|' :: '|' :: _ => some (.operator, 2)
  | '=' :: '=' :: '=' :: _ => some (.operator, 3)
  | '=' :: '=' :: _ => some (.operator, 2)
  | '=' :: '~' :: _ => some (.operator, 2)
  | '!' :: '=' :: _ => some (.operator, 2)
  | '!' :: '~' :: _ => some (.operator, 2)
  | '<' :: '=' :: '>' :: _ => some (.operator, 3)
  | '<' :: '<' :: _ => some (.operator, 2)
  | '<' :: '=' :: _ => some (.operator, 2)
  | '>' :: '>' :: _ => some (.operator, 2)
  | '>' :: '=' :: _ => some (.operator, 2)
  | '>' :: _ => some (.operator, 1)
  | '/' :: _ => some (.operator, 1)
  | '%' :: _ => some (.operator, 1)
  | _ => none

/-- The mark that starts here in a stance, and its length. -/
def mark? (stance : Stance) (spaced : Bool) : List Char → Option (Mark × Nat)
  | '(' :: _ => some (.openParen, 1)
  | ')' :: _ => some (.closeParen, 1)
  | '[' :: _ => some (.openBracket, 1)
  | ']' :: _ => some (.closeBracket, 1)
  | '{' :: _ => some (.openBrace, 1)
  | '}' :: _ => some (.closeBrace, 1)
  | ',' :: _ => some (.comma, 1)
  | ';' :: _ => some (.semicolon, 1)
  | '.' :: '.' :: '.' :: _ => some (.ellipsis, 3)
  | '.' :: '.' :: _ => some (.range, 2)
  | '.' :: _ => some (.dot, 1)
  | '&' :: '.' :: _ => some (.safeDot, 2)
  | '&' :: _ => some (.ampersand, 1)
  | ':' :: ':' :: _ =>
    if stance.colon && (spaced || stance.word) then some (.colon, 1) else some (.scope, 2)
  | ':' :: _ => some (.colon, 1)
  | '?' :: _ => some (.question, 1)
  | '=' :: '>' :: _ => if stance.name then some (.assign, 1) else some (.arrow, 2)
  | '=' :: _ => some (.assign, 1)
  | '-' :: '>' :: _ => if stance.takesNumber then some (.lambda, 2) else none
  | '|' :: _ => some (.pipe, 1)
  | '^' :: _ => some (.caret, 1)
  | '<' :: _ => some (.less, 1)
  | '+' :: _ => some (.plus, 1)
  | '*' :: '*' :: _ => some (.doubleStar, 2)
  | '*' :: _ => some (.star, 1)
  | '!' :: _ => if stance.operand then some (.bang, 1) else none
  | '~' :: _ => if stance.operand then some (.tilde, 1) else none
  | _ => none

/-- The word that starts here, or the keyword that it spells. -/
def wordAt (stance : Stance) (input : Input) : Lexeme × Input :=
  if stance.operand && input.startsWith Keyword.defined.spelling.toList then
    (.keyword .defined, input.skip 8)
  else
    let word := input.rest.takeWhile isWordChar
    let stop := input.skip word.length
    match (Keyword.ofWord? word).filter stance.takesKeyword with
    | some keyword => (.keyword keyword, stop)
    | none => (if word.head?.any Char.isUpper then .constant else .word, stop)

/-- The longest of the keywords that start here. -/
def keywordAt? (words : List Keyword) (input : Input) : Option (Lexeme × Input) :=
  let found := words.filter fun keyword => input.startsWith keyword.spelling.toList
  let longest := found.foldl (fun best keyword =>
    match best with
    | none => some keyword
    | some other =>
      if other.spelling.length < keyword.spelling.length then some keyword else some other) none
  longest.map fun keyword => (.keyword keyword, input.skip keyword.spelling.length)

def markAt? (stance : Stance) (spaced : Bool) (input : Input) : Option (Lexeme × Input) :=
  let assigns := if stance.joint && stance.assign then operatorAssign? input.rest else none
  let joint := if stance.joint then jointMark? input.rest else none
  (assigns.or (joint.or (mark? stance spaced input.rest))).map fun (mark, length) =>
    (.mark mark, input.skip length)

/-- A token whose meaning does not hang on the blanks around it. -/
def plain? (stance : Stance) (spaced : Bool) (input : Input) : Option (Lexeme × Input) :=
  match input.rest with
  | [] => some (.finish, input)
  | ['\\'] => some (.finish, input.step)
  | ['\\', '\r'] => some (.finish, input.skip 2)
  | c :: rest =>
    if c.isDigit then
      if stance.takesNumber then some (.number, input.afterNumber) else none
    else if c = '@' || c = '$' then
      if stance.takesWord then input.afterVariable?.map fun stop => (.variable, stop) else none
    else if isWordChar c then
      if stance.takesWord then some (wordAt stance input) else keywordAt? stance.words input
    else if stance.name && operatorLength (c :: rest) > 0 then
      some (.operatorName, input.skip (operatorLength (c :: rest)))
    else
      match if stance.takesNumber then input.afterCharacter? else none with
      | some stop => some (.character, stop)
      | none => markAt? stance spaced input

def Stance.token (stance : Stance) (input : Input) : Token :=
  let blanks := gap? false none input.rest input.position
  match blanks.bind fun gap => if stance.lineBreak then gap.lineBreak? else none with
  | some stop =>
    { lexeme := .lineBreak
      span := ⟨stop, stop⟩
      spaced := false
      next := input.skip (stop.offset - input.position.offset) }
  | none =>
    match blanks.bind fun gap => (contextual? stance gap).map fun found => (gap, found) with
    | some (gap, lexeme, stop) =>
      { lexeme := lexeme
        span := stop.spanFrom gap.input.position
        spaced := gap.spaced
        next := stop }
    | none =>
      let start := afterBlanks input.rest input.position
      let spaced := decide (input.position.offset < start.position.offset)
      match plain? stance spaced start with
      | some (lexeme, stop) =>
        { lexeme := lexeme
          span := stop.spanFrom start.position
          spaced := spaced
          next := stop }
      | none =>
        { lexeme := .stray
          span := ⟨start.position, start.position⟩
          spaced := spaced
          next := start }

/-! Comments -/

/-- The length of a comment that lines with `=begin` and `=end` enclose, behind its first line. -/
def enclosedLength (passed : Nat) : List Char → Option Nat
  | '=' :: 'e' :: 'n' :: 'd' :: rest => some (passed + 4 + (rest.takeWhile (· ≠ '\n')).length)
  | '=' :: 'e' :: 'n' :: _ :: rest => enclosedLength (passed + 4) rest
  | '=' :: 'e' :: c :: rest =>
    if c = 'n' then none else enclosedLength (passed + 3) rest
  | '=' :: c :: rest => if c = 'e' then none else enclosedLength (passed + 2) rest
  | '=' :: [] => none
  | _ :: rest => enclosedLength (passed + 1) rest
  | [] => none

def Input.afterComment? (stance : Stance) (input : Input) : Option Input :=
  match input.rest with
  | '#' :: _ => some (input.skipWhile fun c => c ≠ '\n' && c.toNat ≠ 0)
  | '=' :: 'b' :: 'e' :: 'g' :: 'i' :: 'n' :: rest =>
    if stance.assign then none
    else
      let line := (rest.takeWhile (· ≠ '\n')).length
      match rest.drop line with
      | [] => none
      | _ :: rest =>
        (enclosedLength 0 rest).map fun length => input.skip (6 + line + 1 + length)
  | _ => none

end PuppetInventory.Syntax
