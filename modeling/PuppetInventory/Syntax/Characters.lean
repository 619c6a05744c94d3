import PuppetInventory.Syntax.Position

/-!
Classes of characters, and the extent of words, variables, numbers, operators and symbols.
-/

namespace PuppetInventory.Syntax

/-! Classes -/

/-- Blanks inside a line. -/
def isBlank (c : Char) : Bool :=
  c = ' ' || c = '\t' || c = '\r' || c.toNat = 11 || c.toNat = 12

def isSpace (c : Char) : Bool :=
  isBlank c || c = '\n'

def wordBreaks : List Char :=
  [':', ';', '`', '"', '\'', '@', '$', '#', '.', ',', '|', '^', '&', '<', '=', '>', '+', '-', '*',
    '/', '\\', '%', '?', '!', '~', '(', ')', '[', ']', '{', '}']

def isWordChar (c : Char) : Bool :=
  c.toNat > 32 && !wordBreaks.contains c

def startsWord (c : Char) : Bool :=
  isWordChar c && !c.isDigit

/-- The characters of keys, and of names that a question or exclamation mark ends. -/
def isPlainWordChar (c : Char) : Bool :=
  c.isAlphanum || c = '_'

/-- The characters of symbols. Only the low byte of a character counts. -/
def isSymbolChar (c : Char) : Bool :=
  let low := Char.ofNat (c.toNat % 256)
  !(low.toNat = 0 || low = '\t' || low = '\n' || low = '\r' || low = ' ' ||
    wordBreaks.contains low)

def isHexDigit (c : Char) : Bool :=
  c.isDigit || ('a' ≤ c && c ≤ 'f') || ('A' ≤ c && c ≤ 'F')

def isOctalDigit (c : Char) : Bool :=
  '0' ≤ c && c ≤ '7'

/-- The marks that may follow the dollar sign of a variable. -/
def isVariableMark (c : Char) : Bool :=
  ['!', '@', '&', '`', '\'', '+', '~', '=', '/', '\\', ',', ';', '.', '<', '>', '*', '$', '?', ':',
    '"'].contains c

/-! Numbers -/

/-- The length of a run of digits that single underscores may divide. -/
def digitRun (digit : Char → Bool) : List Char → Nat
  | '_' :: c :: rest => if digit c then digitRun digit (c :: rest) + 1 else 0
  | c :: rest => if digit c then digitRun digit rest + 1 else 0
  | [] => 0

/-- The digits that the letter behind a leading zero selects. -/
def digitsOfBase? : Char → Option (Char → Bool)
  | 'x' => some isHexDigit
  | 'X' => some isHexDigit
  | 'b' => some fun c => c = '0' || c = '1'
  | 'B' => some fun c => c = '0' || c = '1'
  | 'o' => some isOctalDigit
  | 'O' => some isOctalDigit
  | 'd' => some Char.isDigit
  | 'D' => some Char.isDigit
  | _ => none

/-! Operators -/

/-- The length of an operator that can name a method. -/
def operatorLength : List Char → Nat
  | '<' :: '=' :: '>' :: _ => 3
  | '<' :: '<' :: _ => 2
  | '<' :: '=' :: _ => 2
  | '<' :: _ => 1
  | '>' :: '>' :: _ => 2
  | '>' :: '=' :: _ => 2
  | '>' :: _ => 1
  | '=' :: '=' :: '=' :: _ => 3
  | '=' :: '=' :: _ => 2
  | '=' :: '~' :: _ => 2
  | '+' :: '@' :: _ => 2
  | '-' :: '@' :: _ => 2
  | '~' :: '@' :: _ => 2
  | '+' :: _ => 1
  | '-' :: _ => 1
  | '~' :: _ => 1
  | '.' :: '.' :: _ => 2
  | '&' :: _ => 1
  | '^' :: _ => 1
  | '|' :: _ => 1
  | '/' :: _ => 1
  | '%' :: _ => 1
  | '`' :: _ => 1
  | '!' :: '=' :: _ => 2
  | '!' :: '~' :: _ => 2
  | '!' :: _ => 1
  | '*' :: '*' :: _ => 2
  | '*' :: _ => 1
  | '[' :: ']' :: '=' :: _ => 3
  | '[' :: ']' :: _ => 2
  | _ => 0

namespace Input

/-! Variables -/

def afterVariable? (input : Input) : Option Input :=
  match input.rest with
  | '@' :: '@' :: c :: _ =>
    if startsWord c then some ((input.skip 2).skipWhile isWordChar) else none
  | '@' :: c :: _ => if startsWord c then some (input.step.skipWhile isWordChar) else none
  | '$' :: '-' :: c :: _ => if isPlainWordChar c then some (input.skip 3) else none
  | '$' :: c :: _ =>
    if c.isDigit then some (input.step.skipWhile Char.isDigit)
    else if isVariableMark c then some (input.skip 2)
    else if isPlainWordChar c then some (input.step.skipWhile isPlainWordChar)
    else none
  | _ => none

/-! Numbers -/

def afterFraction (input : Input) : Input :=
  match input.rest with
  | '.' :: c :: _ =>
    if c.isDigit then input.skip (1 + digitRun Char.isDigit (input.rest.drop 1)) else input
  | _ => input

def afterPowerMark (input : Input) : Input :=
  match input.rest with
  | mark :: sign :: rest =>
    if mark = 'e' || mark = 'E' then
      if sign.isDigit then input.skip (1 + digitRun Char.isDigit (sign :: rest))
      else if (sign = '+' || sign = '-') && rest.head?.any Char.isDigit then
        input.skip (2 + digitRun Char.isDigit rest)
      else input
    else input
  | _ => input

def afterNumber (input : Input) : Input :=
  let plain :=
    (input.skip (digitRun Char.isDigit input.rest)).afterFraction.afterPowerMark
  match input.rest with
  | '0' :: base :: c :: _ =>
    match digitsOfBase? base with
    | some digit =>
      if digit c then input.skip (2 + digitRun digit (input.rest.drop 2)) else plain
    | none => plain
  | _ => plain

/-- The place behind the letters that make a number rational or imaginary. -/
def afterNumberKind (input : Input) : Input :=
  match input.rest with
  | 'r' :: 'i' :: _ => input.skip 2
  | 'r' :: _ => input.step
  | 'i' :: _ => input.step
  | _ => input

/-! Character literals -/

/-- The length of what may follow an escaped character: digits, digits in braces, or the character
that a control or a meta key is pressed with. -/
def escapedTail (rest : List Char) : Nat :=
  match rest with
  | '{' :: inner =>
    let digits := inner.takeWhile isHexDigit
    if (inner.drop digits.length).head? = some '}' then digits.length + 2 else 0
  | '-' :: c :: more =>
    if isSpace c then 0
    else
      match more with
      | key :: '-' :: d :: _ => if (key = 'M' || key = 'C') && !isSpace d then 5 else 2
      | _ => 2
  | _ => (rest.takeWhile isHexDigit).length

def afterCharacter? (input : Input) : Option Input :=
  match input.rest with
  | '?' :: '\\' :: c :: rest =>
    if isSpace c || c.toNat = 0 then some (input.skip 2) else some (input.skip (3 + escapedTail rest))
  | '?' :: c :: _ => if isSpace c || c.toNat = 0 then none else some (input.skip 2)
  | _ => none

/-! Symbols -/

def afterSigil (input : Input) : Input :=
  match input.rest with
  | '@' :: '@' :: _ => input.skip 2
  | '@' :: _ => input.step
  | '$' :: _ => input.step
  | _ => input

/-- An equals sign ends a symbol unless a tilde or an angle bracket follows. -/
def afterSetterMark (input : Input) : Input :=
  match input.rest with
  | '=' :: '~' :: _ => input
  | '=' :: '>' :: _ => input
  | '=' :: _ => input.step
  | _ => input

def afterSymbolName? (input : Input) : Option Input :=
  let name := input.afterSigil
  let first :=
    match name.rest with
    | [] => 0
    | c :: _ => if isSymbolChar c then 1 else operatorLength name.rest
  if first = 0 then none
  else
    let word := (name.skip first).skipWhile isSymbolChar
    let marked :=
      match word.rest with
      | '?' :: _ => word.step
      | '!' :: _ => word.step
      | _ => word
    some marked.afterSetterMark

end Input

end PuppetInventory.Syntax
