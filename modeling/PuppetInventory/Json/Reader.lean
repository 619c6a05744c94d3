import PuppetInventory.Json.Value
import PuppetInventory.Json.Fault

/-!
Reading JSON text. Objects and lists nest at most 127 deep; whole numbers below `2 ^ 64` are kept
exactly, and all others are rounded to double precision from their first digits and a power of ten.
-/

namespace PuppetInventory.Json

/-- What is left of a text, and the number of bytes before it. -/
structure Cursor where
  rest : List Char
  offset : Nat
deriving Repr, Inhabited

abbrev Reader (α : Type) := Cursor → Except Fault (α × Cursor)

def byteLength (chars : List Char) : Nat :=
  chars.foldl (fun size c => size + c.utf8Size) 0

namespace Cursor

def skipWhile (cursor : Cursor) (skipped : Char → Bool) : Cursor where
  rest := cursor.rest.dropWhile skipped
  offset := cursor.offset + byteLength (cursor.rest.takeWhile skipped)

def isBlank (c : Char) : Bool :=
  c = ' ' || c = '\n' || c = '\t' || c = '\r'

def skipBlanks (cursor : Cursor) : Cursor :=
  cursor.skipWhile isBlank

def step (cursor : Cursor) : Cursor :=
  match cursor.rest with
  | [] => cursor
  | c :: rest => ⟨rest, cursor.offset + c.utf8Size⟩

def fault {α : Type} (cursor : Cursor) (cause : FaultCause) : Except Fault α :=
  .error ⟨cause, cursor.offset⟩

/-- A fault at the byte that comes next. -/
def faultAhead {α : Type} (cursor : Cursor) (cause : FaultCause) : Except Fault α :=
  .error ⟨cause, if cursor.rest.isEmpty then cursor.offset else cursor.offset + 1⟩

end Cursor

/-! Words -/

/-- The characters of a word behind its first one. -/
def readWord {α : Type} (value : α) : List Char → Reader α
  | [], cursor => .ok (value, cursor)
  | c :: word, cursor =>
    match cursor.rest with
    | [] => cursor.fault .endInValue
    | d :: _ =>
      if c = d then readWord value word cursor.step else .error ⟨.expectedWord, cursor.offset + 1⟩

/-! Strings -/

def hexValue? (c : Char) : Option Nat :=
  if '0' ≤ c ∧ c ≤ '9' then some (c.toNat - '0'.toNat)
  else if 'a' ≤ c ∧ c ≤ 'f' then some (c.toNat - 'a'.toNat + 10)
  else if 'A' ≤ c ∧ c ≤ 'F' then some (c.toNat - 'A'.toNat + 10)
  else none

/-- Four hexadecimal digits. A fault lies behind the four bytes. -/
def readHexUnit : Reader Nat := fun cursor =>
  let bytes := byteLength cursor.rest
  if bytes < 4 then .error ⟨.endInString, cursor.offset + bytes⟩
  else
    match cursor.rest with
    | a :: b :: c :: d :: rest =>
      match hexValue? a, hexValue? b, hexValue? c, hexValue? d with
      | some a, some b, some c, some d =>
        .ok (((a * 16 + b) * 16 + c) * 16 + d, ⟨rest, cursor.offset + 4⟩)
      | _, _, _, _ => .error ⟨.invalidEscape, cursor.offset + 4⟩
    | _ => .error ⟨.invalidEscape, cursor.offset + 4⟩

/-- Requires a character inside a pair of surrogates. -/
def readPairMark (c : Char) : Reader Unit := fun cursor =>
  match cursor.rest with
  | [] => cursor.fault .endInString
  | d :: _ =>
    if c = d then .ok ((), cursor.step) else .error ⟨.endOfHexEscape, cursor.offset + 1⟩

/-- The character of a `\u` escape, which may be a pair of surrogates. -/
def readUnicodeEscape : Reader Char := fun cursor => do
  let (unit, cursor) ← readHexUnit cursor
  if 0xDC00 ≤ unit ∧ unit ≤ 0xDFFF then cursor.fault .loneSurrogate
  else if unit < 0xD800 ∨ 0xDBFF < unit then .ok (Char.ofNat unit, cursor)
  else
    let (_, cursor) ← readPairMark '\\' cursor
    let (_, cursor) ← readPairMark 'u' cursor
    let (second, cursor) ← readHexUnit cursor
    if second < 0xDC00 ∨ 0xDFFF < second then cursor.fault .loneSurrogate
    else .ok (Char.ofNat ((unit - 0xD800) * 0x400 + (second - 0xDC00) + 0x10000), cursor)

def simpleEscape? : Char → Option Char
  | '"' => some '"'
  | '\\' => some '\\'
  | '/' => some '/'
  | 'b' => some (Char.ofNat 8)
  | 'f' => some (Char.ofNat 12)
  | 'n' => some '\n'
  | 'r' => some '\r'
  | 't' => some '\t'
  | _ => none

def readEscape : Reader Char := fun cursor =>
  match cursor.rest with
  | [] => cursor.fault .endInString
  | c :: _ =>
    if c = 'u' then readUnicodeEscape cursor.step
    else
      match simpleEscape? c with
      | some d => .ok (d, cursor.step)
      | none => .error ⟨.invalidEscape, cursor.offset + 1⟩

/-- The characters of a string up to its closing quote, which is read too. -/
def readStringTail : Nat → Reader (List Char)
  | 0, cursor => cursor.fault .endInString
  | fuel + 1, cursor =>
    match cursor.rest with
    | [] => cursor.fault .endInString
    | c :: _ =>
      if c = '"' then .ok ([], cursor.step)
      else if c = '\\' then do
        let (d, cursor) ← readEscape cursor.step
        let (tail, cursor) ← readStringTail fuel cursor
        .ok (d :: tail, cursor)
      else if c.toNat < 32 then .error ⟨.controlCharacter, cursor.offset + 1⟩
      else do
        let (tail, cursor) ← readStringTail fuel cursor.step
        .ok (c :: tail, cursor)

def readString : Reader String := fun cursor => do
  let (text, cursor) ← readStringTail (cursor.rest.length + 1) cursor
  .ok (String.ofList text, cursor)

/-! Numbers -/

def digitValue (c : Char) : Nat :=
  c.toNat - '0'.toNat

def maxNatural : Nat := (1 <<< 64) - 1

/-- Adds digits to a significand as long as it stays below `2 ^ 64`, and counts them. -/
def takeDigits : Nat → Nat → List Char → Nat × Nat
  | significand, count, [] => (significand, count)
  | significand, count, c :: rest =>
    let next := significand * 10 + digitValue c
    if c.isDigit ∧ next ≤ maxNatural then takeDigits next (count + 1) rest
    else (significand, count)

/-- Scales by a power of ten, in steps that the format can hold. -/
def scaleUp (x : Binary64) (power : Nat) : Option Binary64 :=
  if power ≤ 308 then (Binary64.powerOfTen power).bind x.mul
  else if x.significand = 0 then some x
  else none

def scaleDown : Nat → Binary64 → Nat → Option Binary64
  | 0, x, _ => some x
  | fuel + 1, x, power =>
    if power ≤ 308 then (Binary64.powerOfTen power).bind x.div
    else if x.significand = 0 then some x
    else
      match (Binary64.powerOfTen 308).bind x.div with
      | some y => scaleDown fuel y (power - 308)
      | none => none

def floatOf (isNegative : Bool) (significand : Nat) (exponent : Int) : Reader Number :=
  fun cursor =>
    let scaled :=
      (Binary64.ofNat significand).bind fun x =>
        if exponent ≥ 0 then scaleUp x exponent.toNat else scaleDown 8 x (-exponent).toNat
    match scaled with
    | some magnitude => .ok (.float isNegative magnitude, cursor)
    | none => cursor.fault .numberOutOfRange

def maxExponent : Nat := (1 <<< 31) - 1

def digitsValue (digits : List Char) : Nat :=
  digits.foldl (fun n c => n * 10 + digitValue c) 0

/-- The bytes of the digits that an exponent can take before it grows too large. -/
def fittingDigits : Nat → Nat → List Char → Nat
  | _, count, [] => count
  | value, count, c :: rest =>
    let next := value * 10 + digitValue c
    if next ≤ maxExponent then fittingDigits next (count + 1) rest else count + 1

def readExponent (isNegative : Bool) (significand : Nat) (start : Int) : Reader Number :=
  fun cursor =>
    let down := cursor.rest.head? = some '-'
    let cursor := if down ∨ cursor.rest.head? = some '+' then cursor.step else cursor
    let digits := cursor.rest.takeWhile Char.isDigit
    match cursor.rest with
    | [] => cursor.fault .endInValue
    | c :: _ =>
      if ¬ c.isDigit then .error ⟨.invalidNumber, cursor.offset + 1⟩
      else if digitsValue digits ≤ maxExponent then
        let exponent : Int := digitsValue digits
        floatOf isNegative significand (if down then start - exponent else start + exponent)
          (cursor.skipWhile Char.isDigit)
      else if significand ≠ 0 ∧ ¬ down then
        .error ⟨.numberOutOfRange, cursor.offset + fittingDigits 0 0 digits⟩
      else .ok (.float isNegative .zero, cursor.skipWhile Char.isDigit)

def atExponent (cursor : Cursor) : Bool :=
  cursor.rest.head? = some 'e' || cursor.rest.head? = some 'E'

/-- The digits behind the decimal point. Those that no longer fit are passed over. -/
def readFraction (isNegative : Bool) (significand : Nat) (start : Int) : Reader Number :=
  fun cursor =>
    let (significand, count) := takeDigits significand 0 cursor.rest
    let next := cursor.skipWhile Char.isDigit
    if next.offset = cursor.offset then
      cursor.faultAhead (if cursor.rest.isEmpty then .endInValue else .invalidNumber)
    else if atExponent next then readExponent isNegative significand (start - count) next.step
    else floatOf isNegative significand (start - count) next

def readNumber (isNegative : Bool) : Reader Number := fun cursor =>
  let (significand, count) := takeDigits 0 0 cursor.rest
  let next := cursor.skipWhile Char.isDigit
  let dropped := next.offset - cursor.offset - count
  match cursor.rest with
  | [] => cursor.fault .endInValue
  | c :: second =>
    if ¬ c.isDigit then .error ⟨.invalidNumber, cursor.offset + 1⟩
    else if c = '0' ∧ (second.head?.any Char.isDigit) then cursor.step.faultAhead .invalidNumber
    else if next.rest.head? = some '.' then
      readFraction isNegative significand dropped next.step
    else if atExponent next then readExponent isNegative significand dropped next.step
    else if dropped > 0 then floatOf isNegative significand dropped next
    else if ¬ isNegative then .ok (.natural significand, next)
    else if 0 < significand ∧ significand ≤ 1 <<< 63 then .ok (.negative significand, next)
    else floatOf true significand 0 next

/-! Values -/

/-- The items of a list behind the bracket or a comma, up to the closing bracket. -/
def readItems (item : Reader Value) : Nat → Reader (List Value)
  | 0, cursor => cursor.fault .endInList
  | fuel + 1, cursor => do
    let (value, cursor) ← item cursor
    let cursor := cursor.skipBlanks
    match cursor.rest with
    | [] => cursor.faultAhead .endInList
    | c :: _ =>
      if c = ']' then .ok ([value], cursor.step)
      else if c = ',' then
        let cursor := cursor.step.skipBlanks
        match cursor.rest with
        | [] => cursor.faultAhead .endInValue
        | d :: _ =>
          if d = ']' then cursor.faultAhead .trailingComma
          else do
            let (values, cursor) ← readItems item fuel cursor
            .ok (value :: values, cursor)
      else cursor.faultAhead .expectedListEnd

def readList (item : Reader Value) : Reader Value := fun cursor =>
  let cursor := cursor.skipBlanks
  match cursor.rest with
  | [] => cursor.faultAhead .endInList
  | c :: _ =>
    if c = ']' then .ok (.array [], cursor.step)
    else do
      let (items, cursor) ← readItems item (cursor.rest.length + 1) cursor
      .ok (.array items, cursor)

def readColon : Reader Unit := fun cursor =>
  let cursor := cursor.skipBlanks
  match cursor.rest with
  | [] => cursor.faultAhead .endInObject
  | c :: _ => if c = ':' then .ok ((), cursor.step) else cursor.faultAhead .expectedColon

/-- The entries of an object behind the opening quote of a key, up to the closing brace. -/
def readEntries (item : Reader Value) : Nat → Reader (List (String × Value))
  | 0, cursor => cursor.fault .endInObject
  | fuel + 1, cursor => do
    let (key, cursor) ← readString cursor
    let (_, cursor) ← readColon cursor
    let (value, cursor) ← item cursor
    let cursor := cursor.skipBlanks
    match cursor.rest with
    | [] => cursor.faultAhead .endInObject
    | c :: _ =>
      if c = '}' then .ok ([(key, value)], cursor.step)
      else if c = ',' then
        let cursor := cursor.step.skipBlanks
        match cursor.rest with
        | [] => cursor.faultAhead .endInValue
        | d :: _ =>
          if d = '"' then do
            let (entries, cursor) ← readEntries item fuel cursor.step
            .ok ((key, value) :: entries, cursor)
          else if d = '}' then cursor.faultAhead .trailingComma
          else cursor.faultAhead .keyNotString
      else cursor.faultAhead .expectedObjectEnd

def readObject (item : Reader Value) : Reader Value := fun cursor =>
  let cursor := cursor.skipBlanks
  match cursor.rest with
  | [] => cursor.faultAhead .endInObject
  | c :: _ =>
    if c = '}' then .ok (.object [], cursor.step)
    else if c = '"' then do
      let (entries, cursor) ← readEntries item (cursor.rest.length + 1) cursor.step
      .ok (.object (membersOf entries), cursor)
    else cursor.faultAhead .keyNotString

/-- A value inside at most `depth` further lists and objects. -/
def readValue : Nat → Reader Value := fun depth cursor =>
  let cursor := cursor.skipBlanks
  match cursor.rest with
  | [] => cursor.faultAhead .endInValue
  | c :: _ =>
    if c = 'n' then readWord .null ['u', 'l', 'l'] cursor.step
    else if c = 't' then readWord (.boolean true) ['r', 'u', 'e'] cursor.step
    else if c = 'f' then readWord (.boolean false) ['a', 'l', 's', 'e'] cursor.step
    else if c = '-' then do
      let (number, cursor) ← readNumber true cursor.step
      .ok (.number number, cursor)
    else if c.isDigit then do
      let (number, cursor) ← readNumber false cursor
      .ok (.number number, cursor)
    else if c = '"' then do
      let (text, cursor) ← readString cursor.step
      .ok (.string text, cursor)
    else if c = '[' ∨ c = '{' then
      match depth with
      | 0 => cursor.faultAhead .tooDeep
      | depth + 1 =>
        if c = '[' then readList (readValue depth) cursor.step
        else readObject (readValue depth) cursor.step
    else cursor.faultAhead .expectedValue

def maxDepth : Nat := 127

/-- A reader gives a text its value, or what is wrong with it. -/
abbrev TextReader := String → Except Fault Value

def read (text : String) : Except Fault Value := do
  let (value, cursor) ← readValue maxDepth ⟨text.toList, 0⟩
  let cursor := cursor.skipBlanks
  match cursor.rest with
  | [] => .ok value
  | _ => cursor.faultAhead .trailingCharacters

end PuppetInventory.Json
