/-!
Why a text is no JSON, and where: the line and the column count bytes up to the fault.
-/

namespace PuppetInventory.Json

inductive FaultCause where
  | endInValue
  | endInObject
  | endInList
  | endInString
  | expectedValue
  | expectedWord
  | expectedColon
  | expectedObjectEnd
  | expectedListEnd
  | keyNotString
  | trailingComma
  | trailingCharacters
  | invalidNumber
  | numberOutOfRange
  | controlCharacter
  | invalidEscape
  | endOfHexEscape
  | loneSurrogate
  | tooDeep
deriving Repr, DecidableEq, Inhabited

def FaultCause.message : FaultCause → String
  | .endInValue => "EOF while parsing a value"
  | .endInObject => "EOF while parsing an object"
  | .endInList => "EOF while parsing a list"
  | .endInString => "EOF while parsing a string"
  | .expectedValue => "expected value"
  | .expectedWord => "expected ident"
  | .expectedColon => "expected `:`"
  | .expectedObjectEnd => "expected `,` or `\x7d`"
  | .expectedListEnd => "expected `,` or `]`"
  | .keyNotString => "key must be a string"
  | .trailingComma => "trailing comma"
  | .trailingCharacters => "trailing characters"
  | .invalidNumber => "invalid number"
  | .numberOutOfRange => "number out of range"
  | .controlCharacter => "control character (\\u0000-\\u001F) found while parsing a string"
  | .invalidEscape => "invalid escape"
  | .endOfHexEscape => "unexpected end of hex escape"
  | .loneSurrogate => "lone leading surrogate in hex escape"
  | .tooDeep => "recursion limit exceeded"

/-- A fault behind the given number of bytes. -/
structure Fault where
  cause : FaultCause
  offset : Nat
deriving Repr, DecidableEq, Inhabited

/-- The line, from one, and the bytes since its start, behind `offset` bytes of a text. -/
def lineAndColumn (bytes : List UInt8) (offset : Nat) : Nat × Nat :=
  (bytes.take offset).foldl
    (fun place byte => if byte = 10 then (place.1 + 1, 0) else (place.1, place.2 + 1)) (1, 0)

def Fault.message (fault : Fault) (text : String) : String :=
  let place := lineAndColumn text.toUTF8.toList fault.offset
  fault.cause.message ++ " at line " ++ toString place.1 ++ " column " ++ toString place.2

end PuppetInventory.Json
