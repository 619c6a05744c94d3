import PuppetInventory.Json.Value

/-!
JSON text without insignificant blanks.
-/

namespace PuppetInventory.Json

def hexDigit (n : Nat) : Char :=
  if n < 10 then Char.ofNat ('0'.toNat + n) else Char.ofNat ('a'.toNat + (n - 10))

/-- The written form of one character of a string. Only quotes, backslashes and control characters
are escaped. -/
def escapeChar (c : Char) : List Char :=
  if c = '"' then ['\\', '"']
  else if c = '\\' then ['\\', '\\']
  else if c = '\n' then ['\\', 'n']
  else if c = '\r' then ['\\', 'r']
  else if c = '\t' then ['\\', 't']
  else if c.toNat = 8 then ['\\', 'b']
  else if c.toNat = 12 then ['\\', 'f']
  else if c.toNat < 32 then
    ['\\', 'u', '0', '0', hexDigit (c.toNat / 16), hexDigit (c.toNat % 16)]
  else [c]

def quote (text : String) : String :=
  String.ofList ('"' :: (text.toList.flatMap escapeChar ++ ['"']))

/-- Which numbers are written without an exponent, by the power of ten of their first digit. -/
def smallestPlainPower : Int := -5

def largestPlainPower : Int := 15

def plainDecimal (digits : List Char) (exponent : Int) : List Char :=
  let point : Int := digits.length + exponent
  if exponent ≥ 0 then digits ++ List.replicate exponent.toNat '0' ++ ['.', '0']
  else if point > 0 then digits.take point.toNat ++ '.' :: digits.drop point.toNat
  else '0' :: '.' :: List.replicate (-point).toNat '0' ++ digits

def scientificDecimal (digits : List Char) (power : Int) : List Char :=
  let fraction := if digits.length ≤ 1 then [] else '.' :: digits.drop 1
  let sign := if power < 0 then '-' else '+'
  digits.take 1 ++ fraction ++ 'e' :: sign :: (toString power.natAbs).toList

def renderMagnitude (x : Binary64) : String :=
  let decimal := x.toDecimal
  let digits := (toString decimal.digits).toList
  let power : Int := digits.length + decimal.exponent - 1
  if x.significand = 0 then "0.0"
  else if smallestPlainPower ≤ power ∧ power ≤ largestPlainPower then
    String.ofList (plainDecimal digits decimal.exponent)
  else String.ofList (scientificDecimal digits power)

def Number.render : Number → String
  | .natural n => toString n
  | .negative n => "-" ++ toString n
  | .float isNegative magnitude => (if isNegative then "-" else "") ++ renderMagnitude magnitude

mutual

def Value.render : Value → String
  | .null => "null"
  | .boolean truth => if truth then "true" else "false"
  | .number number => number.render
  | .string text => quote text
  | .array items => "[" ++ String.intercalate "," (renderItems items) ++ "]"
  | .object members => "\x7b" ++ String.intercalate "," (renderMembers members) ++ "\x7d"

def renderItems : List Value → List String
  | [] => []
  | item :: rest => item.render :: renderItems rest

def renderMembers : List (String × Value) → List String
  | [] => []
  | (key, value) :: rest => (quote key ++ ":" ++ value.render) :: renderMembers rest

end

end PuppetInventory.Json
