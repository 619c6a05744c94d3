import PuppetInventory.Json.Binary64

/-!
JSON values. An object keeps its members in the order in which their keys first came, each with the
value that came last.
-/

namespace PuppetInventory.Json

inductive Number where
  /-- A whole number below `2 ^ 64`, written without sign, fraction or exponent. -/
  | natural (n : Nat)
  /-- The negative whole number `-n`, down to `-2 ^ 63`. -/
  | negative (n : Nat)
  | float (isNegative : Bool) (magnitude : Binary64)
deriving Repr, DecidableEq, Inhabited

inductive Value where
  | null
  | boolean (truth : Bool)
  | number (number : Number)
  | string (text : String)
  | array (items : List Value)
  | object (members : List (String × Value))
deriving Repr, Inhabited

/-- Gives a key a value: at the key's place, or at the end for a new key. -/
def insertMember {α : Type} (key : String) (value : α) : List (String × α) → List (String × α)
  | [] => [(key, value)]
  | (other, present) :: rest =>
    if other = key then (key, value) :: rest else (other, present) :: insertMember key value rest

/-- The members of an object from its entries as written. -/
def membersOf {α : Type} (entries : List (String × α)) : List (String × α) :=
  entries.foldl (fun members entry => insertMember entry.1 entry.2 members) []

end PuppetInventory.Json
