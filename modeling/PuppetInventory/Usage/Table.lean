import PuppetInventory.Json.Reader
import PuppetInventory.Json.Printer
import PuppetInventory.Usage.Attribution

/-!
Tables of usage counts, as JSON objects from plural kinds to objects from elements to counts.
-/

namespace PuppetInventory.Usage

inductive TableError where
  | notJson (message : String)
  /-- The whole table, or the counts of one kind, are no object. -/
  | notAnObject (kind : String)
  | invalidCount (kind element value : String)
deriving Repr, DecidableEq, Inhabited

namespace TableError

/-- How the table itself is named where a kind would be. -/
def root : String := "<root>"

/-- The message, and the message of the cause below it. -/
def chain : TableError → List String
  | .notJson message => ["Failed to parse JSON: " ++ message, message]
  | .notAnObject kind => ["Expected an object of element counts for kind '" ++ kind ++ "'"]
  | .invalidCount kind element value =>
    ["Invalid count for " ++ kind ++ " '" ++ element ++ "': " ++ value]

def message (error : TableError) : String :=
  error.chain.headD ""

end TableError

namespace Table

def count? : Json.Value → Option Nat
  | .number (.natural n) => some n
  | _ => none

def observationsOfKind (kind : String) :
    List (String × Json.Value) → Except TableError (List Observation)
  | [] => .ok []
  | (element, value) :: rest =>
    match count? value with
    | none => .error (.invalidCount kind element value.render)
    | some count => do
      let observations ← observationsOfKind kind rest
      .ok (⟨kind, element, count⟩ :: observations)

def observationsOfKinds : List (String × Json.Value) → Except TableError (List Observation)
  | [] => .ok []
  | (kind, .object elements) :: rest => do
    let first ← observationsOfKind kind elements
    let others ← observationsOfKinds rest
    .ok (first ++ others)
  | (kind, _) :: _ => .error (.notAnObject kind)

def ofValue : Json.Value → Except TableError (List Observation)
  | .object kinds => observationsOfKinds kinds
  | _ => .error (.notAnObject TableError.root)

/-- The observations of a table, in the order of the text. -/
def readBy (reader : Json.TextReader) (text : String) : Except TableError (List Observation) :=
  match reader text with
  | .error fault => .error (.notJson (fault.message text))
  | .ok value => ofValue value

def read (text : String) : Except TableError (List Observation) :=
  readBy Json.read text

end Table

end PuppetInventory.Usage
