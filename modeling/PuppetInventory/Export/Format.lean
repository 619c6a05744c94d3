/-!
The formats of exported records.
-/

namespace PuppetInventory.Export

inductive Format where
  /-- One JSON object a line. -/
  | json
  | csv
deriving Repr, DecidableEq, Inhabited

namespace Format

def label : Format → String
  | .json => "json"
  | .csv => "csv"

/-- The lower-case form of the letters that occur in the names of formats. -/
def lowerName (name : String) : String :=
  String.ofList (name.toList.map Char.toLower)

def ofName? (name : String) : Option Format :=
  let lower := lowerName name
  if lower = "json" ∨ lower = "ndjson" ∨ lower = "jsonl" then some .json
  else if lower = "csv" then some .csv
  else none

def unknownMessage (name : String) : String :=
  "Unknown export format: '" ++ name ++ "'. Valid formats: json, csv"

end Format

end PuppetInventory.Export
