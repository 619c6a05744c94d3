import PuppetInventory.Declaration
import PuppetInventory.Export.Format
import PuppetInventory.Json.Printer
import PuppetInventory.Usage.Attribution

/-!
Exported records of declarations and of attributed usage, in either format: as lines of JSON, and as
comma-separated fields.
-/

namespace PuppetInventory.Csv

/-- A field in quotes, each quote inside written twice. -/
def quoted (field : List Char) : List Char :=
  '"' :: (field.flatMap fun c => if c = '"' then ['"', '"'] else [c]) ++ ['"']

def needsQuotes (c : Char) : Bool :=
  c = ',' || c = '"' || c = '\n'

def field (text : String) : String :=
  if text.toList.any needsQuotes then String.ofList (quoted text.toList) else text

/-- One record, the fields already in their written form. -/
def record (fields : List String) : String :=
  String.intercalate "," fields ++ "\n"

end PuppetInventory.Csv

namespace PuppetInventory.Export

/-- Where declarations come from. -/
structure Origin where
  repository : Option String
  md5 : Option String
deriving Repr, DecidableEq, Inhabited

def declarationHeader : List String :=
  ["repo_name", "module", "type", "source", "version", "md5"]

def usageHeader : List String :=
  ["module", "version", "source", "kind", "element", "count"]

def Origin.jsonRecord (origin : Origin) (declaration : Declaration) : Json.Value :=
  .object
    (((origin.repository.map fun name => ("repo_name", Json.Value.string name)).toList) ++
      [("module", .string declaration.name), ("type", .string declaration.kind.label),
        ("source", (declaration.source?.map Json.Value.string).getD .null),
        ("version", .string declaration.version.render)] ++
      ((origin.md5.map fun digest => ("md5", Json.Value.string digest)).toList))

def Origin.csvFields (origin : Origin) (declaration : Declaration) : List String :=
  [Csv.field (origin.repository.getD ""), Csv.field declaration.name, declaration.kind.label,
    Csv.field (declaration.source?.getD ""), Csv.field declaration.version.render,
    origin.md5.getD ""]

def jsonLine (value : Json.Value) : String :=
  value.render ++ "\n"

def Origin.row (origin : Origin) (format : Format) (declaration : Declaration) : String :=
  match format with
  | .json => jsonLine (origin.jsonRecord declaration)
  | .csv => Csv.record (origin.csvFields declaration)

def Origin.rows (origin : Origin) (format : Format) (declarations : List Declaration) : String :=
  String.join (declarations.map (origin.row format))

def header (format : Format) (columns : List String) : String :=
  match format with
  | .json => ""
  | .csv => Csv.record columns

/-- The declarations of one document, with the header. -/
def declarations (format : Format) (origin : Origin) (found : List Declaration) : String :=
  header format declarationHeader ++ origin.rows format found

def usageJson (row : Usage.Row) : Json.Value :=
  .object
    [("module", .string row.moduleName), ("version", .string row.version),
      ("source", (row.source.map Json.Value.string).getD .null), ("kind", .string row.kind),
      ("element", .string row.element), ("count", .number (.natural row.count))]

def usageFields (row : Usage.Row) : List String :=
  [Csv.field row.moduleName, Csv.field row.version, Csv.field (row.source.getD ""),
    Csv.field row.kind, Csv.field row.element, toString row.count]

def usageRow (format : Format) (row : Usage.Row) : String :=
  match format with
  | .json => jsonLine (usageJson row)
  | .csv => Csv.record (usageFields row)

/-- The rows of attributed usage, with the header. -/
def usage (format : Format) (rows : List Usage.Row) : String :=
  header format usageHeader ++ String.join (rows.map (usageRow format))

end PuppetInventory.Export
