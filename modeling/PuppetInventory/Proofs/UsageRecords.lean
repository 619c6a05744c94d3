import PuppetInventory.CommandLine.Run
import PuppetInventory.Proofs.CsvRecords
import PuppetInventory.Proofs.JsonLines
import PuppetInventory.Proofs.UsageTable

/-!
Attributed usage read back from what is exported. A usage table that can be read leads to one record
for each of its observations, and the marker of the version stands behind them; any other table
leads to no output.
-/

namespace PuppetInventory

namespace Export

/-! Readers -/

/-- The number that decimal digits stand for. -/
def countOf? (text : String) : Option Nat :=
  if text ≠ "" ∧ text.toList.all Char.isDigit then some (Nat.ofDigitChars 10 text.toList 0)
  else none

/-- The row of a CSV record. There an absent source is written like an empty one. -/
def rowOfFields? : List String → Option Usage.Row
  | [moduleName, version, source, kind, element, count] =>
    (countOf? count).map fun count =>
      ⟨moduleName, version, if source = "" then none else some source, kind, element, count⟩
  | _ => none

def textOf? : Json.Value → Option String
  | .string text => some text
  | _ => none

def textOrNullOf? : Json.Value → Option (Option String)
  | .string text => some (some text)
  | .null => some none
  | _ => none

/-- The row of a JSON object, by the keys of its members. -/
def rowOfValue? : Json.Value → Option Usage.Row
  | .object members => do
    let moduleName ← (members.lookup "module").bind textOf?
    let version ← (members.lookup "version").bind textOf?
    let source ← (members.lookup "source").bind textOrNullOf?
    let kind ← (members.lookup "kind").bind textOf?
    let element ← (members.lookup "element").bind textOf?
    let count ← (members.lookup "count").bind Usage.Table.count?
    some ⟨moduleName, version, source, kind, element, count⟩
  | _ => none

/-- The rows of an exported text: all records behind the header, or all lines. -/
def readUsage? : Format → String → Option (List Usage.Row)
  | .csv, text =>
    match Csv.read? text with
    | some (header :: records) =>
      if header = usageHeader then records.mapM rowOfFields? else none
    | _ => none
  | .json, text =>
    let lines := text.toList.splitOn '\n'
    if lines.getLast? = some [] then
      (lines.dropLast.map fun line => Json.read (String.ofList line)).mapM fun record =>
        record.toOption.bind rowOfValue?
    else none

/-- A row as a format shows it. -/
def shown (format : Format) (row : Usage.Row) : Usage.Row :=
  match format with
  | .json => row
  | .csv => { row with source := row.source.filter (· ≠ "") }

/-! Rows read back -/

theorem mapM_map_eq_some {α β γ : Type} {encode : α → β} {decode : β → Option γ} {value : α → γ}
    (items : List α) (h : ∀ item, decode (encode item) = some (value item)) :
    (items.map encode).mapM decode = some (items.map value) := by
  induction items with
  | nil => rfl
  | cons item items ih =>
    rw [List.map_cons, List.mapM_cons, h, ih]
    rfl

theorem countOf?_toString (n : Nat) : countOf? (toString n) = some n := by
  have hdigits : (toString n).toList = Nat.toDigits 10 n := Nat.toList_repr
  have hne : toString n ≠ "" := by
    intro hempty
    rw [hempty] at hdigits
    exact Nat.toDigits_ne_nil hdigits.symm
  have hall : (Nat.toDigits 10 n).all Char.isDigit = true :=
    List.all_eq_true.2 fun c hc => Nat.isDigit_of_mem_toDigits (by decide) (by decide) hc
  rw [countOf?, hdigits, if_pos ⟨hne, hall⟩, Nat.ofDigitChars_ten_toDigits]

theorem rowOfFields?_fields (row : Usage.Row) :
    rowOfFields?
        [row.moduleName, row.version, row.source.getD "", row.kind, row.element,
          toString row.count] =
      some (shown .csv row) := by
  have hsource : (if row.source.getD "" = "" then none else some (row.source.getD "")) =
      row.source.filter (· ≠ "") := by
    cases row.source with
    | none => rfl
    | some source => by_cases h : source = "" <;> simp [h, Option.filter_some]
  rw [rowOfFields?, countOf?_toString, hsource]
  rfl

theorem rowOfValue?_members (row : Usage.Row) :
    rowOfValue? (.object (usageMembers row)) = some row := by
  obtain ⟨moduleName, version, source, kind, element, count⟩ := row
  cases source <;> rfl

theorem readUsage?_csv (rows : List Usage.Row) :
    readUsage? .csv (usage .csv rows) = some (rows.map (shown .csv)) := by
  have hheader : List.Forall₂ Csv.IsFieldFor usageHeader usageHeader :=
    Csv.isFieldFor_header fun name hname =>
      any_needsQuotes_of_mem_headers name (List.mem_append_left _ hname)
  have hread : Csv.read? (usage .csv rows) = some (usageHeader :: _) :=
    Csv.read?_header_append_rows hheader (List.cons_ne_nil _ _) isFieldFor_usageFields
      (fun _ => List.cons_ne_nil _ _) rows
  rw [readUsage?, hread]
  exact mapM_map_eq_some rows rowOfFields?_fields

theorem readUsage?_json {rows : List Usage.Row} (h : ∀ row ∈ rows, row.count < UInt64.size) :
    readUsage? .json (usage .json rows) = some (rows.map (shown .json)) := by
  obtain ⟨lines, hsplit, hread⟩ := (holdsLines_usage Json.read_isFaithful h).exists_lines
  rw [readUsage?, hsplit, if_pos List.getLast?_concat, List.dropLast_concat, hread, List.map_map]
  exact mapM_map_eq_some rows rowOfValue?_members

theorem readUsage?_usage
    (format : Format) {rows : List Usage.Row} (h : ∀ row ∈ rows, row.count < UInt64.size) :
    readUsage? format (usage format rows) = some (rows.map (shown format)) := by
  cases format with
  | json => exact readUsage?_json h
  | csv => exact readUsage?_csv rows

end Export

namespace CommandLine

/-! The command -/

theorem loadTable_of_textAt?
    {system : FileSystem} {path text : String} (h : system.textAt? path = some text) :
    loadTable system path = (Usage.Table.read text).mapError .table := by
  unfold FileSystem.textAt? at h
  unfold loadTable
  cases hread : system.read path with
  | error error =>
    rw [hread] at h
    cases h
  | ok bytes =>
    rw [hread] at h
    have hdecode : decodeText? bytes = some text := h
    simp only [hdecode]
    cases Usage.Table.read text <;> rfl

section Attribute

variable {system : FileSystem} {request : AttributeRequest} {text : String}

theorem runAttribute_of_error
    (h : system.textAt? request.observations = some text) {error : Usage.TableError}
    (herror : Usage.Table.read text = .error error) :
    (runAttribute system request).exitCode = 1 ∧ (runAttribute system request).output = "" := by
  have hload : loadTable system request.observations = .error (.table error) := by
    rw [loadTable_of_textAt? h, herror]
    rfl
  rw [runAttribute, hload]
  exact ⟨rfl, rfl⟩

theorem runAttribute_of_ok
    (h : system.textAt? request.observations = some text) {observations : List Usage.Observation}
    (hread : Usage.Table.read text = .ok observations) :
    let rows :=
      Usage.attributeAll request.moduleName request.version request.dependencies observations
    let marker :=
      if request.versionMarker then [Usage.versionMarker request.moduleName request.version]
      else []
    runAttribute system request =
      .success (Export.usage request.format (rows ++ marker))
        [attributionEntry request.moduleName request.version observations.length
          (rows.countP Usage.Row.isAttributed)] := by
  have hload : loadTable system request.observations = .ok observations := by
    rw [loadTable_of_textAt? h, hread]
    rfl
  rw [runAttribute, hload]

theorem errors_runAttribute_of_ok
    (h : system.textAt? request.observations = some text) {observations : List Usage.Observation}
    (hread : Usage.Table.read text = .ok observations) :
    let rows :=
      Usage.attributeAll request.moduleName request.version request.dependencies observations
    (runAttribute system request).errors =
      (attributionEntry request.moduleName request.version observations.length
        (rows.countP Usage.Row.isAttributed)).render ++ "\n" := by
  intro rows
  rw [runAttribute_of_ok h hread, Result.success, List.map_singleton, String.join_cons,
    String.join_nil, String.append_empty]

end Attribute

theorem count_lt_of_mem_attributeAll
    (moduleName version : String) (dependencies : List String)
    {observations : List Usage.Observation}
    (h : ∀ observation ∈ observations, observation.count < UInt64.size) :
    ∀ row ∈ Usage.attributeAll moduleName version dependencies observations,
      row.count < UInt64.size := by
  intro row hrow
  obtain ⟨observation, hobservation, rfl⟩ := List.mem_map.1 hrow
  exact h observation hobservation

theorem map_shown_marker (format : Export.Format) (marked : Bool) (moduleName version : String) :
    (if marked then [Usage.versionMarker moduleName version] else []).map (Export.shown format) =
      if marked then [Usage.versionMarker moduleName version] else [] := by
  cases marked <;> cases format <;> rfl

theorem count_lt_of_mem_marker (marked : Bool) (moduleName version : String) :
    ∀ row ∈ if marked then [Usage.versionMarker moduleName version] else [],
      row.count < UInt64.size := by
  intro row hrow
  cases marked with
  | false => cases hrow
  | true =>
    rw [List.mem_singleton.1 hrow]
    exact Nat.zero_lt_succ _

/-- A table that cannot be read leads to a failure without output. Otherwise the output reads back
as one row for each observation, in order and with its whole count, and the marker if one is asked
for. What is logged counts the rows with a source, whether or not the marker is there. -/
theorem runAttribute_complete_or_silent
    (system : FileSystem) (request : AttributeRequest) (text : String)
    (h : system.textAt? request.observations = some text) :
    let result := runAttribute system request
    match Usage.Table.read text with
    | .error _ => result.exitCode = 1 ∧ result.output = ""
    | .ok observations =>
      let rows := observations.map fun observation =>
        let row :=
          Usage.rowOf request.moduleName request.version request.dependencies observation
        (⟨request.moduleName, request.version, row.source, Usage.singular observation.kind,
          observation.element, observation.count⟩ : Usage.Row)
      let marker : List Usage.Row :=
        if request.versionMarker then
          [⟨request.moduleName, request.version, none, "admin", "version", 0⟩]
        else []
      result.exitCode = 0 ∧
      Export.readUsage? request.format result.output =
        some (rows.map (Export.shown request.format) ++ marker) ∧
      (∀ row ∈ rows, row.count < 2 ^ 64) ∧
      result.errors =
        (attributionEntry request.moduleName request.version observations.length
          (rows.countP fun row => row.source.isSome)).render ++ "\n" ∧
      ∀ marked : Bool,
        (runAttribute system { request with versionMarker := marked }).errors = result.errors := by
  intro result
  cases hread : Usage.Table.read text with
  | error error => exact runAttribute_of_error h hread
  | ok observations =>
    have hcount := count_lt_of_mem_attributeAll request.moduleName request.version
      request.dependencies (Usage.Table.count_lt_of_read hread)
    refine ⟨?_, ?_, hcount, errors_runAttribute_of_ok h hread, fun marked => ?_⟩
    · rw [show result = _ from runAttribute_of_ok h hread]
      rfl
    · have hall := List.forall_mem_append.2 ⟨hcount,
        count_lt_of_mem_marker request.versionMarker request.moduleName request.version⟩
      rw [show result = _ from runAttribute_of_ok h hread, Result.success,
        Export.readUsage?_usage request.format hall, List.map_append, map_shown_marker]
      rfl
    · let other : AttributeRequest := { request with versionMarker := marked }
      have hother : system.textAt? other.observations = some text := h
      exact (errors_runAttribute_of_ok hother hread).trans (errors_runAttribute_of_ok h hread).symm

/-- The largest count, an element that CSV puts in quotes and that a dependency without a name is
credited with, and a table that is an object of numbers. -/
theorem runAttribute_complete_or_silent_marked :
    let system : FileSystem :=
      ⟨.directory
        [("t", .file
            "\x7b\"types\":\x7b\"b::c\":18446744073709551615,\"_,\\\"\":2\x7d\x7d".toUTF8.toList),
          ("u", .file "\x7b\"types\":2\x7d".toUTF8.toList)], []⟩
    let request : AttributeRequest := ⟨"m", "1", ["a-b", ""], true, .csv, "t"⟩
    Export.readUsage? .csv (runAttribute system request).output =
        some [⟨"m", "1", some "a-b", "type", "b::c", 18446744073709551615⟩,
          ⟨"m", "1", none, "type", "_,\"", 2⟩, ⟨"m", "1", none, "admin", "version", 0⟩] ∧
      (runAttribute system { request with observations := "u" }).output = "" := by
  intro system request
  have htext : system.textAt? "t" =
      some "\x7b\"types\":\x7b\"b::c\":18446744073709551615,\"_,\\\"\":2\x7d\x7d" := by
    decide +kernel
  have hother : system.textAt? "u" = some "\x7b\"types\":2\x7d" := by decide +kernel
  have htable : Usage.Table.read
        "\x7b\"types\":\x7b\"b::c\":18446744073709551615,\"_,\\\"\":2\x7d\x7d" =
      .ok [⟨"types", "b::c", 18446744073709551615⟩, ⟨"types", "_,\"", 2⟩] := by
    decide +kernel
  have hnotable : Usage.Table.read "\x7b\"types\":2\x7d" = .error (.notAnObject "types") := by
    decide +kernel
  have hcomplete := runAttribute_complete_or_silent system request _ htext
  have hsilent :=
    runAttribute_complete_or_silent system { request with observations := "u" } _ hother
  rw [htable] at hcomplete
  rw [hnotable] at hsilent
  obtain ⟨-, hrecords, -⟩ := hcomplete
  exact ⟨hrecords.trans (by decide +kernel), hsilent.2⟩

end CommandLine

end PuppetInventory
