import Mathlib.Data.List.Forall2
import PuppetInventory.Export.Records
import PuppetInventory.Proofs.Declared
import PuppetInventory.Proofs.Json.Rendering

/-!
Records exported one a line: every line is read back as its record, and what a document declares can
be told from its lines.
-/

namespace PuppetInventory

namespace Json

/-! Lines -/

/-- A text with a line for each record, in order, and nothing behind the last line. A reader reads
each line as its record. -/
structure HoldsLines (reader : TextReader) (records : List Value) (text : String) : Prop where
  count_lineFeed : text.toList.count '\n' = records.length
  ends_with_lineFeed : records ≠ [] → text.toList.getLast? = some '\n'
  exists_lines : ∃ lines : List (List Char), text.toList.splitOn '\n' = lines ++ [[]] ∧
    lines.map (fun line => reader (String.ofList line)) = records.map .ok

theorem flatMap_lineFeed (lines : List (List Char)) :
    (lines.flatMap fun line => line ++ ['\n']) = ['\n'].intercalate (lines ++ [[]]) := by
  induction lines with
  | nil => rfl
  | cons line lines ih =>
    have hne : lines ++ [[]] ≠ [] := List.append_ne_nil_of_right_ne_nil _ (List.cons_ne_nil _ _)
    rw [List.flatMap_cons, ih, List.cons_append, List.intercalate_cons_of_ne_nil hne]

theorem splitOn_flatMap_lineFeed {lines : List (List Char)} (h : ∀ line ∈ lines, '\n' ∉ line) :
    (lines.flatMap fun line => line ++ ['\n']).splitOn '\n' = lines ++ [[]] := by
  rw [flatMap_lineFeed]
  refine List.splitOn_intercalate '\n' (fun line hline => ?_)
    (List.append_ne_nil_of_right_ne_nil _ (List.cons_ne_nil _ _))
  rcases List.mem_append.1 hline with hline | hline
  · exact h line hline
  · rw [List.mem_singleton.1 hline]
    exact List.not_mem_nil

theorem count_flatMap_lineFeed {lines : List (List Char)} (h : ∀ line ∈ lines, '\n' ∉ line) :
    (lines.flatMap fun line => line ++ ['\n']).count '\n' = lines.length := by
  induction lines with
  | nil => rfl
  | cons line lines ih =>
    have hline : line.count '\n' = 0 := List.count_eq_zero.2 (h line List.mem_cons_self)
    rw [List.flatMap_cons, List.count_append, List.count_append, hline,
      ih fun other hother => h other (List.mem_cons_of_mem line hother), List.length_cons,
      List.count_singleton_self]
    omega

theorem getLast?_flatMap_lineFeed {lines : List (List Char)} (h : lines ≠ []) :
    (lines.flatMap fun line => line ++ ['\n']).getLast? = some '\n' := by
  obtain ⟨front, last, rfl⟩ := (List.eq_nil_or_concat lines).resolve_left h
  rw [List.concat_eq_append, List.flatMap_append, List.flatMap_singleton, ← List.append_assoc,
    List.getLast?_concat]

theorem toList_join_jsonLine (records : List Value) :
    (String.join (records.map Export.jsonLine)).toList =
      (records.map fun record => record.render.toList).flatMap fun line => line ++ ['\n'] := by
  rw [String.toList_join, List.flatMap_map, List.flatMap_map]
  congr 1
  funext record
  rw [Export.jsonLine, String.toList_append]
  rfl

theorem holdsLines_join {reader : TextReader} {records : List Value}
    (hlines : ∀ record ∈ records, '\n' ∉ record.render.toList)
    (hread : ∀ record ∈ records, reader record.render = .ok record) :
    HoldsLines reader records (String.join (records.map Export.jsonLine)) := by
  have hfree : ∀ line ∈ records.map fun record => record.render.toList, '\n' ∉ line := by
    intro line hline
    obtain ⟨record, hrecord, rfl⟩ := List.mem_map.1 hline
    exact hlines record hrecord
  refine ⟨?_, fun hne => ?_, records.map fun record => record.render.toList, ?_, ?_⟩
  · rw [toList_join_jsonLine, count_flatMap_lineFeed hfree, List.length_map]
  · have hmap : (records.map fun record => record.render.toList) ≠ [] := by simpa using hne
    rw [toList_join_jsonLine, getLast?_flatMap_lineFeed hmap]
  · rw [toList_join_jsonLine, splitOn_flatMap_lineFeed hfree]
  · rw [List.map_map]
    refine List.map_congr_left fun record hrecord => ?_
    rw [Function.comp_apply, String.ofList_toList, hread record hrecord]

theorem HoldsLines.unique {reader : TextReader} {first second : List Value} {text : String}
    (hfirst : HoldsLines reader first text) (hsecond : HoldsLines reader second text) :
    first = second := by
  obtain ⟨lines, hsplit, hread⟩ := hfirst.exists_lines
  obtain ⟨others, hsplit', hread'⟩ := hsecond.exists_lines
  rw [hsplit] at hsplit'
  rw [List.append_cancel_right hsplit'] at hread
  have hrecords := hread.symm.trans hread'
  exact (List.map_injective_iff.2 fun _ _ => Except.ok.inj) hrecords

/-! Records -/

def textOrNull : Option String → Value
  | some text => .string text
  | none => .null

/-- A member that stands only where there is a text for it. -/
def memberIfGiven (key : String) : Option String → List (String × Value)
  | some text => [(key, .string text)]
  | none => []

theorem isField_textOrNull (text : Option String) : IsField (textOrNull text) := by
  cases text with
  | none => exact .null
  | some text => exact .string text

theorem textOrNull_injective : Function.Injective textOrNull := by
  intro first second h
  cases first <;> cases second <;> cases h <;> rfl

end Json

namespace Export

open Json (textOrNull memberIfGiven HoldsLines IsField isField_textOrNull)

variable {reader : Json.TextReader}

def usageMembers (row : Usage.Row) : List (String × Json.Value) :=
  [("module", .string row.moduleName), ("version", .string row.version),
    ("source", textOrNull row.source), ("kind", .string row.kind),
    ("element", .string row.element), ("count", .number (.natural row.count))]

/-- The members of a declaration, in order. The repository and the digest stand only if given. -/
def Origin.members (origin : Origin) (declaration : Declaration) : List (String × Json.Value) :=
  memberIfGiven "repo_name" origin.repository ++
    ([("module", .string declaration.name), ("type", .string declaration.kind.label),
        ("source", textOrNull declaration.source?),
        ("version", .string declaration.version.render)] ++
      memberIfGiven "md5" origin.md5)

theorem usageJson_eq (row : Usage.Row) : usageJson row = .object (usageMembers row) := by
  obtain ⟨moduleName, version, source, kind, element, count⟩ := row
  cases source <;> rfl

theorem jsonRecord_eq (origin : Origin) (declaration : Declaration) :
    origin.jsonRecord declaration = .object (origin.members declaration) := by
  obtain ⟨repository, md5⟩ := origin
  unfold Origin.jsonRecord Origin.members
  cases declaration.source? <;> cases repository <;> cases md5 <;> rfl

theorem holdsLines_records
    (hreader : reader.IsFaithful) {α : Type} {members : α → List (String × Json.Value)}
    {rows : List α}
    (hfields : ∀ row ∈ rows, ∀ member ∈ members row, IsField member.2)
    (hkeys : ∀ row ∈ rows, ((members row).map Prod.fst).Nodup) :
    HoldsLines reader (rows.map fun row => .object (members row))
      (String.join ((rows.map fun row => .object (members row)).map jsonLine)) := by
  refine Json.holdsLines_join (fun record hrecord => ?_) fun record hrecord => ?_
  · obtain ⟨row, hrow, rfl⟩ := List.mem_map.1 hrecord
    exact Json.lineFeed_not_mem_render_object (hfields row hrow)
  · obtain ⟨row, hrow, rfl⟩ := List.mem_map.1 hrecord
    exact hreader.read_render_object (hfields row hrow) (hkeys row hrow)

theorem isField_usageMembers {row : Usage.Row} (h : row.count < UInt64.size) :
    ∀ member ∈ usageMembers row, IsField member.2 := by
  simp [usageMembers, isField_textOrNull, IsField.string, IsField.natural h]

theorem isField_members (origin : Origin) (declaration : Declaration) :
    ∀ member ∈ origin.members declaration, IsField member.2 := by
  obtain ⟨repository, md5⟩ := origin
  cases repository <;> cases md5 <;>
    simp [Origin.members, memberIfGiven, isField_textOrNull, IsField.string]

theorem nodup_keys_members (origin : Origin) (declaration : Declaration) :
    ((origin.members declaration).map Prod.fst).Nodup := by
  obtain ⟨repository, md5⟩ := origin
  cases repository <;> cases md5 <;> simp [Origin.members, memberIfGiven]

theorem usage_json (rows : List Usage.Row) :
    usage .json rows =
      String.join ((rows.map fun row => .object (usageMembers row)).map jsonLine) := by
  rw [usage, header, String.empty_append, List.map_map]
  refine congrArg String.join (List.map_congr_left fun row _ => ?_)
  rw [usageRow, usageJson_eq]
  rfl

theorem declarations_json (origin : Origin) (found : List Declaration) :
    declarations .json origin found =
      String.join ((found.map fun declaration => .object (origin.members declaration)).map
        jsonLine) := by
  rw [declarations, header, String.empty_append, Origin.rows, List.map_map]
  refine congrArg String.join (List.map_congr_left fun declaration _ => ?_)
  rw [Origin.row, jsonRecord_eq]
  rfl

theorem holdsLines_usage
    (hreader : reader.IsFaithful) {rows : List Usage.Row}
    (h : ∀ row ∈ rows, row.count < UInt64.size) :
    HoldsLines reader (rows.map fun row => .object (usageMembers row)) (usage .json rows) := by
  rw [usage_json]
  refine holdsLines_records hreader (fun row hrow => ?_) fun row _ => by simp [usageMembers]
  exact isField_usageMembers (h row hrow)

theorem holdsLines_declarations
    (hreader : reader.IsFaithful) (origin : Origin) (found : List Declaration) :
    HoldsLines reader (found.map fun declaration => .object (origin.members declaration))
      (declarations .json origin found) := by
  rw [declarations_json]
  exact holdsLines_records hreader (fun declaration _ => isField_members origin declaration)
    fun declaration _ => nodup_keys_members origin declaration

/-! Declarations told apart by their records -/

/-- Two declarations that differ at most in their lines, and in how the newest version is asked
for. -/
structure AgreeInRecord (first second : Declaration) : Prop where
  name : first.name = second.name
  kind : first.kind = second.kind
  location : first.location = second.location
  version : first.version.render = second.version.render

theorem version_render_eq_iff {first second : Version} :
    first.render = second.render ↔ first = second ∨
      first = .latest ∧ second = .exact "latest" ∨ first = .exact "latest" ∧ second = .latest := by
  cases first <;> cases second <;> simp [Version.render, eq_comm]

theorem label_injective : Function.Injective SourceKind.label := by
  intro first second h
  cases first <;> cases second <;> first | rfl | exact absurd h (by decide)

theorem location_eq_of_source?_eq {first second : Declaration}
    (hfirst : first.ForgeHasNoLocation) (hsecond : second.ForgeHasNoLocation)
    (hkind : first.kind = second.kind) (h : first.source? = second.source?) :
    first.location = second.location := by
  by_cases hforge : first.kind = .forge
  · rw [hfirst hforge, hsecond (hkind ▸ hforge)]
  · have hsource {declaration : Declaration} (hne : declaration.kind ≠ .forge) :
        declaration.source? = declaration.location := by
      unfold Declaration.source? Declaration.isForge
      cases declaration.location <;> simp [hne]
    rwa [hsource hforge, hsource (hkind ▸ hforge)] at h

theorem members_eq_iff {origin : Origin} {first second : Declaration}
    (hfirst : first.ForgeHasNoLocation) (hsecond : second.ForgeHasNoLocation) :
    origin.members first = origin.members second ↔ AgreeInRecord first second := by
  constructor
  · intro h
    have hmiddle := List.append_cancel_right (List.append_cancel_left h)
    simp only [List.cons.injEq, Prod.mk.injEq, Json.Value.string.injEq, true_and, and_true]
      at hmiddle
    obtain ⟨hname, hlabel, hsource, hversion⟩ := hmiddle
    have hkind := label_injective hlabel
    exact ⟨hname, hkind,
      location_eq_of_source?_eq hfirst hsecond hkind (Json.textOrNull_injective hsource), hversion⟩
  · rintro ⟨hname, hkind, hlocation, hversion⟩
    have hsource : first.source? = second.source? := by
      rw [Declaration.source?, Declaration.source?, Declaration.isForge, Declaration.isForge,
        hlocation, hkind]
    rw [Origin.members, Origin.members, hname, hkind, hsource, hversion]

theorem declarations_json_eq_iff_members {origin : Origin} {first second : List Declaration} :
    declarations .json origin first = declarations .json origin second ↔
      List.Forall₂ (fun declaration other => origin.members declaration = origin.members other)
        first second := by
  have hmap : List.Forall₂
        (fun declaration other => origin.members declaration = origin.members other)
        first second ↔ first.map origin.members = second.map origin.members := by
    rw [← @List.forall₂_eq_eq_eq (List (String × Json.Value)), List.forall₂_map_left_iff,
      List.forall₂_map_right_iff]
  have hobjects (found : List Declaration) :
      (found.map fun declaration => Json.Value.object (origin.members declaration)) =
        (found.map origin.members).map Json.Value.object := by
    rw [List.map_map]
    rfl
  rw [hmap]
  constructor
  · intro h
    have hfirst := holdsLines_declarations Json.read_isFaithful origin first
    rw [h] at hfirst
    have hrecords := hfirst.unique (holdsLines_declarations Json.read_isFaithful origin second)
    rw [hobjects, hobjects] at hrecords
    exact List.map_injective_iff.2 (fun _ _ => Json.Value.object.inj) hrecords
  · intro h
    rw [declarations_json, declarations_json, hobjects, hobjects, h]

theorem declarations_json_eq_iff {origin : Origin} {first second : List Declaration}
    (hfirst : ∀ declaration ∈ first, declaration.ForgeHasNoLocation)
    (hsecond : ∀ declaration ∈ second, declaration.ForgeHasNoLocation) :
    declarations .json origin first = declarations .json origin second ↔
      List.Forall₂ AgreeInRecord first second := by
  rw [declarations_json_eq_iff_members, List.forall₂_iff_zip, List.forall₂_iff_zip]
  refine and_congr_right fun _ => forall_congr' fun declaration => forall_congr' fun other =>
    forall_congr' fun hmem => ?_
  have hpair := List.of_mem_zip hmem
  exact members_eq_iff (hfirst declaration hpair.1) (hsecond other hpair.2)

/-- Exported JSON has one line for each record, and a faithful reader, such as that of the program,
reads each line as its record. What documents declare can be told from those lines, up to the lines
of the calls, and up to the newest version and a version that is called `latest`. -/
theorem json_lines :
    Json.TextReader.IsFaithful Json.read ∧
    (∀ reader : Json.TextReader, reader.IsFaithful →
      (∀ rows : List Usage.Row, (∀ row ∈ rows, row.count < UInt64.size) →
        HoldsLines reader (rows.map fun row => .object (usageMembers row)) (usage .json rows)) ∧
      ∀ (origin : Origin) (found : List Declaration),
        HoldsLines reader (found.map fun declaration => .object (origin.members declaration))
          (declarations .json origin found)) ∧
    (∀ (origin : Origin) (first second : List Declaration),
      (∀ declaration ∈ first ++ second, declaration.IsDeclared) →
      (declarations .json origin first = declarations .json origin second ↔
        List.Forall₂ AgreeInRecord first second)) ∧
    ∀ first second : Version, first.render = second.render ↔ first = second ∨
      first = .latest ∧ second = .exact "latest" ∨
        first = .exact "latest" ∧ second = .latest := by
  refine ⟨Json.read_isFaithful, fun reader hreader => ?_, ?_,
    fun first second => version_render_eq_iff⟩
  · exact ⟨fun rows h => holdsLines_usage hreader h, holdsLines_declarations hreader⟩
  · intro origin first second hdeclared
    exact declarations_json_eq_iff
      (fun declaration h => (hdeclared declaration (List.mem_append_left _ h)).forgeHasNoLocation)
      (fun declaration h => (hdeclared declaration (List.mem_append_right _ h)).forgeHasNoLocation)

/-- The largest count, characters that JSON escapes, and two documents that ask for the newest
version each in its own way and on its own line. -/
theorem json_lines_largest_count :
    HoldsLines Json.read
      [.object (usageMembers ⟨"a-\"b\"", "1\x00\n2", none, "class", "b\\c", 18446744073709551615⟩)]
      (usage .json [⟨"a-\"b\"", "1\x00\n2", none, "class", "b\\c", 18446744073709551615⟩]) ∧
    declarations .json ⟨some "r\n", none⟩ (Outcome.ofText {} "mod 'a'").declarations =
      declarations .json ⟨some "r\n", none⟩
        (Outcome.ofText {} "\nmod 'a', 'latest'").declarations := by
  obtain ⟨hfaithful, hlines, hdeclarations, -⟩ := json_lines
  constructor
  · exact (hlines Json.read hfaithful).1 [_] (List.forall_mem_singleton.2 (by decide))
  · refine (hdeclarations _ _ _ fun declaration h => ?_).2 ?_
    · rcases List.mem_append.1 h with h | h
      · exact ⟨_, _, h⟩
      · exact ⟨_, _, h⟩
    · have hfirst : (Outcome.ofText {} "mod 'a'").declarations =
          [⟨"a", .forge, none, .latest, 1⟩] := by decide +kernel
      have hsecond : (Outcome.ofText {} "\nmod 'a', 'latest'").declarations =
          [⟨"a", .forge, none, .exact "latest", 2⟩] := by decide +kernel
      rw [hfirst, hsecond]
      exact .cons ⟨rfl, rfl, rfl, rfl⟩ .nil

end Export

end PuppetInventory
