import PuppetInventory.FileTree.Report
import PuppetInventory.Proofs.CsvRecords
import PuppetInventory.Proofs.JsonLines

/-!
The report of a run over files. It holds the rows of every file that can be read, in order and with
the file's own origin, and a file that cannot be read leaves no trace but its count.
-/

namespace PuppetInventory

/-! Files that hold text -/

/-- A text and the repository that it was found in. -/
structure FoundText where
  repository : Option String
  text : String
deriving Repr, DecidableEq, Inhabited

namespace FoundText

def origin (found : FoundText) : Export.Origin :=
  ⟨found.repository, some (contentMd5 found.text)⟩

def outcome (settings : Settings) (found : FoundText) : Outcome :=
  .ofText settings found.text

/-- The declarations of a text, each with the text that it comes from. -/
def declared (settings : Settings) (found : FoundText) : List (FoundText × Declaration) :=
  (found.outcome settings).declarations.map fun declaration => (found, declaration)

def rows (settings : Settings) (format : Export.Format) (found : FoundText) : String :=
  found.origin.rows format (found.outcome settings).declarations

end FoundText

namespace FileSystem

def foundText? (system : FileSystem) (path : String) : Option FoundText :=
  (system.textAt? path).map fun text => ⟨system.directoryName? path, text⟩

theorem readPuppetfile_of_textAt?
    {system : FileSystem} {path text : String} (h : system.textAt? path = some text)
    (settings : Settings) :
    system.readPuppetfile settings path = .ok ⟨text, contentMd5 text, .ofText settings text⟩ := by
  unfold textAt? at h
  unfold readPuppetfile
  cases hread : system.read path with
  | error error =>
    rw [hread] at h
    cases h
  | ok bytes =>
    rw [hread] at h
    have hdecode : decodeText? bytes = some text := h
    simp only [hdecode]

theorem readPuppetfile_of_textAt?_eq_none
    {system : FileSystem} {path : String} (h : system.textAt? path = none) (settings : Settings) :
    ∃ error, system.readPuppetfile settings path = .error error := by
  unfold textAt? at h
  unfold readPuppetfile
  cases hread : system.read path with
  | error error => exact ⟨_, rfl⟩
  | ok bytes =>
    rw [hread] at h
    have hdecode : decodeText? bytes = none := h
    simp only [hdecode]
    exact ⟨_, rfl⟩

end FileSystem

/-! Reports -/

namespace Report

/-- The report that leaves out some files and takes in the texts of all others. -/
def ofFound
    (settings : Settings) (format : Export.Format) (skipped : Nat) (found : List FoundText) :
    Report where
  output :=
    Export.header format Export.declarationHeader ++
      String.join (found.map (FoundText.rows settings format))
  summary :=
    { files := found.length
      skipped := skipped
      declarations := (found.map fun text => (text.outcome settings).declarations.length).sum
      diagnostics := (found.map fun text => (text.outcome settings).diagnostics.length).sum }

/-- The report on the files that paths lead to. -/
def ofPaths
    (system : FileSystem) (settings : Settings) (format : Export.Format) (paths : List String) :
    Report :=
  ofCandidates format (paths.map (system.candidate settings))

variable {system : FileSystem} {settings : Settings} {format : Export.Format}

theorem ofFound_concat (skipped : Nat) (found : List FoundText) (text : FoundText) :
    ofFound settings format skipped (found ++ [text]) =
      { output := (ofFound settings format skipped found).output ++ text.rows settings format
        summary :=
          (ofFound settings format skipped found).summary.addOutcome (text.outcome settings) } := by
  simp [ofFound, Summary.addOutcome, String.append_assoc]

theorem add_of_textAt?
    {path text : String} (h : system.textAt? path = some text) (skipped : Nat)
    (found : List FoundText) :
    add format (ofFound settings format skipped found) (system.candidate settings path) =
      ofFound settings format skipped (found ++ [⟨system.directoryName? path, text⟩]) := by
  simp only [add, FileSystem.candidate, FileSystem.readPuppetfile_of_textAt? h]
  exact (ofFound_concat skipped found ⟨system.directoryName? path, text⟩).symm

theorem add_of_textAt?_eq_none
    {path : String} (h : system.textAt? path = none) (skipped : Nat) (found : List FoundText) :
    add format (ofFound settings format skipped found) (system.candidate settings path) =
      ofFound settings format (skipped + 1) found := by
  obtain ⟨error, herror⟩ := FileSystem.readPuppetfile_of_textAt?_eq_none h settings
  simp only [add, FileSystem.candidate, herror]
  rfl

theorem foldl_add (paths : List String) (skipped : Nat) (found : List FoundText) :
    (paths.map (system.candidate settings)).foldl (add format)
        (ofFound settings format skipped found) =
      ofFound settings format
        (skipped + paths.countP fun path => (system.textAt? path).isNone)
        (found ++ paths.filterMap system.foundText?) := by
  induction paths generalizing skipped found with
  | nil => simp
  | cons path paths ih =>
    rw [List.map_cons, List.foldl_cons]
    cases htext : system.textAt? path with
    | none =>
      have hfound : system.foundText? path = none := by rw [FileSystem.foundText?, htext]; rfl
      rw [add_of_textAt?_eq_none htext, ih, List.filterMap_cons_none hfound, List.countP_cons,
        htext, Option.isNone_none, if_pos rfl, Nat.add_assoc, Nat.add_comm 1]
    | some text =>
      have hfound : system.foundText? path = some ⟨system.directoryName? path, text⟩ := by
        rw [FileSystem.foundText?, htext]
        rfl
      rw [add_of_textAt? htext, ih, List.filterMap_cons_some hfound, List.countP_cons, htext,
        List.append_assoc]
      rfl

theorem ofPaths_eq_ofFound (paths : List String) :
    ofPaths system settings format paths =
      ofFound settings format (paths.countP fun path => (system.textAt? path).isNone)
        (paths.filterMap system.foundText?) := by
  have hstart : start format = ofFound settings format 0 [] := by
    simp [start, ofFound, Summary.zero]
  rw [ofPaths, ofCandidates, hstart, foldl_add, Nat.zero_add, List.nil_append]

/-! Written rows -/

/-- The records of `rows` are all that a reader finds in a text, behind the header if it has one. -/
def HoldsRows (format : Export.Format) (rows : List (FoundText × Declaration)) (text : String) :
    Prop :=
  match format with
  | .json =>
    Json.HoldsLines Json.read (rows.map fun row => .object (row.1.origin.members row.2)) text
  | .csv =>
    Csv.read? text = some (Export.declarationHeader :: rows.map fun row =>
      [row.1.repository.getD "", row.2.name, row.2.kind.label, row.2.source?.getD "",
        row.2.version.render, contentMd5 row.1.text])

theorem join_rows (found : List FoundText) :
    String.join (found.map (FoundText.rows settings format)) =
      String.join ((found.flatMap (FoundText.declared settings)).map fun row =>
        row.1.origin.row format row.2) := by
  induction found with
  | nil => rfl
  | cons text found ih =>
    rw [List.map_cons, String.join_cons, List.flatMap_cons, List.map_append, String.join_append, ih,
      FoundText.declared, List.map_map]
    rfl

theorem holdsRows_csv (rows : List (FoundText × Declaration)) :
    HoldsRows .csv rows (Export.header .csv Export.declarationHeader ++
      String.join (rows.map fun row => row.1.origin.row .csv row.2)) := by
  have hheader : List.Forall₂ Csv.IsFieldFor Export.declarationHeader Export.declarationHeader :=
    Csv.isFieldFor_header fun name hname =>
      Export.any_needsQuotes_of_mem_headers name (List.mem_append_right _ hname)
  have hfields (row : FoundText × Declaration) :=
    Export.isFieldFor_csvFields row.1.repository (some row.1.text) row.2
  exact Csv.read?_header_append_rows hheader (List.cons_ne_nil _ _) hfields
    (fun _ => List.cons_ne_nil _ _) rows

theorem holdsRows_json (rows : List (FoundText × Declaration)) :
    HoldsRows .json rows (Export.header .json Export.declarationHeader ++
      String.join (rows.map fun row => row.1.origin.row .json row.2)) := by
  have hlines : (rows.map fun row => row.1.origin.row .json row.2) =
      (rows.map fun row => Json.Value.object (row.1.origin.members row.2)).map Export.jsonLine := by
    rw [List.map_map]
    refine List.map_congr_left fun row _ => ?_
    rw [Export.Origin.row, Export.jsonRecord_eq]
    rfl
  rw [Export.header, String.empty_append, hlines]
  exact Export.holdsLines_records Json.read_isFaithful
    (fun row _ => Export.isField_members row.1.origin row.2)
    fun row _ => Export.nodup_keys_members row.1.origin row.2

theorem holdsRows_ofFound
    (settings : Settings) (format : Export.Format) (skipped : Nat) (found : List FoundText) :
    HoldsRows format (found.flatMap (FoundText.declared settings))
      (ofFound settings format skipped found).output := by
  rw [ofFound, join_rows]
  cases format with
  | json => exact holdsRows_json _
  | csv => exact holdsRows_csv _

theorem length_declared (found : List FoundText) :
    (found.flatMap (FoundText.declared settings)).length =
      (found.map fun text => (text.outcome settings).declarations.length).sum := by
  simp [List.length_flatMap, FoundText.declared]

/-! Runs against each other -/

theorem isSome_foundText? (system : FileSystem) (path : String) :
    (system.foundText? path).isSome = (system.textAt? path).isSome :=
  Option.isSome_map

theorem filterMap_foundText?_filter (paths : List String) :
    (paths.filter fun path => (system.textAt? path).isSome).filterMap system.foundText? =
      paths.filterMap system.foundText? := by
  rw [List.filterMap_filter]
  congr 1
  funext path
  rw [← isSome_foundText?]
  cases system.foundText? path <;> rfl

theorem countP_add_length_filterMap (paths : List String) :
    (paths.filterMap system.foundText?).length +
      (paths.countP fun path => (system.textAt? path).isNone) = paths.length := by
  induction paths with
  | nil => rfl
  | cons path paths ih =>
    have hsome := isSome_foundText? system path
    rw [List.countP_cons, List.length_cons]
    cases hfound : system.foundText? path with
    | none =>
      rw [hfound] at hsome
      rw [List.filterMap_cons_none hfound, Option.isSome_eq_false_iff.1 hsome.symm, if_pos rfl]
      omega
    | some text =>
      rw [hfound] at hsome
      rw [List.filterMap_cons_some hfound, List.length_cons,
        Option.isNone_eq_false_iff.2 hsome.symm, if_neg Bool.false_ne_true]
      omega

theorem ofPaths_append_output (paths others : List String) :
    (ofPaths system settings format (paths ++ others)).output =
      (ofPaths system settings format paths).output ++
        String.join
          ((others.filterMap system.foundText?).map (FoundText.rows settings format)) := by
  simp only [ofPaths_eq_ofFound, ofFound, List.filterMap_append, List.map_append,
    String.join_append, String.append_assoc]

theorem ofPaths_singleton_output {path text : String} (h : system.textAt? path = some text) :
    (ofPaths system settings format [path]).output =
      Export.declarations format ⟨system.directoryName? path, some (contentMd5 text)⟩
        (Outcome.ofText settings text).declarations := by
  have hfound : [path].filterMap system.foundText? = [⟨system.directoryName? path, text⟩] := by
    simp [FileSystem.foundText?, h]
  rw [ofPaths_eq_ofFound, hfound, ofFound, List.map_singleton, String.join_cons, String.join_nil,
    String.append_empty]
  rfl

/-- A rejected document among the files shows in the counts alone, as a file and a diagnostic. -/
theorem ofPaths_rejected
    (settings : Settings) (format : Export.Format) {path text : String} {line : Nat}
    (h : system.textAt? path = some text)
    (hrejected : Syntax.Document.calls text = .error line) (before after : List String) :
    let report := ofPaths system settings format (before ++ after)
    ofPaths system settings format (before ++ path :: after) =
      { report with summary := report.summary.addOutcome (.rejected line) } := by
  have hfound : system.foundText? path = some ⟨system.directoryName? path, text⟩ := by
    rw [FileSystem.foundText?, h]
    rfl
  have houtcome : FoundText.outcome settings ⟨system.directoryName? path, text⟩ = .rejected line :=
    Outcome.ofText_of_error hrejected settings
  have hrows : FoundText.rows settings format ⟨system.directoryName? path, text⟩ = "" := by
    rw [FoundText.rows, houtcome]
    rfl
  intro report
  simp only [report, ofPaths_eq_ofFound, ofFound, Summary.addOutcome, List.filterMap_append,
    List.filterMap_cons_some hfound, List.map_append, List.map_cons, List.length_append,
    List.length_cons, List.sum_append, List.sum_cons, List.countP_append, List.countP_cons, h,
    hrows, houtcome, String.join_append, String.join_cons, String.empty_append, Outcome.rejected,
    Option.isNone_some, Bool.false_eq_true, if_false, Nat.add_zero, List.length_nil, Nat.zero_add,
    mk.injEq, Summary.mk.injEq, true_and]
  omega

/-- What a run over files writes and counts is put together file by file, from the files that hold
text. The rows can be told apart again, and the files that cannot be read leave nothing else than
their number. -/
theorem ofPaths_file_by_file
    (system : FileSystem) (settings : Settings) (format : Export.Format) :
    let report := ofPaths system settings format
    let header :=
      match format with
      | .json => ""
      | .csv => "repo_name,module,type,source,version,md5\n"
    (∀ paths : List String,
      let found := paths.filterMap system.foundText?
      let rows := found.flatMap (FoundText.declared settings)
      (report paths).output = header ++ String.join (found.map (FoundText.rows settings format)) ∧
      HoldsRows format rows (report paths).output ∧
      (report paths).summary.files = found.length ∧
      (report paths).summary.files + (report paths).summary.skipped = paths.length ∧
      (report paths).summary.declarations = rows.length ∧
      (report paths).summary.diagnostics =
        (found.map fun text => (text.outcome settings).diagnostics.length).sum) ∧
    (∀ paths : List String,
      let readable := paths.filter fun path => (system.textAt? path).isSome
      (report readable).output = (report paths).output ∧
      (report readable).summary = { (report paths).summary with skipped := 0 }) ∧
    (∀ paths others : List String, ∃ rows,
      (report others).output = header ++ rows ∧
      (report (paths ++ others)).output = (report paths).output ++ rows) ∧
    (∀ path text : String, system.textAt? path = some text →
      (report [path]).output =
        Export.declarations format ⟨system.directoryName? path, some (contentMd5 text)⟩
          (Outcome.ofText settings text).declarations) ∧
    ∀ (before after : List String) (path text : String) (line : Nat),
      system.textAt? path = some text → Syntax.Document.calls text = .error line →
      let others := report (before ++ after)
      (report (before ++ path :: after)).output = others.output ∧
      (report (before ++ path :: after)).summary =
        { others.summary with
          files := others.summary.files + 1
          diagnostics := others.summary.diagnostics + 1 } := by
  intro report header
  have hheader : Export.header format Export.declarationHeader = header := by
    cases format <;> rfl
  have hreport (paths : List String) : report paths = _ := ofPaths_eq_ofFound paths
  refine ⟨fun paths => ?_, fun paths => ?_, fun paths others => ?_,
    fun path text h => ofPaths_singleton_output h,
    fun before after path text line h hrejected => ?_⟩
  · have hrows := holdsRows_ofFound settings format
      (paths.countP fun path => (system.textAt? path).isNone) (paths.filterMap system.foundText?)
    rw [hreport]
    refine ⟨?_, hrows, rfl, countP_add_length_filterMap paths, (length_declared _).symm, rfl⟩
    rw [ofFound, hheader]
  · have hnone : ((paths.filter fun path => (system.textAt? path).isSome).countP fun path =>
        (system.textAt? path).isNone) = 0 := by
      rw [List.countP_filter, List.countP_eq_zero]
      intro path _
      cases system.textAt? path <;> simp
    intro readable
    rw [hreport, hreport, filterMap_foundText?_filter, hnone]
    exact ⟨rfl, rfl⟩
  · refine ⟨_, ?_, ofPaths_append_output paths others⟩
    rw [hreport, ofFound, hheader]
  · have hreport := ofPaths_rejected settings format h hrejected before after
    intro others
    rw [show report (before ++ path :: after) = _ from hreport]
    exact ⟨rfl, rfl⟩

/-- A document, a missing file, bytes that are no text, and a document that does not read. -/
example :
    let system : FileSystem :=
      ⟨.directory [("a", .file "mod 'x'\nnode".toUTF8.toList), ("c", .file [255]),
        ("d", .file "mod 'x'\nend".toUTF8.toList)], []⟩
    (ofPaths system {} .csv ["a", "b", "c", "d"]).summary = ⟨2, 2, 1, 1⟩ := by
  decide +kernel

end Report

end PuppetInventory
