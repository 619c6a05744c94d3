import Mathlib.Data.List.Forall2
import PuppetInventory.Export.Records
import PuppetInventory.FileTree.Report

/-!
Reading comma-separated records, one character at a time, and the exported texts read back: a header
and one record for each row, every field as it was before it was written.
-/

namespace PuppetInventory.Csv

/-! The reader -/

inductive Phase where
  /-- In front of a field. -/
  | start
  /-- Inside a field that does not begin with a quote. -/
  | bare
  | quoted
  /-- Behind a quote inside quotes, which closes them or is the first of two. -/
  | closed
  /-- Behind a character that may not follow a closing quote. -/
  | broken
deriving Repr, DecidableEq, Inhabited

/-- What a reader has read: whole records, the fields of the record it is in, and the text of the
field it is in. -/
structure Scan where
  records : List (List String)
  fields : List String
  text : List Char
  phase : Phase
deriving Repr, DecidableEq, Inhabited

namespace Scan

def push (scan : Scan) (c : Char) (phase : Phase) : Scan :=
  { scan with text := scan.text ++ [c], phase := phase }

def endField (scan : Scan) : Scan :=
  { scan with fields := scan.fields ++ [String.ofList scan.text], text := [], phase := .start }

def endRecord (scan : Scan) : Scan :=
  ⟨scan.records ++ [scan.fields ++ [String.ofList scan.text]], [], [], .start⟩

def step (scan : Scan) (c : Char) : Scan :=
  match scan.phase with
  | .start =>
    if c = ',' then scan.endField
    else if c = '\n' then scan.endRecord
    else if c = '"' then { scan with phase := .quoted }
    else scan.push c .bare
  | .bare =>
    if c = ',' then scan.endField
    else if c = '\n' then scan.endRecord
    else scan.push c .bare
  | .quoted => if c = '"' then { scan with phase := .closed } else scan.push c .quoted
  | .closed =>
    if c = ',' then scan.endField
    else if c = '\n' then scan.endRecord
    else if c = '"' then scan.push c .quoted
    else { scan with phase := .broken }
  | .broken => scan

def run (scan : Scan) (chars : List Char) : Scan :=
  chars.foldl step scan

/-- The records at the end of a text, the last of which may lack its line feed. -/
def finish? (scan : Scan) : Option (List (List String)) :=
  match scan.phase with
  | .start => if scan.fields = [] then some scan.records else some scan.endRecord.records
  | .bare => some scan.endRecord.records
  | .closed => some scan.endRecord.records
  | .quoted => none
  | .broken => none

@[simp]
theorem run_nil (scan : Scan) : scan.run [] = scan := rfl

@[simp]
theorem run_cons (scan : Scan) (c : Char) (chars : List Char) :
    scan.run (c :: chars) = (scan.step c).run chars := rfl

theorem run_append (scan : Scan) (first second : List Char) :
    scan.run (first ++ second) = (scan.run first).run second :=
  List.foldl_append

end Scan

/-- The records of a text; `none` for a text with an open quote or one that goes on behind a closing
quote. -/
def read? (text : String) : Option (List (List String)) :=
  (Scan.run ⟨[], [], [], .start⟩ text.toList).finish?

/-! Written fields -/

/-- The places where a comma or a line feed ends a field. -/
def Phase.EndsField (phase : Phase) : Prop :=
  phase = .start ∨ phase = .bare ∨ phase = .closed

theorem Scan.step_comma {scan : Scan} (h : scan.phase.EndsField) :
    scan.step ',' = scan.endField := by
  rcases h with h | h | h <;> rw [step, h] <;> rfl

theorem Scan.step_lineFeed {scan : Scan} (h : scan.phase.EndsField) :
    scan.step '\n' = scan.endRecord := by
  rcases h with h | h | h <;> rw [step, h] <;> rfl

/-- A reader in front of `written` reads `text` and stands where the field may end. -/
def IsFieldFor (text written : String) : Prop :=
  ∀ records fields, ∃ phase : Phase, phase.EndsField ∧
    Scan.run ⟨records, fields, [], .start⟩ written.toList = ⟨records, fields, text.toList, phase⟩

def IsPlain (chars : List Char) : Prop :=
  ∀ c ∈ chars, needsQuotes c = false

theorem isPlain_of_any_eq_false {chars : List Char} (h : chars.any needsQuotes = false) :
    IsPlain chars := by
  simpa [IsPlain] using h

theorem ne_of_needsQuotes_eq_false {c : Char} (h : needsQuotes c = false) :
    c ≠ ',' ∧ c ≠ '"' ∧ c ≠ '\n' := by
  simpa [needsQuotes, and_assoc] using h

theorem Scan.run_bare
    (records : List (List String)) (fields : List String) (read : List Char) {chars : List Char}
    (h : IsPlain chars) :
    Scan.run ⟨records, fields, read, .bare⟩ chars = ⟨records, fields, read ++ chars, .bare⟩ := by
  induction chars generalizing read with
  | nil => rw [run_nil, List.append_nil]
  | cons c chars ih =>
    obtain ⟨hcomma, -, hfeed⟩ := ne_of_needsQuotes_eq_false (h c List.mem_cons_self)
    have hstep : Scan.step ⟨records, fields, read, .bare⟩ c =
        ⟨records, fields, read ++ [c], .bare⟩ := by
      simp only [step, if_neg hcomma, if_neg hfeed]
      rfl
    rw [run_cons, hstep, ih _ fun d hd => h d (List.mem_cons_of_mem c hd), List.append_assoc]
    rfl

theorem isFieldFor_of_isPlain {text : String} (h : IsPlain text.toList) : IsFieldFor text text := by
  intro records fields
  cases htext : text.toList with
  | nil => exact ⟨.start, .inl rfl, rfl⟩
  | cons c chars =>
    rw [htext] at h
    obtain ⟨hcomma, hquote, hfeed⟩ := ne_of_needsQuotes_eq_false (h c List.mem_cons_self)
    have hstep : Scan.step ⟨records, fields, [], .start⟩ c = ⟨records, fields, [c], .bare⟩ := by
      simp only [Scan.step, if_neg hcomma, if_neg hfeed, if_neg hquote]
      rfl
    refine ⟨.bare, .inr (.inl rfl), ?_⟩
    rw [Scan.run_cons, hstep, Scan.run_bare _ _ _ fun d hd => h d (List.mem_cons_of_mem c hd)]
    rfl

/-- Inside quotes a doubled quote is one, and everything else is itself. -/
theorem Scan.run_doubled
    (records : List (List String)) (fields : List String) (read chars : List Char) :
    Scan.run ⟨records, fields, read, .quoted⟩
        (chars.flatMap fun c => if c = '"' then ['"', '"'] else [c]) =
      ⟨records, fields, read ++ chars, .quoted⟩ := by
  induction chars generalizing read with
  | nil => rw [List.flatMap_nil, run_nil, List.append_nil]
  | cons c chars ih =>
    have hchar : Scan.run ⟨records, fields, read, .quoted⟩ (if c = '"' then ['"', '"'] else [c]) =
        ⟨records, fields, read ++ [c], .quoted⟩ := by
      by_cases hquote : c = '"'
      · rw [if_pos hquote, hquote]
        rfl
      · rw [if_neg hquote, run_cons, run_nil]
        simp only [step, if_neg hquote]
        rfl
    rw [List.flatMap_cons, run_append, hchar, ih, List.append_assoc]
    rfl

theorem isFieldFor_field (text : String) : IsFieldFor text (field text) := by
  unfold field
  split
  · intro records fields
    refine ⟨.closed, .inr (.inr rfl), ?_⟩
    have hopen : Scan.step ⟨records, fields, [], .start⟩ '"' = ⟨records, fields, [], .quoted⟩ := rfl
    rw [String.toList_ofList, quoted, List.cons_append, Scan.run_cons, hopen, Scan.run_append,
      Scan.run_doubled]
    rfl
  · next hplain =>
    exact isFieldFor_of_isPlain (isPlain_of_any_eq_false (Bool.eq_false_iff.2 hplain))

/-! Written records -/

theorem Scan.run_record
    (records : List (List String)) {texts written : List String}
    (h : List.Forall₂ IsFieldFor texts written) (hne : written ≠ []) :
    Scan.run ⟨records, [], [], .start⟩ (record written).toList =
      ⟨records ++ [texts], [], [], .start⟩ := by
  -- The fields already read stay in front of those still to come.
  suffices hrest : ∀ fields : List String,
      Scan.run ⟨records, fields, [], .start⟩ (record written).toList =
        ⟨records ++ [fields ++ texts], [], [], .start⟩ from hrest []
  induction h with
  | nil => exact absurd rfl hne
  | @cons text field texts written hfield hfields ih =>
    intro fields
    obtain ⟨phase, hphase, hrun⟩ := hfield records fields
    cases hfields with
    | nil =>
      have hrecord : (record [field]).toList = field.toList ++ ['\n'] := by
        rw [record, String.intercalate_singleton, String.toList_append]
        rfl
      rw [hrecord, run_append, hrun, run_cons, run_nil, step_lineFeed hphase, endRecord,
        String.ofList_toList]
    | @cons other next texts written _ _ =>
      have hrecord : (record (field :: next :: written)).toList =
          field.toList ++ ',' :: (record (next :: written)).toList := by
        rw [record, record, String.intercalate_cons_cons]
        simp
      rw [hrecord, run_append, hrun, run_cons, step_comma hphase, endField, String.ofList_toList,
        ih (List.cons_ne_nil _ _), List.append_assoc]
      rfl

section Rows

variable {α : Type} {texts written : α → List String}

theorem Scan.run_rows
    (hfields : ∀ row, List.Forall₂ IsFieldFor (texts row) (written row))
    (hne : ∀ row, written row ≠ []) (records : List (List String)) (rows : List α) :
    Scan.run ⟨records, [], [], .start⟩
        (String.join (rows.map fun row => record (written row))).toList =
      ⟨records ++ rows.map texts, [], [], .start⟩ := by
  induction rows generalizing records with
  | nil =>
    rw [List.map_nil, List.map_nil, List.append_nil]
    rfl
  | cons row rows ih =>
    rw [List.map_cons, List.map_cons, String.join_cons, String.toList_append, run_append,
      run_record records (hfields row) (hne row), ih, List.append_assoc]
    rfl

/-- A header and rows whose fields are in written form read as the header and the rows. -/
theorem read?_header_append_rows
    {header : List String} (hheader : List.Forall₂ IsFieldFor header header)
    (hheaderNe : header ≠ []) (hfields : ∀ row, List.Forall₂ IsFieldFor (texts row) (written row))
    (hne : ∀ row, written row ≠ []) (rows : List α) :
    read? (record header ++ String.join (rows.map fun row => record (written row))) =
      some (header :: rows.map texts) := by
  rw [read?, String.toList_append, Scan.run_append, Scan.run_record [] hheader hheaderNe,
    Scan.run_rows hfields hne]
  rfl

end Rows

/-! Fields that are written as they are -/

theorem isPlain_digits (n : Nat) : IsPlain (toString n).toList := by
  intro c hc
  have hdigit : c.isDigit = true :=
    Nat.isDigit_of_mem_toDigits (by decide) (by decide) (Nat.toList_repr ▸ hc)
  have hne : c ≠ ',' ∧ c ≠ '"' ∧ c ≠ '\n' := by
    refine ⟨?_, ?_, ?_⟩ <;> rintro rfl <;> simp at hdigit
  simp [needsQuotes, hne]

theorem isPlain_label (kind : SourceKind) : IsPlain kind.label.toList := by
  apply isPlain_of_any_eq_false
  cases kind <;> decide

theorem needsQuotes_digitChar : ∀ n < 16, needsQuotes (Nat.digitChar n) = false := by
  decide

theorem isPlain_contentMd5 (text : String) : IsPlain (contentMd5 text).toList := by
  intro c hc
  rw [contentMd5, Digest.Md5.toHex, String.toList_ofList, List.mem_flatMap] at hc
  obtain ⟨byte, -, hdigit⟩ := hc
  have hbyte : byte.toNat < 256 := byte.toNat_lt
  simp only [Digest.Md5.hexDigits, List.mem_cons, List.not_mem_nil, or_false] at hdigit
  rcases hdigit with rfl | rfl
  · exact needsQuotes_digitChar _ (by omega)
  · exact needsQuotes_digitChar _ (by omega)

theorem isPlain_digest (document : Option String) :
    IsPlain ((document.map contentMd5).getD "").toList := by
  cases document with
  | none => exact fun c hc => absurd hc List.not_mem_nil
  | some text => exact isPlain_contentMd5 text

theorem isFieldFor_header
    {header : List String} (h : ∀ name ∈ header, name.toList.any needsQuotes = false) :
    List.Forall₂ IsFieldFor header header := by
  rw [List.forall₂_same]
  intro name hname
  exact isFieldFor_of_isPlain (isPlain_of_any_eq_false (h name hname))

end PuppetInventory.Csv

namespace PuppetInventory.Export

open Csv

theorem any_needsQuotes_of_mem_headers :
    ∀ name ∈ usageHeader ++ declarationHeader, name.toList.any needsQuotes = false := by
  decide

theorem isFieldFor_usageFields (row : Usage.Row) :
    List.Forall₂ IsFieldFor
      [row.moduleName, row.version, row.source.getD "", row.kind, row.element, toString row.count]
      (usageFields row) := by
  have hcount := isFieldFor_of_isPlain (isPlain_digits row.count)
  exact .cons (isFieldFor_field _) (.cons (isFieldFor_field _) (.cons (isFieldFor_field _)
    (.cons (isFieldFor_field _) (.cons (isFieldFor_field _) (.cons hcount .nil)))))

theorem isFieldFor_csvFields
    (repository document : Option String) (declaration : Declaration) :
    List.Forall₂ IsFieldFor
      [repository.getD "", declaration.name, declaration.kind.label, declaration.source?.getD "",
        declaration.version.render, (document.map contentMd5).getD ""]
      (Origin.csvFields ⟨repository, document.map contentMd5⟩ declaration) := by
  have hlabel := isFieldFor_of_isPlain (isPlain_label declaration.kind)
  have hdigest := isFieldFor_of_isPlain (isPlain_digest document)
  exact .cons (isFieldFor_field _) (.cons (isFieldFor_field _) (.cons hlabel
    (.cons (isFieldFor_field _) (.cons (isFieldFor_field _) (.cons hdigest .nil)))))

/-- Exported records read back as they were: the six columns, and for each row its six fields. An
absent source, repository or digest reads as the empty text. -/
theorem read?_csv :
    (∀ rows : List Usage.Row,
      read? (usage .csv rows) =
        some (["module", "version", "source", "kind", "element", "count"] ::
          rows.map fun row =>
            [row.moduleName, row.version, row.source.getD "", row.kind, row.element,
              toString row.count])) ∧
    ∀ (repository document : Option String) (found : List Declaration),
      read? (declarations .csv ⟨repository, document.map contentMd5⟩ found) =
        some (["repo_name", "module", "type", "source", "version", "md5"] ::
          found.map fun declaration =>
            [repository.getD "", declaration.name, declaration.kind.label,
              declaration.source?.getD "", declaration.version.render,
              (document.map contentMd5).getD ""]) := by
  constructor
  · intro rows
    have hheader : List.Forall₂ IsFieldFor usageHeader usageHeader :=
      isFieldFor_header fun name hname =>
        any_needsQuotes_of_mem_headers name (List.mem_append_left _ hname)
    exact read?_header_append_rows hheader (List.cons_ne_nil _ _) isFieldFor_usageFields
      (fun _ => List.cons_ne_nil _ _) rows
  · intro repository document found
    have hheader : List.Forall₂ IsFieldFor declarationHeader declarationHeader :=
      isFieldFor_header fun name hname =>
        any_needsQuotes_of_mem_headers name (List.mem_append_right _ hname)
    exact read?_header_append_rows hheader (List.cons_ne_nil _ _)
      (isFieldFor_csvFields repository document) (fun _ => List.cons_ne_nil _ _) found

end PuppetInventory.Export
