import Mathlib.Algebra.Ring.Nat
import PuppetInventory.Proofs.CsvRecords

/-!
Exported records for a reader that takes a carriage return, a line feed, or both, for the end of a
record. Fields with commas, quotes and line feeds stand in quotes, but those that hold a carriage
return and none of these do not, and each such carriage return ends one record more.
-/

namespace PuppetInventory.Csv

/-! The reader -/

instance (phase : Phase) : Decidable phase.EndsField :=
  inferInstanceAs (Decidable (phase = .start ∨ phase = .bare ∨ phase = .closed))

/-- A reader that ends a record at any line break. -/
structure BreakScan where
  scan : Scan
  /-- Whether the character before was a carriage return that ended a record. -/
  returned : Bool
deriving Repr, DecidableEq, Inhabited

namespace BreakScan

def step (reader : BreakScan) (c : Char) : BreakScan :=
  if reader.returned ∧ c = '\n' then { reader with returned := false }
  else if c = '\r' ∧ reader.scan.phase.EndsField then ⟨reader.scan.endRecord, true⟩
  else ⟨reader.scan.step c, false⟩

def run (reader : BreakScan) (chars : List Char) : BreakScan :=
  chars.foldl step reader

@[simp]
theorem run_nil (reader : BreakScan) : reader.run [] = reader := rfl

@[simp]
theorem run_cons (reader : BreakScan) (c : Char) (chars : List Char) :
    reader.run (c :: chars) = (reader.step c).run chars := rfl

theorem run_append (reader : BreakScan) (first second : List Char) :
    reader.run (first ++ second) = (reader.run first).run second :=
  List.foldl_append

end BreakScan

/-- The records of a text in which any line break outside quotes ends one. -/
def readBreaks? (text : String) : Option (List (List String)) :=
  (BreakScan.run ⟨⟨[], [], [], .start⟩, false⟩ text.toList).scan.finish?

/-! Fields -/

/-- The carriage returns of a field that is written without quotes. -/
def exposed (text : String) : Nat :=
  if field text = text then text.toList.count '\r' else 0

theorem field_of_isPlain {text : String} (h : IsPlain text.toList) : field text = text := by
  have hplain : ¬text.toList.any needsQuotes = true := by
    rw [List.any_eq_true]
    rintro ⟨c, hc, hquotes⟩
    rw [h c hc] at hquotes
    cases hquotes
  rw [field, if_neg hplain]

theorem field_of_not_isPlain {text : String} (h : ¬IsPlain text.toList) :
    field text = String.ofList (quoted text.toList) := by
  have hany : text.toList.any needsQuotes = true := by
    by_contra hnone
    exact h (isPlain_of_any_eq_false (Bool.eq_false_iff.2 hnone))
  rw [field, if_pos hany]

theorem length_lt_quoted (chars : List Char) : chars.length < (quoted chars).length := by
  have hdoubled : chars.length ≤
      (chars.flatMap fun c => if c = '"' then ['"', '"'] else [c]).length := by
    induction chars with
    | nil => exact Nat.le_refl 0
    | cons c chars ih =>
      have hchar : 1 ≤ (if c = '"' then ['"', '"'] else [c]).length := by split <;> simp
      rw [List.flatMap_cons, List.length_append, List.length_cons]
      omega
  rw [quoted, List.length_append, List.length_cons, List.length_singleton]
  omega

/-- A field is written as it is exactly if it is plain. -/
theorem field_eq_self_iff {text : String} : field text = text ↔ IsPlain text.toList := by
  constructor
  · intro h
    by_contra hplain
    rw [field_of_not_isPlain hplain] at h
    have hlength := congrArg (fun text => text.toList.length) h
    have hlonger := length_lt_quoted text.toList
    rw [String.toList_ofList] at hlength
    omega
  · exact field_of_isPlain

theorem isPlain_iff {chars : List Char} :
    IsPlain chars ↔ ',' ∉ chars ∧ '"' ∉ chars ∧ '\n' ∉ chars := by
  constructor
  · intro h
    refine ⟨?_, ?_, ?_⟩ <;> intro hmem <;> exact absurd (h _ hmem) (by decide)
  · rintro ⟨hcomma, hquote, hfeed⟩ c hc
    have hne : c ≠ ',' ∧ c ≠ '"' ∧ c ≠ '\n' :=
      ⟨fun h => hcomma (h ▸ hc), fun h => hquote (h ▸ hc), fun h => hfeed (h ▸ hc)⟩
    simp [needsQuotes, hne]

theorem exposed_eq_zero_iff {text : String} :
    exposed text = 0 ↔ ('\r' ∈ text.toList → field text ≠ text) := by
  unfold exposed
  split
  · next h =>
    rw [List.count_eq_zero]
    exact ⟨fun hnone hmem => absurd hmem hnone, fun hquoted hmem => hquoted hmem h⟩
  · next h => exact ⟨fun _ _ => h, fun _ => rfl⟩

namespace BreakScan

variable {records : List (List String)} {fields : List String} {scan : Scan} {c : Char}

theorem step_of_ne_return (hc : c ≠ '\r') : step ⟨scan, false⟩ c = ⟨scan.step c, false⟩ := by
  simp [step, hc]

theorem step_of_quoted (h : scan.phase = .quoted) (c : Char) :
    step ⟨scan, false⟩ c = ⟨scan.step c, false⟩ := by
  have hinside : ¬scan.phase.EndsField := by
    rw [h]
    decide
  simp [step, hinside]

theorem step_comma {reader : BreakScan} (h : reader.scan.phase.EndsField) :
    reader.step ',' = ⟨reader.scan.endField, false⟩ := by
  simp [step, Scan.step_comma h]

theorem step_lineFeed (h : scan.phase.EndsField) :
    step ⟨scan, false⟩ '\n' = ⟨scan.endRecord, false⟩ := by
  rw [step_of_ne_return (by decide), Scan.step_lineFeed h]

/-- Without carriage returns there is nothing that this reader takes differently. -/
theorem run_of_not_mem {chars : List Char} (h : '\r' ∉ chars) (scan : Scan) :
    run ⟨scan, false⟩ chars = ⟨scan.run chars, false⟩ := by
  induction chars generalizing scan with
  | nil => rfl
  | cons c chars ih =>
    rw [List.mem_cons, not_or] at h
    rw [run_cons, step_of_ne_return (Ne.symm h.1), ih h.2, Scan.run_cons]

theorem run_doubled (read chars : List Char) :
    run ⟨⟨records, fields, read, .quoted⟩, false⟩
        (chars.flatMap fun c => if c = '"' then ['"', '"'] else [c]) =
      ⟨⟨records, fields, read ++ chars, .quoted⟩, false⟩ := by
  induction chars generalizing read with
  | nil => rw [List.flatMap_nil, run_nil, List.append_nil]
  | cons c chars ih =>
    have hchar : run ⟨⟨records, fields, read, .quoted⟩, false⟩
        (if c = '"' then ['"', '"'] else [c]) =
          ⟨⟨records, fields, read ++ [c], .quoted⟩, false⟩ := by
      by_cases hquote : c = '"'
      · rw [if_pos hquote, hquote]
        rfl
      · rw [if_neg hquote, run_cons, run_nil, step_of_quoted rfl]
        simp only [Scan.step, if_neg hquote]
        rfl
    rw [List.flatMap_cons, run_append, hchar, ih, List.append_assoc]
    rfl

theorem run_quoted (chars : List Char) :
    run ⟨⟨records, fields, [], .start⟩, false⟩ (quoted chars) =
      ⟨⟨records, fields, chars, .closed⟩, false⟩ := by
  have hopen : step ⟨⟨records, fields, [], .start⟩, false⟩ '"' =
      ⟨⟨records, fields, [], .quoted⟩, false⟩ := rfl
  rw [quoted, List.cons_append, run_cons, hopen, run_append, run_doubled]
  rfl

/-- In a field without quotes each carriage return ends a record, and nothing else does. -/
theorem run_plain {chars : List Char} (h : IsPlain chars) (reader : BreakScan)
    (hphase : reader.scan.phase = .start ∨ reader.scan.phase = .bare) :
    ((reader.run chars).scan.phase = .start ∨ (reader.run chars).scan.phase = .bare) ∧
      (reader.run chars).scan.records.length =
        reader.scan.records.length + chars.count '\r' := by
  induction chars generalizing reader with
  | nil => exact ⟨hphase, rfl⟩
  | cons c chars ih =>
    obtain ⟨hcomma, hquote, hfeed⟩ := ne_of_needsQuotes_eq_false (h c List.mem_cons_self)
    have hrest : IsPlain chars := fun d hd => h d (List.mem_cons_of_mem c hd)
    have hends : reader.scan.phase.EndsField := hphase.elim .inl fun h => .inr (.inl h)
    by_cases hreturn : c = '\r'
    · have hstep : reader.step c = ⟨reader.scan.endRecord, true⟩ := by
        simp [step, hreturn, hends]
      obtain ⟨hafter, hlength⟩ := ih hrest (reader.step c) (by rw [hstep]; exact .inl rfl)
      rw [run_cons]
      refine ⟨hafter, ?_⟩
      rw [hlength, hstep, hreturn, List.count_cons_self, Scan.endRecord, List.length_append,
        List.length_singleton]
      omega
    · have hstep : reader.step c = ⟨reader.scan.push c .bare, false⟩ := by
        rcases hphase with hphase | hphase <;>
          simp [step, hfeed, hreturn, Scan.step, hphase, hcomma, hquote]
      obtain ⟨hafter, hlength⟩ := ih hrest (reader.step c) (by rw [hstep]; exact .inr rfl)
      rw [run_cons]
      refine ⟨hafter, ?_⟩
      rw [hlength, hstep, List.count_cons_of_ne hreturn]
      rfl

/-- A written field ends as many records as it has carriage returns outside quotes. If it has none,
it is read as it was. -/
theorem run_field (records : List (List String)) (fields : List String) (text : String) :
    ∃ reader : BreakScan,
      run ⟨⟨records, fields, [], .start⟩, false⟩ (field text).toList = reader ∧
      reader.scan.phase.EndsField ∧
      reader.scan.records.length = records.length + exposed text ∧
      (exposed text = 0 → ∃ phase : Phase, phase.EndsField ∧
        reader = ⟨⟨records, fields, text.toList, phase⟩, false⟩) := by
  refine ⟨_, rfl, ?_⟩
  by_cases hplain : IsPlain text.toList
  · have hfield : field text = text := field_of_isPlain hplain
    have hexposed : exposed text = text.toList.count '\r' := if_pos hfield
    obtain ⟨hphase, hlength⟩ := run_plain hplain ⟨⟨records, fields, [], .start⟩, false⟩ (.inl rfl)
    rw [hfield]
    refine ⟨hphase.elim .inl fun h => .inr (.inl h), ?_, fun hzero => ?_⟩
    · rw [hlength, hexposed]
    · have hnone : '\r' ∉ text.toList := List.count_eq_zero.1 (hexposed ▸ hzero)
      obtain ⟨phase, hends, hrun⟩ := isFieldFor_of_isPlain hplain records fields
      refine ⟨phase, hends, ?_⟩
      rw [run_of_not_mem hnone, hrun]
  · have hfield : field text = String.ofList (quoted text.toList) := field_of_not_isPlain hplain
    have hexposed : exposed text = 0 := if_neg fun h => hplain (field_eq_self_iff.1 h)
    rw [hfield, String.toList_ofList, run_quoted, hexposed]
    exact ⟨.inr (.inr rfl), rfl, fun _ => ⟨.closed, .inr (.inr rfl), rfl⟩⟩

end BreakScan

/-! Tables -/

/-- The last field of a record holds no carriage return, so that none comes before its line feed. -/
def EndsWithoutReturn (texts : List String) : Prop :=
  ∃ front last, texts = front ++ [last] ∧ '\r' ∉ last.toList

/-- The carriage returns outside quotes in a record. -/
def exposedIn (texts : List String) : Nat :=
  (texts.map exposed).sum

/-- Records with their fields as they are written. -/
def written (table : List (List String)) : String :=
  String.join (table.map fun texts => record (texts.map field))

theorem exposedIn_eq_zero_iff {texts : List String} :
    exposedIn texts = 0 ↔ ∀ text ∈ texts, '\r' ∈ text.toList → field text ≠ text := by
  rw [exposedIn, List.sum_eq_zero_iff_forall_eq_nat, List.forall_mem_map]
  exact forall₂_congr fun text _ => exposed_eq_zero_iff

namespace BreakScan

theorem run_record (front : List String) {last : String} (hlast : '\r' ∉ last.toList)
    (records : List (List String)) (fields : List String) :
    ∃ found, run ⟨⟨records, fields, [], .start⟩, false⟩
        (record ((front ++ [last]).map field)).toList = ⟨⟨found, [], [], .start⟩, false⟩ ∧
      found.length = records.length + 1 + exposedIn (front ++ [last]) ∧
      (exposedIn (front ++ [last]) = 0 → found = records ++ [fields ++ (front ++ [last])]) := by
  -- Each field but the last is read up to its comma, with the records that it ended.
  induction front generalizing records fields with
  | nil =>
    have hzero : exposed last = 0 := exposed_eq_zero_iff.2 fun hmem => absurd hmem hlast
    have hexposed : exposedIn ([] ++ [last]) = 0 := by simp [exposedIn, hzero]
    obtain ⟨reader, hrun, -, -, hread⟩ := run_field records fields last
    obtain ⟨phase, hphase, rfl⟩ := hread hzero
    have hrecord : (record (([] ++ [last]).map field)).toList = (field last).toList ++ ['\n'] := by
      rw [record, List.nil_append, List.map_singleton, String.intercalate_singleton,
        String.toList_append]
      rfl
    refine ⟨records ++ [fields ++ [last]], ?_, ?_, fun _ => rfl⟩
    · rw [hrecord, run_append, hrun, run_cons, run_nil, step_lineFeed hphase, Scan.endRecord,
        String.ofList_toList]
    · rw [hexposed, List.length_append, List.length_singleton]
  | cons text front ih =>
    obtain ⟨reader, hrun, hphase, hlength, hread⟩ := run_field records fields text
    obtain ⟨found, hrest, hfound, hall⟩ := ih reader.scan.records
      (reader.scan.fields ++ [String.ofList reader.scan.text])
    have hrecord : (record ((text :: front ++ [last]).map field)).toList =
        (field text).toList ++ ',' :: (record ((front ++ [last]).map field)).toList := by
      cases front <;> simp [record, String.intercalate_cons_cons]
    have hexposed : exposedIn (text :: front ++ [last]) =
        exposed text + exposedIn (front ++ [last]) := rfl
    refine ⟨found, ?_, by omega, fun hzero => ?_⟩
    · rw [hrecord, run_append, hrun, run_cons, step_comma hphase]
      exact hrest
    · rw [hexposed, Nat.add_eq_zero_iff] at hzero
      obtain ⟨phase, -, hreader⟩ := hread hzero.1
      rw [hall hzero.2, hreader]
      simp

theorem run_written {table : List (List String)} (h : ∀ texts ∈ table, EndsWithoutReturn texts)
    (records : List (List String)) :
    ∃ found, run ⟨⟨records, [], [], .start⟩, false⟩ (written table).toList =
        ⟨⟨found, [], [], .start⟩, false⟩ ∧
      found.length = records.length + table.length + (table.map exposedIn).sum ∧
      ((table.map exposedIn).sum = 0 → found = records ++ table) := by
  induction table generalizing records with
  | nil => exact ⟨records, rfl, rfl, fun _ => (List.append_nil records).symm⟩
  | cons texts table ih =>
    obtain ⟨front, last, rfl, hlast⟩ := h texts List.mem_cons_self
    obtain ⟨first, hrun, hfirst, hone⟩ := run_record front hlast records []
    obtain ⟨found, hrest, hfound, hall⟩ :=
      ih (fun other hother => h other (List.mem_cons_of_mem _ hother)) first
    have hsum : (((front ++ [last]) :: table).map exposedIn).sum =
        exposedIn (front ++ [last]) + (table.map exposedIn).sum := rfl
    refine ⟨found, ?_, ?_, fun hzero => ?_⟩
    · rw [written, List.map_cons, String.join_cons, String.toList_append, run_append, hrun]
      exact hrest
    · rw [List.length_cons]
      omega
    · rw [hsum, Nat.add_eq_zero_iff] at hzero
      rw [hall hzero.2, hone hzero.1, List.append_assoc]
      rfl

end BreakScan

/-- What the reader finds in the text of a table: one record more than the table has for each
carriage return outside quotes, and so the table itself exactly if there is none. -/
def ReadsUpToReturns (table : List (List String)) (text : String) : Prop :=
  ∃ records, readBreaks? text = some records ∧
    records.length = table.length + (table.map exposedIn).sum ∧
    (records = table ↔
      ∀ texts ∈ table, ∀ text ∈ texts, '\r' ∈ text.toList → field text ≠ text)

theorem readsUpToReturns_written {table : List (List String)}
    (h : ∀ texts ∈ table, EndsWithoutReturn texts) : ReadsUpToReturns table (written table) := by
  obtain ⟨found, hrun, hlength, hall⟩ := BreakScan.run_written h []
  rw [List.length_nil, Nat.zero_add] at hlength
  have hzero : (table.map exposedIn).sum = 0 ↔
      ∀ texts ∈ table, ∀ text ∈ texts, '\r' ∈ text.toList → field text ≠ text := by
    rw [List.sum_eq_zero_iff_forall_eq_nat, List.forall_mem_map]
    exact forall₂_congr fun texts _ => exposedIn_eq_zero_iff
  refine ⟨found, ?_, hlength, ?_⟩
  · rw [readBreaks?, hrun]
    rfl
  · rw [← hzero]
    constructor
    · rintro rfl
      omega
    · exact hall

/-! Texts without carriage returns -/

theorem return_not_mem_digits (n : Nat) : '\r' ∉ (toString n).toList := by
  intro hmem
  have hdigit : '\r'.isDigit = true :=
    Nat.isDigit_of_mem_toDigits (by decide) (by decide) (Nat.toList_repr ▸ hmem)
  exact absurd hdigit (by decide)

theorem return_ne_digitChar : ∀ n < 16, '\r' ≠ Nat.digitChar n := by
  decide

theorem return_not_mem_digest (document : Option String) :
    '\r' ∉ ((document.map contentMd5).getD "").toList := by
  cases document with
  | none => exact List.not_mem_nil
  | some text =>
    intro hmem
    have hdigits : '\r' ∈ (contentMd5 text).toList := hmem
    rw [contentMd5, Digest.Md5.toHex, String.toList_ofList, List.mem_flatMap] at hdigits
    obtain ⟨byte, -, hdigit⟩ := hdigits
    have hbyte : byte.toNat < 256 := byte.toNat_lt
    simp only [Digest.Md5.hexDigits, List.mem_cons, List.not_mem_nil, or_false] at hdigit
    rcases hdigit with hdigit | hdigit
    · exact return_ne_digitChar _ (by omega) hdigit
    · exact return_ne_digitChar _ (by omega) hdigit

end PuppetInventory.Csv

namespace PuppetInventory

namespace Export

open Csv

/-- The fields of a usage row, as texts. -/
def usageTexts (row : Usage.Row) : List String :=
  [row.moduleName, row.version, row.source.getD "", row.kind, row.element, toString row.count]

/-- The fields of a declaration of a document, as texts. -/
def declarationTexts (repository document : Option String) (declaration : Declaration) :
    List String :=
  [repository.getD "", declaration.name, declaration.kind.label, declaration.source?.getD "",
    declaration.version.render, (document.map contentMd5).getD ""]

theorem map_field_header {header : List String}
    (h : ∀ name ∈ header, name.toList.any needsQuotes = false) : header.map field = header := by
  have hself : ∀ name ∈ header, field name = name := fun name hname =>
    field_of_isPlain (isPlain_of_any_eq_false (h name hname))
  rw [List.map_congr_left hself, List.map_id']

theorem usage_csv_eq_written (rows : List Usage.Row) :
    usage .csv rows = written (usageHeader :: rows.map usageTexts) := by
  have hheader : usageHeader.map field = usageHeader := map_field_header fun name hname =>
    any_needsQuotes_of_mem_headers name (List.mem_append_left _ hname)
  have hrow (row : Usage.Row) : (usageTexts row).map field = usageFields row := by
    simp only [usageTexts, usageFields, List.map_cons, List.map_nil,
      field_of_isPlain (isPlain_digits row.count)]
  rw [usage, written, List.map_cons, String.join_cons, hheader, List.map_map]
  simp only [Function.comp_def, hrow]
  rfl

theorem declarations_csv_eq_written
    (repository document : Option String) (found : List Declaration) :
    declarations .csv ⟨repository, document.map contentMd5⟩ found =
      written (declarationHeader :: found.map (declarationTexts repository document)) := by
  have hheader : declarationHeader.map field = declarationHeader :=
    map_field_header fun name hname =>
      any_needsQuotes_of_mem_headers name (List.mem_append_right _ hname)
  have hrow (declaration : Declaration) :
      (declarationTexts repository document declaration).map field =
        Origin.csvFields ⟨repository, document.map contentMd5⟩ declaration := by
    simp only [declarationTexts, Origin.csvFields, List.map_cons, List.map_nil,
      field_of_isPlain (isPlain_label declaration.kind), field_of_isPlain (isPlain_digest document)]
  rw [declarations, written, List.map_cons, String.join_cons, hheader, List.map_map]
  simp only [Function.comp_def, hrow]
  rfl

theorem endsWithoutReturn_header :
    EndsWithoutReturn usageHeader ∧ EndsWithoutReturn declarationHeader :=
  ⟨⟨["module", "version", "source", "kind", "element"], "count", rfl, by decide⟩,
    ⟨["repo_name", "module", "type", "source", "version"], "md5", rfl, by decide⟩⟩

theorem endsWithoutReturn_usageTexts (row : Usage.Row) : EndsWithoutReturn (usageTexts row) :=
  ⟨[row.moduleName, row.version, row.source.getD "", row.kind, row.element], _, rfl,
    return_not_mem_digits row.count⟩

theorem endsWithoutReturn_declarationTexts
    (repository document : Option String) (declaration : Declaration) :
    EndsWithoutReturn (declarationTexts repository document declaration) :=
  ⟨[repository.getD "", declaration.name, declaration.kind.label, declaration.source?.getD "",
    declaration.version.render], _, rfl, return_not_mem_digest document⟩

/-- Fields without quotes hold no commas, quotes and line feeds, but may hold carriage returns. A
reader that ends records at these too finds the header and the rows exactly if no field without
quotes has one, and otherwise as many records more as there are such carriage returns. -/
theorem csv_readsUpToReturns
    (text : String) (rows : List Usage.Row) (repository document : Option String)
    (found : List Declaration) :
    (field text = text ↔ ',' ∉ text.toList ∧ '"' ∉ text.toList ∧ '\n' ∉ text.toList) ∧
      ReadsUpToReturns (usageHeader :: rows.map usageTexts) (usage .csv rows) ∧
      ReadsUpToReturns (declarationHeader :: found.map (declarationTexts repository document))
        (declarations .csv ⟨repository, document.map contentMd5⟩ found) := by
  refine ⟨field_eq_self_iff.trans isPlain_iff, ?_, ?_⟩
  · rw [usage_csv_eq_written]
    refine readsUpToReturns_written fun texts htexts => ?_
    rcases List.mem_cons.1 htexts with rfl | htexts
    · exact endsWithoutReturn_header.1
    · obtain ⟨row, -, rfl⟩ := List.mem_map.1 htexts
      exact endsWithoutReturn_usageTexts row
  · rw [declarations_csv_eq_written]
    refine readsUpToReturns_written fun texts htexts => ?_
    rcases List.mem_cons.1 htexts with rfl | htexts
    · exact endsWithoutReturn_header.2
    · obtain ⟨declaration, -, rfl⟩ := List.mem_map.1 htexts
      exact endsWithoutReturn_declarationTexts repository document declaration

end Export

/-- The carriage return that an escape in the name of a module stands for ends a record. -/
theorem Outcome.csv_forged_by_return :
    let found := (Outcome.ofText {} "mod \"a\\rb\"\n").declarations
    found = [⟨"a\x0db", .forge, none, .latest, 1⟩] ∧
      Csv.field "a\x0db" = "a\x0db" ∧
      Csv.readBreaks? (Export.declarations .csv ⟨none, none⟩ found) =
        some [Export.declarationHeader, ["", "a"], ["b", "forge", "forge", "latest", ""]] := by
  decide +kernel

end PuppetInventory
