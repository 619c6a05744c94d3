import PuppetInventory.Proofs.OptionTable
import PuppetInventory.Proofs.Rejection

/-!
Where the declarations of a document come from: each is what one of its calls says of a module. The
call gives the name, the line, and what decides on the source.
-/

namespace PuppetInventory

/-- What decides on a source other than the registry, given which options there are. -/
inductive IsChosenBy (given : String → Prop) : SourceKind → Prop where
  | git (h : given "git") : IsChosenBy given .git
  | svn (h : given "svn") (hgit : ¬given "git") : IsChosenBy given .svn
  | directRepo (h : given "repo" ∨ given "boxen") (hgit : ¬given "git") (hsvn : ¬given "svn") :
      IsChosenBy given .directRepo

theorem IsChosenBy.ne_forge {given : String → Prop} {kind : SourceKind}
    (h : IsChosenBy given kind) : kind ≠ .forge := by
  cases h <;> exact SourceKind.noConfusion

/-- What may stand behind the name of a module from the registry. -/
inductive IsVersionArgument : Option Value → Prop where
  | missing : IsVersionArgument none
  | absent : IsVersionArgument (some .absent)
  | text (text : String) : IsVersionArgument (some (.text text))
  | symbol (name : String) : IsVersionArgument (some (.symbol name))

namespace Payload

theorem isVersionArgument_of_ofArgument {argument : Option Value}
    (h : ofArgument argument = .missing ∨ ∃ text, ofArgument argument = .version text) :
    IsVersionArgument argument := by
  rcases argument with _ | text | name | _ | pairs | items | content
  · exact .missing
  · exact .text text
  · exact .symbol name
  · exact .absent
  -- No other value reads as a version.
  all_goals rcases h with h | ⟨text, h⟩ <;> cases h

theorem exists_pairs_of_ofArgument {argument : Option Value} {given : Options}
    (h : ofArgument argument = .options given) :
    ∃ pairs, argument = some (.hash pairs) ∧ given = .ofPairs pairs := by
  rcases argument with _ | text | name | _ | pairs | items | content
  case some.hash =>
    cases h
    exact ⟨pairs, rfl, rfl⟩
  case some.symbol =>
    rw [ofArgument] at h
    split at h <;> cases h
  all_goals cases h

end Payload

namespace Declaration

/-- A declaration that some document yields. -/
def IsDeclared (declaration : Declaration) : Prop :=
  ∃ settings text, declaration ∈ (Outcome.ofText settings text).declarations

def ForgeHasNoLocation (declaration : Declaration) : Prop :=
  declaration.kind = .forge → declaration.location = none

/-- Options that declare a module do so by the strongest source that they name. -/
theorem ofOptions?_cases
    {name : String} {options : Options} {line : Nat} {declaration : Declaration}
    (h : ofOptions? name options line = some declaration) :
    declaration.name = normalName name ∧
      IsChosenBy (fun key => options.contains key = true) declaration.kind := by
  unfold ofOptions? at h
  split at h
  · next git hgit =>
    cases h
    exact ⟨rfl, .git (by rw [Options.contains, hgit]; rfl)⟩
  · next hgit =>
    have hnogit : ¬options.contains "git" = true := by simp [Options.contains, hgit]
    split at h
    · next svn hsvn =>
      cases h
      exact ⟨rfl, .svn (by rw [Options.contains, hsvn]; rfl) hnogit⟩
    · next hsvn =>
      have hnosvn : ¬options.contains "svn" = true := by simp [Options.contains, hsvn]
      split at h
      · next hdirect =>
        cases h
        rw [Bool.or_eq_true] at hdirect
        exact ⟨rfl, .directRepo hdirect.symm hnogit hnosvn⟩
      · cases h

/-- A payload declares a module of the registry, or one whose source its options choose. -/
theorem ofPayload_cases
    {name : String} {payload : Payload} {line : Nat} {declaration : Declaration}
    (h : ofPayload name payload line = .ok declaration) :
    declaration.name = normalName name ∧
      ((declaration.kind = .forge ∧ declaration.location = none ∧
          (payload = .missing ∨ ∃ text, payload = .version text)) ∨
        ∃ given, payload = .options given ∧
          IsChosenBy (fun key => given.contains key = true) declaration.kind) := by
  cases payload with
  | missing =>
    cases h
    exact ⟨rfl, .inl ⟨rfl, rfl, .inl rfl⟩⟩
  | version text =>
    cases h
    exact ⟨rfl, .inl ⟨rfl, rfl, .inr ⟨text, rfl⟩⟩⟩
  | unsupported text => cases h
  | options given =>
    rw [ofPayload] at h
    split at h
    · next found hfound =>
      cases h
      obtain ⟨hname, hchosen⟩ := ofOptions?_cases hfound
      exact ⟨hname, .inr ⟨given, rfl, hchosen⟩⟩
    · cases h

end Declaration

namespace Call

/-- Whether a call can declare a module of a source: a `mod` call does so by its second argument,
and a `github` call names no module of the registry. -/
def CanChoose (call : Call) : SourceKind → Prop
  | .forge => call.name = "mod" ∧ IsVersionArgument call.arguments[1]?
  | kind => call.name = "github" ∨ ∃ pairs, call.arguments[1]? = some (.hash pairs) ∧
      IsChosenBy (· ∈ pairs.map Prod.fst) kind

theorem canChoose_of_isChosenBy {call : Call} {given : String → Prop} {kind : SourceKind}
    (hchosen : IsChosenBy given kind)
    (h : call.name = "github" ∨ ∃ pairs, call.arguments[1]? = some (.hash pairs) ∧
      IsChosenBy (· ∈ pairs.map Prod.fst) kind) : call.CanChoose kind := by
  cases hchosen <;> exact h

/-- A declaration is what a call says of a module. -/
structure Declares (settings : Settings) (call : Call) (declaration : Declaration) : Prop where
  isModuleStatement : call.IsModuleStatement settings
  line_eq : declaration.line = call.line
  exists_name : ∃ name, call.arguments.head? = some (.text name) ∧ name ≠ "" ∧
    declaration.name = name.map fun c => if c = '/' then '-' else c
  canChoose : call.CanChoose declaration.kind
  location_of_forge : declaration.kind = .forge → declaration.location = none

theorem declares_of_moduleDeclaration
    {settings : Settings} {call : Call} {declaration : Declaration} (hname : call.name = "mod")
    (h : call.moduleDeclaration = .ok declaration) : call.Declares settings declaration := by
  have hline := call.moduleDeclaration_isResultOn
  rw [h] at hline
  unfold moduleDeclaration at h
  split at h
  · next name hargument =>
    split at h
    · cases h
    · next hnonempty =>
      obtain ⟨hnormal, hsource⟩ := Declaration.ofPayload_cases h
      rw [Declaration.normalName_eq_map] at hnormal
      have hgives : ∃ given, call.arguments.head? = some (.text given) ∧ given ≠ "" ∧
          declaration.name = given.map fun c => if c = '/' then '-' else c :=
        ⟨name, hargument, hnonempty, hnormal⟩
      rcases hsource with ⟨hforge, hlocation, hpayload⟩ | ⟨given, hgiven, hchosen⟩
      · refine ⟨.inl hname, hline, hgives, ?_, fun _ => hlocation⟩
        rw [hforge]
        exact ⟨hname, Payload.isVersionArgument_of_ofArgument hpayload⟩
      · obtain ⟨pairs, hpairs, rfl⟩ := Payload.exists_pairs_of_ofArgument hgiven
        simp only [Options.contains_ofPairs] at hchosen
        exact ⟨.inl hname, hline, hgives,
          canChoose_of_isChosenBy hchosen (.inr ⟨pairs, hpairs, hchosen⟩),
          fun hforge => absurd hforge hchosen.ne_forge⟩
  · cases h

theorem declares_of_aliasDeclaration
    {settings : Settings} {call : Call} {declaration : Declaration} (hname : call.name = "github")
    (henabled : settings.githubAlias = true) (h : call.aliasDeclaration = .ok declaration) :
    call.Declares settings declaration := by
  have hline := call.aliasDeclaration_isResultOn
  rw [h] at hline
  unfold aliasDeclaration at h
  split at h
  · next name version options hargument _ _ =>
    split at h
    · cases h
    · next hnonempty =>
      obtain ⟨hnormal, hsource⟩ := Declaration.ofPayload_cases h
      rw [Declaration.normalName_eq_map] at hnormal
      -- The alias always gives options, so the source is never the registry.
      rcases hsource with ⟨-, -, hmissing | ⟨text, hversion⟩⟩ | ⟨given, -, hchosen⟩
      · cases hmissing
      · cases hversion
      · exact ⟨.inr ⟨hname, henabled⟩, hline, ⟨name, hargument, hnonempty, hnormal⟩,
          canChoose_of_isChosenBy hchosen (.inl hname),
          fun hforge => absurd hforge hchosen.ne_forge⟩
  · cases h

theorem declares_of_statement {settings : Settings} {call : Call} {declaration : Declaration}
    (h : call.statement settings = some (.ok declaration)) :
    call.Declares settings declaration := by
  unfold statement at h
  split at h
  · next hname => exact declares_of_moduleDeclaration hname (Option.some.inj h)
  · split at h
    · cases h
    · split at h
      · next halias => exact declares_of_aliasDeclaration halias.1 halias.2 (Option.some.inj h)
      · cases h

theorem Declares.name_ne_empty {settings : Settings} {call : Call} {declaration : Declaration}
    (h : call.Declares settings declaration) : declaration.name ≠ "" := by
  obtain ⟨name, -, hnonempty, hname⟩ := h.exists_name
  intro hempty
  have hchars := congrArg String.toList (hname.symm.trans hempty)
  rw [String.toList_map, String.toList_empty, List.map_eq_nil_iff] at hchars
  exact hnonempty (String.toList_eq_nil_iff.1 hchars)

theorem Declares.slash_not_mem_name {settings : Settings} {call : Call} {declaration : Declaration}
    (h : call.Declares settings declaration) : '/' ∉ declaration.name.toList := by
  obtain ⟨name, -, -, hname⟩ := h.exists_name
  rw [hname, String.toList_map, List.mem_map]
  rintro ⟨c, -, hc⟩
  split at hc
  · exact absurd hc (by decide)
  · next hslash => exact hslash hc

theorem Declares.source?_of_forge {settings : Settings} {call : Call} {declaration : Declaration}
    (h : call.Declares settings declaration) (hforge : declaration.kind = .forge) :
    declaration.source? = some "forge" := by
  rw [Declaration.source?, h.location_of_forge hforge, Declaration.isForge, hforge]
  rfl

end Call

namespace Outcome

theorem statement_of_mem_ofCall {settings : Settings} {call : Call} {declaration : Declaration}
    (h : declaration ∈ (ofCall settings call).declarations) :
    call.statement settings = some (.ok declaration) := by
  unfold ofCall at h
  cases hstatement : call.statement settings with
  | none =>
    rw [hstatement] at h
    cases h
  | some result =>
    rw [hstatement] at h
    cases result with
    | error diagnostic => cases h
    | ok found =>
      rw [List.mem_singleton.1 h]

theorem exists_call_of_mem_ofCalls
    {settings : Settings} {roots : List Call} {declaration : Declaration}
    (h : declaration ∈ (ofCalls settings roots).declarations) :
    ∃ call ∈ Call.preorderAll roots, call.Declares settings declaration := by
  rw [ofCalls_declarations, List.mem_flatMap] at h
  obtain ⟨call, hcall, hdeclaration⟩ := h
  exact ⟨call, hcall, Call.declares_of_statement (statement_of_mem_ofCall hdeclaration)⟩

theorem exists_call_of_mem_ofText
    {settings : Settings} {text : String} {declaration : Declaration}
    (h : declaration ∈ (ofText settings text).declarations) :
    ∃ roots, Syntax.Document.calls text = .ok roots ∧
      ∃ call ∈ Call.preorderAll roots, call.Declares settings declaration := by
  cases hcalls : Syntax.Document.calls text with
  | error line =>
    rw [ofText_of_error hcalls] at h
    cases h
  | ok roots =>
    rw [ofText_of_ok hcalls] at h
    exact ⟨roots, rfl, exists_call_of_mem_ofCalls h⟩

/-- Every declaration of a document has a name without slashes, and some call of the document
declares it. What a record shows as the source of a module from the registry is the registry. -/
theorem ofText_declares
    (settings : Settings) (text : String) (declaration : Declaration)
    (h : declaration ∈ (ofText settings text).declarations) :
    declaration.name ≠ "" ∧ '/' ∉ declaration.name.toList ∧
      (∃ roots, Syntax.Document.calls text = .ok roots ∧
        ∃ call ∈ Call.preorderAll roots, call.Declares settings declaration) ∧
      (declaration.kind = .forge → declaration.source? = some "forge") := by
  obtain ⟨roots, hroots, call, hcall, hdeclares⟩ := exists_call_of_mem_ofText h
  exact ⟨hdeclares.name_ne_empty, hdeclares.slash_not_mem_name,
    ⟨roots, hroots, call, hcall, hdeclares⟩, hdeclares.source?_of_forge⟩

/-- A source that is given as `nil` still decides, and the call stands inside another one. -/
theorem ofText_declares_nested :
    let text := "configure do\n  mod 'a/b', svn: nil, 'repo' => 'u'\nend"
    let declaration : Declaration := ⟨"a-b", .svn, none, .latest, 2⟩
    declaration ∈ (ofText {} text).declarations ∧
      ∃ roots, Syntax.Document.calls text = .ok roots ∧
        ∃ call ∈ Call.preorderAll roots, call.Declares {} declaration := by
  intro text declaration
  have hmem : declaration ∈ (ofText {} text).declarations := by
    have hdeclarations : (ofText {} text).declarations = [declaration] := by decide +kernel
    rw [hdeclarations]
    exact List.mem_singleton_self declaration
  obtain ⟨-, -, hcall, -⟩ := ofText_declares {} text declaration hmem
  exact ⟨hmem, hcall⟩

end Outcome

/-- A module from the registry has no location. -/
theorem Declaration.IsDeclared.forgeHasNoLocation
    {declaration : Declaration} (h : declaration.IsDeclared) : declaration.ForgeHasNoLocation := by
  obtain ⟨settings, text, hmem⟩ := h
  obtain ⟨_, -, _, -, hdeclares⟩ := Outcome.exists_call_of_mem_ofText hmem
  exact hdeclares.location_of_forge

end PuppetInventory
