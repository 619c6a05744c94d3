import Mathlib.Data.List.Basic
import PuppetInventory.Proofs.Precedence

/-!
The switch of the `github` alias. It changes what `github` calls come to; what all other calls come
to, and the order of what is declared and reported, does not hang on it.
-/

namespace PuppetInventory

namespace Declaration

theorem exists_ofOptions?_of_aliasMarker {options : Options}
    (h : options.contains aliasMarker = true) (name : String) (line : Nat) :
    ∃ declaration, ofOptions? name options line = some declaration := by
  have hgiven : ∃ kind, IsChosenBy (fun key => options.contains key = true) kind :=
    exists_isChosenBy_iff.2 ⟨aliasMarker, by decide, h⟩
  obtain ⟨kind, hkind⟩ := hgiven
  exact ⟨_, ofOptions?_of_isChosenBy hkind name line⟩

end Declaration

namespace Call

/-- What a `github` call with the alias comes to: a declaration, or a report that it is malformed. -/
def IsAliasResult (call : Call) (result : Except Diagnostic Declaration) : Prop :=
  (∃ declaration, result = .ok declaration ∧ declaration.line = call.line) ∨
    result = .error ⟨.malformedAlias call, call.line⟩

theorem aliasDeclaration_isAliasResult (call : Call) :
    call.IsAliasResult call.aliasDeclaration := by
  have hline := call.aliasDeclaration_isResultOn
  unfold aliasDeclaration at hline ⊢
  split
  · next name version options _ _ _ =>
    split
    · exact .inr rfl
    · next hname =>
      -- The mark is given before the version, which is another key.
      have hmarked : ((options.insert Declaration.aliasMarker (.text Declaration.aliasMarker)).insert
          "version" version).contains Declaration.aliasMarker = true := by
        rw [Options.contains, Options.get?_insert, if_neg (by decide), Options.get?_insert,
          if_pos rfl]
        rfl
      obtain ⟨declaration, hdeclaration⟩ :=
        Declaration.exists_ofOptions?_of_aliasMarker hmarked name call.line
      refine .inl ⟨declaration, ?_, Declaration.ofOptions?_line hdeclaration⟩
      simp only [Declaration.ofPayload, hdeclaration]
  · exact .inr rfl

theorem statement_github_enabled {call : Call} (h : call.name = "github") :
    call.statement { githubAlias := true } = some call.aliasDeclaration := by
  simp [statement, h]

theorem statement_github_disabled {call : Call} (h : call.name = "github") :
    call.statement { githubAlias := false } =
      some (.error ⟨.unrecognizedCall call, call.line⟩) := by
  simp [statement, h]

/-- The switch decides on `github` calls alone. -/
theorem statement_eq_of_ne_github {call : Call} (h : call.name ≠ "github")
    (settings other : Settings) : call.statement settings = call.statement other := by
  have hoff : ∀ settings : Settings, ¬(call.name = "github" ∧ settings.githubAlias = true) :=
    fun _ halias => h halias.1
  unfold statement
  rw [if_neg (hoff settings), if_neg (hoff other)]

end Call

namespace Outcome

/-- What a call says, together with the call. -/
structure Entry where
  call : Call
  result : Except Diagnostic Declaration

namespace Entry

def declaration? (entry : Entry) : Option Declaration :=
  match entry.result with
  | .ok declaration => some declaration
  | .error _ => none

def diagnostic? (entry : Entry) : Option Diagnostic :=
  match entry.result with
  | .ok _ => none
  | .error diagnostic => some diagnostic

/-- The entry when `github` is no alias: a call of that name is one that nothing recognizes. -/
def withoutAlias (entry : Entry) : Entry :=
  if entry.call.name = "github" then
    { entry with result := .error ⟨.unrecognizedCall entry.call, entry.call.line⟩ }
  else entry

end Entry

/-- What the calls of a tree say, in pre-order. -/
def entries (settings : Settings) (roots : List Call) : List Entry :=
  (Call.preorderAll roots).filterMap fun call => (call.statement settings).map (Entry.mk call)

def declared (entries : List Entry) : List Declaration :=
  entries.filterMap Entry.declaration?

def reported (entries : List Entry) : List Diagnostic :=
  entries.filterMap Entry.diagnostic?

theorem length_declared_add_reported (entries : List Entry) :
    (declared entries).length + (reported entries).length = entries.length := by
  induction entries with
  | nil => rfl
  | cons entry entries ih =>
    obtain ⟨call, result⟩ := entry
    cases result with
    | ok declaration =>
      have hdeclared : declared (⟨call, .ok declaration⟩ :: entries) =
          declaration :: declared entries := rfl
      have hreported : reported (⟨call, .ok declaration⟩ :: entries) = reported entries := rfl
      rw [hdeclared, hreported, List.length_cons, List.length_cons]
      omega
    | error diagnostic =>
      have hdeclared : declared (⟨call, .error diagnostic⟩ :: entries) = declared entries := rfl
      have hreported : reported (⟨call, .error diagnostic⟩ :: entries) =
          diagnostic :: reported entries := rfl
      rw [hdeclared, hreported, List.length_cons, List.length_cons]
      omega

/-! Outcomes by their entries -/

theorem ofCalls_declarations_eq_declared (settings : Settings) (roots : List Call) :
    (ofCalls settings roots).declarations = declared (entries settings roots) := by
  rw [ofCalls_declarations, declared, entries, List.filterMap_filterMap]
  induction Call.preorderAll roots with
  | nil => rfl
  | cons call rest ih =>
    rw [List.flatMap_cons, List.filterMap_cons, ih, ofCall]
    rcases call.statement settings with _ | _ | _ <;> rfl

theorem ofCalls_diagnostics_eq_reported (settings : Settings) (roots : List Call) :
    (ofCalls settings roots).diagnostics = reported (entries settings roots) := by
  rw [ofCalls_diagnostics, reported, entries, List.filterMap_filterMap]
  induction Call.preorderAll roots with
  | nil => rfl
  | cons call rest ih =>
    rw [List.flatMap_cons, List.filterMap_cons, ih, ofCall]
    rcases call.statement settings with _ | _ | _ <;> rfl

theorem size_ofCalls (settings : Settings) (roots : List Call) :
    (ofCalls settings roots).size = (entries settings roots).length := by
  rw [size, ofCalls_declarations_eq_declared, ofCalls_diagnostics_eq_reported,
    length_declared_add_reported]

/-- Every call but a directive has one entry. -/
theorem map_call_entries (settings : Settings) (roots : List Call) :
    (entries settings roots).map Entry.call =
      (Call.preorderAll roots).filter fun call => !call.IsDirective := by
  rw [entries, List.map_filterMap]
  induction Call.preorderAll roots with
  | nil => rfl
  | cons call rest ih =>
    have hsize := size_ofCall settings call
    rw [List.filterMap_cons, List.filter_cons, ih]
    by_cases hdirective : call.IsDirective
    · rw [Call.statement_of_isDirective hdirective]
      simp [hdirective]
    · rw [if_neg hdirective, ofCall] at hsize
      cases hstatement : call.statement settings with
      | none =>
        rw [hstatement] at hsize
        cases hsize
      | some result => simp [hdirective]

theorem mem_entries {settings : Settings} {roots : List Call} {entry : Entry}
    (h : entry ∈ entries settings roots) :
    entry.call ∈ Call.preorderAll roots ∧
      entry.call.statement settings = some entry.result := by
  rw [entries, List.mem_filterMap] at h
  obtain ⟨call, hcall, hentry⟩ := h
  obtain ⟨result, hresult, rfl⟩ := Option.map_eq_some_iff.1 hentry
  exact ⟨hcall, hresult⟩

/-! The switch -/

theorem entries_disabled (roots : List Call) :
    entries { githubAlias := false } roots =
      (entries { githubAlias := true } roots).map Entry.withoutAlias := by
  rw [entries, entries, List.map_filterMap]
  refine List.filterMap_congr fun call _ => ?_
  by_cases hname : call.name = "github"
  · rw [Call.statement_github_disabled hname, Call.statement_github_enabled hname, Option.map_some,
      Option.map_some, Option.map_some, Entry.withoutAlias, if_pos hname]
  · rw [Call.statement_eq_of_ne_github hname { githubAlias := false } { githubAlias := true },
      Option.map_map]
    refine Option.map_congr fun result _ => ?_
    rw [Function.comp_apply, Entry.withoutAlias, if_neg hname]

theorem isAliasResult_of_mem_entries {roots : List Call} {entry : Entry}
    (h : entry ∈ entries { githubAlias := true } roots) (hname : entry.call.name = "github") :
    entry.call.IsAliasResult entry.result := by
  have hstatement := (mem_entries h).2
  rw [Call.statement_github_enabled hname] at hstatement
  rw [← Option.some.inj hstatement]
  exact entry.call.aliasDeclaration_isAliasResult

/-- Without the alias only `mod` calls declare anything. -/
theorem declaration?_withoutAlias {settings : Settings} {roots : List Call} {entry : Entry}
    (h : entry ∈ entries settings roots) :
    entry.withoutAlias.declaration? =
      if entry.call.name = "mod" then entry.declaration? else none := by
  by_cases halias : entry.call.name = "github"
  · rw [Entry.withoutAlias, if_pos halias, if_neg (by rw [halias]; decide)]
    rfl
  · rw [Entry.withoutAlias, if_neg halias]
    by_cases hmod : entry.call.name = "mod"
    · rw [if_pos hmod]
    · have hstatement := (mem_entries h).2
      have hmodule : ¬entry.call.IsModuleStatement settings :=
        not_or.2 ⟨hmod, fun henabled => halias henabled.1⟩
      have hdirective : ¬entry.call.IsDirective := by
        intro hdirective
        rw [Call.statement_of_isDirective hdirective] at hstatement
        cases hstatement
      rw [Call.statement_of_unrecognized hmodule hdirective] at hstatement
      rw [if_neg hmod, Entry.declaration?, ← Option.some.inj hstatement]

theorem declared_withoutAlias (settings : Settings) (roots : List Call) :
    declared ((entries settings roots).map Entry.withoutAlias) =
      declared ((entries settings roots).filter fun entry => entry.call.name = "mod") := by
  rw [declared, declared, List.filterMap_map, List.filterMap_filter]
  refine List.filterMap_congr fun entry hentry => ?_
  rw [Function.comp_apply, declaration?_withoutAlias hentry]
  by_cases hmod : entry.call.name = "mod" <;> simp [hmod]

/-- With the alias switched off, every `github` call comes to one report that nothing recognizes it,
in the place of its declaration or of the report that it is malformed. Nothing else changes, so the
declarations are those of the `mod` calls in their order. -/
theorem ofCalls_alias_switch (roots : List Call) :
    let enabled := ofCalls { githubAlias := true } roots
    let disabled := ofCalls { githubAlias := false } roots
    let said := entries { githubAlias := true } roots
    said.map Entry.call = (Call.preorderAll roots).filter (fun call => !call.IsDirective) ∧
    enabled.declarations = declared said ∧
    enabled.diagnostics = reported said ∧
    (∀ entry ∈ said, entry.call.statement { githubAlias := true } = some entry.result ∧
      (entry.call.name = "github" → entry.call.IsAliasResult entry.result)) ∧
    disabled.declarations = declared (said.map Entry.withoutAlias) ∧
    disabled.diagnostics = reported (said.map Entry.withoutAlias) ∧
    disabled.declarations = declared (said.filter fun entry => entry.call.name = "mod") ∧
    disabled.declarations.Sublist enabled.declarations ∧
    disabled.declarations.length + disabled.diagnostics.length =
      enabled.declarations.length + enabled.diagnostics.length := by
  intro enabled disabled said
  have henabled : enabled.declarations = declared said := ofCalls_declarations_eq_declared _ roots
  have hdisabled : disabled.declarations = declared (said.map Entry.withoutAlias) :=
    (ofCalls_declarations_eq_declared _ roots).trans (congrArg declared (entries_disabled roots))
  have hreported : disabled.diagnostics = reported (said.map Entry.withoutAlias) :=
    (ofCalls_diagnostics_eq_reported _ roots).trans (congrArg reported (entries_disabled roots))
  have hmod : disabled.declarations =
      declared (said.filter fun entry => entry.call.name = "mod") :=
    hdisabled.trans (declared_withoutAlias _ roots)
  have hsize : disabled.size = enabled.size := by
    rw [size_ofCalls, size_ofCalls, entries_disabled, List.length_map]
  refine ⟨map_call_entries _ roots, henabled, ofCalls_diagnostics_eq_reported _ roots, ?_,
    hdisabled, hreported, hmod, ?_, hsize⟩
  · intro entry hentry
    exact ⟨(mem_entries hentry).2, isAliasResult_of_mem_entries hentry⟩
  · rw [hmod, henabled]
    exact List.filter_sublist.filterMap _

end Outcome

end PuppetInventory
