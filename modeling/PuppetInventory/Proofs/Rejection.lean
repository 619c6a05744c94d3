import PuppetInventory.Puppetfile
import PuppetInventory.Proofs.CallNodes

/-!
Rejection is all or nothing. A document that does not read gives one error and nothing else, and any
other document gives no error at all.
-/

namespace PuppetInventory

/-! Lines -/

namespace Syntax.Tree

mutual

theorem one_le_of_firstFault? {tree : Tree} {line : Nat} (h : firstFault? tree = some line) :
    1 ≤ line := by
  obtain ⟨tag, children⟩ := tree
  rw [firstFault?] at h
  split at h
  · cases h
    exact Nat.le_add_left _ _
  · split at h
    · exact one_le_of_firstFaultOf? h
    · cases h

theorem one_le_of_firstFaultOf? {trees : List Tree} {line : Nat}
    (h : firstFaultOf? trees = some line) : 1 ≤ line := by
  match trees with
  | [] => cases h
  | tree :: rest =>
    rw [firstFaultOf?, Option.or_eq_some_iff] at h
    rcases h with h | ⟨_, h⟩
    · exact one_le_of_firstFault? h
    · exact one_le_of_firstFaultOf? h

end

mutual

theorem one_le_of_firstStrayEnd?
    {document : Array Char} {parent : Option Kind} {tree : Tree} {line : Nat}
    (h : firstStrayEnd? document parent tree = some line) : 1 ≤ line := by
  obtain ⟨tag, children⟩ := tree
  rw [firstStrayEnd?] at h
  split at h
  · cases h
    exact Nat.le_add_left _ _
  · exact one_le_of_firstStrayEndOf? h

theorem one_le_of_firstStrayEndOf?
    {document : Array Char} {parent : Option Kind} {trees : List Tree} {line : Nat}
    (h : firstStrayEndOf? document parent trees = some line) : 1 ≤ line := by
  match trees with
  | [] => cases h
  | tree :: rest =>
    rw [firstStrayEndOf?, Option.or_eq_some_iff] at h
    rcases h with h | ⟨_, h⟩
    · exact one_le_of_firstStrayEnd? h
    · exact one_le_of_firstStrayEndOf? h

end

theorem one_le_of_invalidLine? {document : Array Char} {tree : Tree} {line : Nat}
    (h : tree.invalidLine? document = some line) : 1 ≤ line := by
  unfold invalidLine? at h
  split at h
  · cases hfirst : tree.firstFault? with
    | none =>
      rw [hfirst] at h
      cases h
      exact Nat.le_refl 1
    | some first =>
      rw [hfirst] at h
      cases h
      exact one_le_of_firstFault? hfirst
  · exact one_le_of_firstStrayEnd? h

theorem one_le_line_of_mem_callsBelow {document : Array Char} {tree : Tree} {call : Call}
    (h : call ∈ Call.preorderAll (tree.callsBelow document)) : 1 ≤ call.line := by
  rw [preorderAll_callsBelow] at h
  obtain ⟨node, _, rfl⟩ := List.mem_map.1 h
  exact Nat.le_add_left _ _

end Syntax.Tree

namespace Syntax.Document

section

variable {parser : Parser} {text : String}

theorem callsBy_eq_error_iff {line : Nat} :
    callsBy parser text = .error line ↔
      (parser text.toList).invalidLine? text.toList.toArray = some line := by
  unfold callsBy
  dsimp only
  generalize parser text.toList = found
  cases found.invalidLine? text.toList.toArray with
  | none => simp
  | some first => simp

theorem callsBy_eq_ok_iff {roots : List Call} :
    callsBy parser text = .ok roots ↔
      (parser text.toList).invalidLine? text.toList.toArray = none ∧
        (parser text.toList).callsBelow text.toList.toArray = roots := by
  unfold callsBy
  dsimp only
  generalize parser text.toList = found
  cases found.invalidLine? text.toList.toArray with
  | none => simp
  | some first => simp

theorem calls_eq_error_iff {line : Nat} :
    calls text = .error line ↔
      (tree text.toList).invalidLine? text.toList.toArray = some line :=
  callsBy_eq_error_iff

theorem calls_eq_ok_iff {roots : List Call} :
    calls text = .ok roots ↔
      (tree text.toList).invalidLine? text.toList.toArray = none ∧
        (tree text.toList).callsBelow text.toList.toArray = roots :=
  callsBy_eq_ok_iff

end

theorem one_le_of_calls_error {text : String} {line : Nat} (h : calls text = .error line) :
    1 ≤ line :=
  Tree.one_le_of_invalidLine? (calls_eq_error_iff.1 h)

theorem one_le_line_of_calls_ok {text : String} {roots : List Call} (h : calls text = .ok roots)
    {call : Call} (hcall : call ∈ Call.preorderAll roots) : 1 ≤ call.line := by
  obtain ⟨_, rfl⟩ := calls_eq_ok_iff.1 h
  exact Tree.one_le_line_of_mem_callsBelow hcall

end Syntax.Document

namespace Outcome

/-! Outcomes of calls -/

theorem mem_ofCall_diagnostics {settings : Settings} {call : Call} {diagnostic : Diagnostic}
    (h : diagnostic ∈ (ofCall settings call).diagnostics) :
    diagnostic.severity = .warning ∧ diagnostic.line = call.line := by
  by_cases hmodule : call.IsModuleStatement settings
  · rcases ofCall_of_isModuleStatement hmodule with ⟨_, heq, _⟩ | ⟨warning, heq, hresult⟩
    · rw [heq] at h
      cases h
    · rw [heq, List.mem_singleton] at h
      rw [h]
      exact hresult
  · by_cases hdirective : call.IsDirective
    · rw [ofCall_of_isDirective hdirective] at h
      cases h
    · rw [ofCall_of_unrecognized hmodule hdirective, List.mem_singleton] at h
      rw [h]
      exact ⟨rfl, rfl⟩

theorem mem_ofCalls_diagnostics
    {settings : Settings} {roots : List Call} {diagnostic : Diagnostic}
    (h : diagnostic ∈ (ofCalls settings roots).diagnostics) :
    diagnostic.severity = .warning ∧
      ∃ call ∈ Call.preorderAll roots, diagnostic.line = call.line := by
  rw [ofCalls_diagnostics, List.mem_flatMap] at h
  obtain ⟨call, hcall, hdiagnostic⟩ := h
  have hwarning := mem_ofCall_diagnostics hdiagnostic
  exact ⟨hwarning.1, call, hcall, hwarning.2⟩

theorem not_isError_of_warning {diagnostic : Diagnostic} (h : diagnostic.severity = .warning) :
    diagnostic.isError = false := by
  simp [Diagnostic.isError, h]

theorem isFatal_eq_false_of_warnings {outcome : Outcome}
    (h : ∀ diagnostic ∈ outcome.diagnostics, diagnostic.severity = .warning) :
    outcome.isFatal = false := by
  rw [isFatal, List.any_eq_false]
  intro diagnostic hdiagnostic
  simp [not_isError_of_warning (h diagnostic hdiagnostic)]

theorem warnings_eq_diagnostics {outcome : Outcome}
    (h : ∀ diagnostic ∈ outcome.diagnostics, diagnostic.severity = .warning) :
    outcome.warnings = outcome.diagnostics := by
  rw [warnings, List.filter_eq_self]
  intro diagnostic hdiagnostic
  simp [not_isError_of_warning (h diagnostic hdiagnostic)]

/-! Outcomes of texts -/

section

variable {parser : Syntax.Parser} {text : String} {line : Nat} {roots : List Call}

theorem ofTextBy_of_ok
    (h : Syntax.Document.callsBy parser text = .ok roots) (settings : Settings) :
    ofTextBy parser settings text = ofCalls settings roots := by
  unfold ofTextBy
  rw [h]

theorem ofText_of_error (h : Syntax.Document.calls text = .error line) (settings : Settings) :
    ofText settings text = rejected line := by
  rw [Syntax.Document.calls] at h
  rw [ofText, ofTextBy, h]

theorem ofText_of_ok (h : Syntax.Document.calls text = .ok roots) (settings : Settings) :
    ofText settings text = ofCalls settings roots :=
  ofTextBy_of_ok h settings

end

theorem isFatal_rejected (line : Nat) : (rejected line).isFatal = true :=
  rfl

/-- An outcome is fatal exactly if the text does not read. It is then one syntax error with its
line, and otherwise it holds warnings alone; no error stands beside a declaration. -/
theorem ofText_fatal_iff_rejected (settings : Settings) (text : String) :
    let outcome := ofText settings text
    (outcome.isFatal = true ↔ ∃ line, Syntax.Document.calls text = .error line) ∧
    (outcome.isFatal = true → ∃ diagnostic,
      outcome.declarations = [] ∧ outcome.diagnostics = [diagnostic] ∧
      diagnostic.cause = .invalidSyntax ∧ diagnostic.severity = .error ∧ 1 ≤ diagnostic.line ∧
      Syntax.Document.calls text = .error diagnostic.line ∧
      diagnostic.message = "Syntax error at line " ++ toString diagnostic.line) ∧
    ((∃ roots, Syntax.Document.calls text = .ok roots) →
      outcome.isFatal = false ∧
      (∀ diagnostic ∈ outcome.diagnostics,
        diagnostic.severity = .warning ∧ 1 ≤ diagnostic.line) ∧
      outcome.warnings = outcome.diagnostics) ∧
    ((∃ diagnostic ∈ outcome.diagnostics, diagnostic.severity = .error) →
      outcome.declarations = []) := by
  intro outcome
  cases hcalls : Syntax.Document.calls text with
  | error line =>
    have houtcome : outcome = rejected line := ofText_of_error hcalls settings
    have hline : 1 ≤ line := Syntax.Document.one_le_of_calls_error hcalls
    rw [houtcome]
    refine ⟨⟨fun _ => ⟨line, rfl⟩, fun _ => isFatal_rejected line⟩, fun _ => ?_, ?_, fun _ => rfl⟩
    · exact ⟨⟨.invalidSyntax, line⟩, rfl, rfl, rfl, rfl, hline, rfl, rfl⟩
    · rintro ⟨roots, hroots⟩
      cases hroots
  | ok roots =>
    have houtcome : outcome = ofCalls settings roots := ofText_of_ok hcalls settings
    have hwarning : ∀ diagnostic ∈ outcome.diagnostics, diagnostic.severity = .warning := by
      intro diagnostic hdiagnostic
      rw [houtcome] at hdiagnostic
      exact (mem_ofCalls_diagnostics hdiagnostic).1
    have hline : ∀ diagnostic ∈ outcome.diagnostics, 1 ≤ diagnostic.line := by
      intro diagnostic hdiagnostic
      rw [houtcome] at hdiagnostic
      obtain ⟨_, call, hcall, heq⟩ := mem_ofCalls_diagnostics hdiagnostic
      rw [heq]
      exact Syntax.Document.one_le_line_of_calls_ok hcalls hcall
    have hfatal := isFatal_eq_false_of_warnings hwarning
    refine ⟨?_, ?_, fun _ => ⟨hfatal, fun diagnostic hdiagnostic => ?_,
      warnings_eq_diagnostics hwarning⟩, ?_⟩
    · rw [hfatal]
      constructor
      · intro h
        cases h
      · rintro ⟨line, hline⟩
        cases hline
    · rw [hfatal]
      intro h
      cases h
    · exact ⟨hwarning diagnostic hdiagnostic, hline diagnostic hdiagnostic⟩
    · rintro ⟨diagnostic, hdiagnostic, herror⟩
      rw [hwarning diagnostic hdiagnostic] at herror
      cases herror

end Outcome

end PuppetInventory
