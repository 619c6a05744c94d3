import PuppetInventory.Puppetfile

/-!
The walk over a tree of calls. It records every call once, each before the calls inside it, and what
it records of a call hangs on that call alone.
-/

namespace PuppetInventory

namespace Call

mutual

theorem length_preorder (call : Call) : call.preorder.length = call.count := by
  obtain ⟨name, arguments, line, children⟩ := call
  rw [preorder, count, List.length_cons, length_preorderAll children, Nat.add_comm]

theorem length_preorderAll (calls : List Call) : (preorderAll calls).length = countAll calls := by
  match calls with
  | [] => rfl
  | call :: rest =>
    rw [preorderAll, countAll, List.length_append, length_preorder call, length_preorderAll rest]

end

/-- The calls that only set up the environment. -/
def IsDirective (call : Call) : Prop :=
  call.name = "forge" ∨ call.name = "moduledir"

instance (call : Call) : Decidable call.IsDirective :=
  inferInstanceAs (Decidable (_ ∨ _))

/-- The calls that are statements about a module. -/
def IsModuleStatement (settings : Settings) (call : Call) : Prop :=
  call.name = "mod" ∨ (call.name = "github" ∧ settings.githubAlias = true)

end Call

namespace Declaration

theorem ofOptions?_line {name : String} {options : Options} {line : Nat} {declaration : Declaration}
    (h : ofOptions? name options line = some declaration) : declaration.line = line := by
  unfold ofOptions? at h
  split at h
  · cases h
    rfl
  · split at h
    · cases h
      rfl
    · split at h
      · cases h
        rfl
      · cases h

end Declaration

/-- A declaration or a warning on a line. -/
def IsResultOn (line : Nat) : Except Diagnostic Declaration → Prop
  | .ok declaration => declaration.line = line
  | .error diagnostic => diagnostic.severity = .warning ∧ diagnostic.line = line

theorem Declaration.ofPayload_isResultOn (name : String) (payload : Payload) (line : Nat) :
    IsResultOn line (Declaration.ofPayload name payload line) := by
  cases payload with
  | missing => rfl
  | version text => rfl
  | unsupported text => exact ⟨rfl, rfl⟩
  | options given =>
    rw [ofPayload]
    cases h : ofOptions? name given line with
    | none => exact ⟨rfl, rfl⟩
    | some declaration => exact ofOptions?_line h

namespace Call

theorem moduleDeclaration_isResultOn (call : Call) :
    IsResultOn call.line call.moduleDeclaration := by
  unfold moduleDeclaration
  split
  · split
    · exact ⟨rfl, rfl⟩
    · exact Declaration.ofPayload_isResultOn _ _ _
  · exact ⟨rfl, rfl⟩

theorem aliasDeclaration_isResultOn (call : Call) :
    IsResultOn call.line call.aliasDeclaration := by
  unfold aliasDeclaration
  split
  · split
    · exact ⟨rfl, rfl⟩
    · exact Declaration.ofPayload_isResultOn _ _ _
  · exact ⟨rfl, rfl⟩

theorem statement_of_isModuleStatement {settings : Settings} {call : Call}
    (h : call.IsModuleStatement settings) :
    ∃ result, call.statement settings = some result ∧ IsResultOn call.line result := by
  rcases h with h | ⟨h, henabled⟩
  · exact ⟨_, by simp [statement, h], call.moduleDeclaration_isResultOn⟩
  · exact ⟨_, by simp [statement, h, henabled], call.aliasDeclaration_isResultOn⟩

theorem statement_of_isDirective {settings : Settings} {call : Call} (h : call.IsDirective) :
    call.statement settings = none := by
  unfold statement
  unfold IsDirective at h
  rw [if_neg, if_pos h]
  rcases h with h | h <;> simp [h]

theorem statement_of_unrecognized {settings : Settings} {call : Call}
    (hmodule : ¬call.IsModuleStatement settings) (hdirective : ¬call.IsDirective) :
    call.statement settings = some (.error ⟨.unrecognizedCall call, call.line⟩) := by
  obtain ⟨hmod, halias⟩ := not_or.1 hmodule
  unfold IsDirective at hdirective
  unfold statement
  rw [if_neg hmod, if_neg hdirective, if_neg halias]

end Call

namespace Outcome

/-- What a call comes to by itself, without the calls inside it. -/
def ofCall (settings : Settings) (call : Call) : Outcome :=
  empty.record (call.statement settings)

theorem record_declarations
    (outcome : Outcome) (statement : Option (Except Diagnostic Declaration)) :
    (outcome.record statement).declarations =
      outcome.declarations ++ (empty.record statement).declarations := by
  rcases statement with _ | _ | _ <;> simp [record, empty]

theorem record_diagnostics
    (outcome : Outcome) (statement : Option (Except Diagnostic Declaration)) :
    (outcome.record statement).diagnostics =
      outcome.diagnostics ++ (empty.record statement).diagnostics := by
  rcases statement with _ | _ | _ <;> simp [record, empty]

/-- Records calls one after the other, whatever stands inside them. -/
def recordAll (settings : Settings) (outcome : Outcome) (calls : List Call) : Outcome :=
  calls.foldl (fun outcome call => outcome.record (call.statement settings)) outcome

mutual

theorem visit_eq_recordAll (settings : Settings) (outcome : Outcome) (call : Call) :
    visit settings outcome call = recordAll settings outcome call.preorder := by
  obtain ⟨name, arguments, line, children⟩ := call
  rw [visit, visitAll_eq_recordAll settings _ children, Call.preorder, recordAll, recordAll,
    List.foldl_cons]

theorem visitAll_eq_recordAll (settings : Settings) (outcome : Outcome) (calls : List Call) :
    visitAll settings outcome calls = recordAll settings outcome (Call.preorderAll calls) := by
  match calls with
  | [] => rfl
  | call :: rest =>
    rw [visitAll, visitAll_eq_recordAll settings _ rest, visit_eq_recordAll settings _ call,
      Call.preorderAll, recordAll, recordAll, recordAll, List.foldl_append]

end

theorem recordAll_declarations (settings : Settings) (outcome : Outcome) (calls : List Call) :
    (recordAll settings outcome calls).declarations =
      outcome.declarations ++ calls.flatMap fun call => (ofCall settings call).declarations := by
  induction calls generalizing outcome with
  | nil => simp [recordAll]
  | cons call rest ih =>
    -- The accumulator grows by what the call comes to alone.
    have hstep := ih (outcome.record (call.statement settings))
    rw [record_declarations] at hstep
    rw [List.flatMap_cons, ← List.append_assoc]
    exact hstep

theorem recordAll_diagnostics (settings : Settings) (outcome : Outcome) (calls : List Call) :
    (recordAll settings outcome calls).diagnostics =
      outcome.diagnostics ++ calls.flatMap fun call => (ofCall settings call).diagnostics := by
  induction calls generalizing outcome with
  | nil => simp [recordAll]
  | cons call rest ih =>
    have hstep := ih (outcome.record (call.statement settings))
    rw [record_diagnostics] at hstep
    rw [List.flatMap_cons, ← List.append_assoc]
    exact hstep

theorem ofCalls_declarations (settings : Settings) (roots : List Call) :
    (ofCalls settings roots).declarations =
      (Call.preorderAll roots).flatMap fun call => (ofCall settings call).declarations := by
  rw [ofCalls, visitAll_eq_recordAll, recordAll_declarations]
  rfl

theorem ofCalls_diagnostics (settings : Settings) (roots : List Call) :
    (ofCalls settings roots).diagnostics =
      (Call.preorderAll roots).flatMap fun call => (ofCall settings call).diagnostics := by
  rw [ofCalls, visitAll_eq_recordAll, recordAll_diagnostics]
  rfl

/-! What one call comes to -/

/-- One declaration or one warning, on the given line. -/
def IsOneResult (line : Nat) (outcome : Outcome) : Prop :=
  (∃ declaration, outcome = ⟨[declaration], []⟩ ∧ declaration.line = line) ∨
    ∃ diagnostic, outcome = ⟨[], [diagnostic]⟩ ∧ diagnostic.severity = .warning ∧
      diagnostic.line = line

theorem ofCall_of_isModuleStatement {settings : Settings} {call : Call}
    (h : call.IsModuleStatement settings) : (ofCall settings call).IsOneResult call.line := by
  obtain ⟨result, hresult, hline⟩ := Call.statement_of_isModuleStatement h
  rw [ofCall, hresult]
  cases result with
  | ok declaration => exact .inl ⟨declaration, rfl, hline⟩
  | error diagnostic => exact .inr ⟨diagnostic, rfl, hline⟩

theorem ofCall_of_isDirective {settings : Settings} {call : Call} (h : call.IsDirective) :
    ofCall settings call = empty := by
  rw [ofCall, Call.statement_of_isDirective h]
  rfl

theorem ofCall_of_unrecognized {settings : Settings} {call : Call}
    (hmodule : ¬call.IsModuleStatement settings) (hdirective : ¬call.IsDirective) :
    ofCall settings call = ⟨[], [⟨.unrecognizedCall call, call.line⟩]⟩ := by
  rw [ofCall, Call.statement_of_unrecognized hmodule hdirective]
  rfl

/-- The number of declarations and diagnostics. -/
def size (outcome : Outcome) : Nat :=
  outcome.declarations.length + outcome.diagnostics.length

theorem size_ofCall (settings : Settings) (call : Call) :
    (ofCall settings call).size = if call.IsDirective then 0 else 1 := by
  split
  · next hdirective =>
    rw [ofCall_of_isDirective hdirective]
    rfl
  · next hdirective =>
    by_cases hmodule : call.IsModuleStatement settings
    · rcases ofCall_of_isModuleStatement hmodule with ⟨_, h, _⟩ | ⟨_, h, _⟩ <;> simp [h, size]
    · rw [ofCall_of_unrecognized hmodule hdirective]
      rfl

/-- Every call but a directive leaves one declaration or one diagnostic. -/
theorem size_ofCalls_add (settings : Settings) (roots : List Call) :
    (ofCalls settings roots).size + (Call.preorderAll roots).countP (·.IsDirective) =
      Call.countAll roots := by
  rw [size, ofCalls_declarations, ofCalls_diagnostics, ← Call.length_preorderAll]
  induction Call.preorderAll roots with
  | nil => rfl
  | cons call rest ih =>
    have hsize := size_ofCall settings call
    rw [size] at hsize
    rw [List.flatMap_cons, List.flatMap_cons, List.length_append, List.length_append,
      List.countP_cons, List.length_cons]
    by_cases hdirective : call.IsDirective <;> simp only [hdirective, decide_true, decide_false,
      if_true, if_false, Bool.false_eq_true] at hsize ⊢ <;> omega

/-- The walk handles every call once and in pre-order, and what it adds for a call is on that call's
line. -/
theorem ofCalls_preorder (settings : Settings) (roots : List Call) :
    let calls := Call.preorderAll roots
    let outcome := ofCalls settings roots
    outcome.declarations = calls.flatMap (fun call => (ofCall settings call).declarations) ∧
    outcome.diagnostics = calls.flatMap (fun call => (ofCall settings call).diagnostics) ∧
    (∀ call : Call,
      (call.IsModuleStatement settings → (ofCall settings call).IsOneResult call.line) ∧
      (call.IsDirective → ofCall settings call = empty) ∧
      (¬call.IsModuleStatement settings → ¬call.IsDirective →
        ofCall settings call = ⟨[], [⟨.unrecognizedCall call, call.line⟩]⟩)) ∧
    outcome.declarations.length + outcome.diagnostics.length +
        calls.countP (fun call => call.IsDirective) =
      Call.countAll roots := by
  intro calls outcome
  refine ⟨ofCalls_declarations settings roots, ofCalls_diagnostics settings roots, ?_,
    size_ofCalls_add settings roots⟩
  intro call
  exact ⟨ofCall_of_isModuleStatement, ofCall_of_isDirective, ofCall_of_unrecognized⟩

end Outcome

end PuppetInventory
