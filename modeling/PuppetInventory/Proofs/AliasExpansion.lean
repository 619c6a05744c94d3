import PuppetInventory.Proofs.AliasSwitch

/-!
The `github` alias as a `mod` call. A call that the alias takes declares what `mod` declares for the
same name and the same options, with the mark and the version behind them. Every other `github` call
is reported as malformed.
-/

namespace PuppetInventory

namespace Call

/-! Arguments of the alias -/

/-- The version that a second argument gives. -/
inductive IsAliasVersion : Option Value → Value → Prop where
  | missing : IsAliasVersion none .absent
  | absent : IsAliasVersion (some .absent) .absent
  | text (text : String) : IsAliasVersion (some (.text text)) (.text text)

/-- The options that a third argument gives. -/
inductive IsAliasOptions : Option Value → List (String × Value) → Prop where
  | missing : IsAliasOptions none []
  | hash (pairs : List (String × Value)) : IsAliasOptions (some (.hash pairs)) pairs

/-- Arguments that the alias takes. What stands behind the third says nothing. -/
structure AreAliasArguments
    (arguments : List Value) (name : String) (version : Value) (pairs : List (String × Value)) :
    Prop where
  head?_eq : arguments.head? = some (.text name)
  name_ne_empty : name ≠ ""
  isVersion : IsAliasVersion arguments[1]? version
  isOptions : IsAliasOptions arguments[2]? pairs

/-- The options of the `mod` call that the alias stands for. The mark and the version stand last, so
they count whatever the options say of them. -/
def expandedOptions (version : Value) (pairs : List (String × Value)) : List (String × Value) :=
  pairs ++ [("boxen", .text "boxen"), ("version", version)]

section Arguments

variable {argument : Option Value} {version : Value} {pairs : List (String × Value)}

theorem aliasVersion?_of_isAliasVersion (h : IsAliasVersion argument version) :
    aliasVersion? argument = some (.ofValue version) := by
  cases h <;> rfl

theorem exists_isAliasVersion {found : OptionValue} (h : aliasVersion? argument = some found) :
    ∃ version, IsAliasVersion argument version := by
  rcases argument with _ | text | name | _ | pairs | items | content
  · exact ⟨_, .missing⟩
  · exact ⟨_, .text text⟩
  · cases h
  · exact ⟨_, .absent⟩
  -- No other value can be a version.
  all_goals cases h

theorem aliasOptions?_of_isAliasOptions (h : IsAliasOptions argument pairs) :
    aliasOptions? argument = some (.ofPairs pairs) := by
  cases h <;> rfl

theorem exists_isAliasOptions {found : Options} (h : aliasOptions? argument = some found) :
    ∃ pairs, IsAliasOptions argument pairs := by
  rcases argument with _ | text | name | _ | pairs | items | content
  case none => exact ⟨_, .missing⟩
  case some.hash => exact ⟨_, .hash pairs⟩
  all_goals cases h

theorem ofPairs_expandedOptions (version : Value) (pairs : List (String × Value)) :
    Options.ofPairs (expandedOptions version pairs) =
      ((Options.ofPairs pairs).insert Declaration.aliasMarker
        (.text Declaration.aliasMarker)).insert "version" (.ofValue version) := by
  have hsplit : expandedOptions version pairs =
      (pairs ++ [("boxen", .text "boxen")]) ++ [("version", version)] := by
    rw [expandedOptions, List.append_assoc]
    rfl
  rw [hsplit, Options.ofPairs_append_singleton, Options.ofPairs_append_singleton]
  rfl

end Arguments

/-! Both ends of the alias -/

theorem aliasDeclaration_of_areAliasArguments
    {call : Call} {name : String} {version : Value} {pairs : List (String × Value)}
    (h : AreAliasArguments call.arguments name version pairs) :
    call.aliasDeclaration =
      Declaration.ofPayload name (.ofArgument (some (.hash (expandedOptions version pairs))))
        call.line := by
  rw [aliasDeclaration, h.head?_eq, aliasVersion?_of_isAliasVersion h.isVersion,
    aliasOptions?_of_isAliasOptions h.isOptions]
  simp only [if_neg h.name_ne_empty]
  rw [Payload.ofArgument, ofPairs_expandedOptions]

theorem aliasDeclaration_of_malformed {call : Call}
    (h : ¬∃ name version pairs, AreAliasArguments call.arguments name version pairs) :
    call.aliasDeclaration = .error ⟨.malformedAlias call, call.line⟩ := by
  unfold aliasDeclaration
  split
  · next name found options hhead hversion hoptions =>
    split
    · rfl
    · next hname =>
      obtain ⟨version, hversion⟩ := exists_isAliasVersion hversion
      obtain ⟨pairs, hoptions⟩ := exists_isAliasOptions hoptions
      exact absurd ⟨name, version, pairs, hhead, hname, hversion, hoptions⟩ h
  · rfl

end Call

namespace Declaration

/-- The mark alone makes options name a source. -/
theorem exists_ofPayload_expandedOptions
    (name : String) (version : Value) (pairs : List (String × Value)) (line : Nat) :
    ∃ declaration,
      ofPayload name (.ofArgument (some (.hash (Call.expandedOptions version pairs)))) line =
        .ok declaration := by
  have hmarked : (Options.ofPairs (Call.expandedOptions version pairs)).contains aliasMarker =
      true := by
    rw [Options.contains_ofPairs, Call.expandedOptions]
    simp [aliasMarker]
  obtain ⟨declaration, hdeclaration⟩ := exists_ofOptions?_of_aliasMarker hmarked name line
  refine ⟨declaration, ?_⟩
  rw [Payload.ofArgument, ofPayload, hdeclaration]

end Declaration

namespace Outcome

section Github

variable {settings : Settings} {arguments : List Value} {line : Nat} {children : List Call}

theorem ofCall_github (henabled : settings.githubAlias = true) :
    ofCall settings ⟨"github", arguments, line, children⟩ =
      empty.record (some (Call.aliasDeclaration ⟨"github", arguments, line, children⟩)) := by
  have hsettings : settings = { githubAlias := true } := by
    rw [← henabled]
  rw [ofCall, hsettings, Call.statement_github_enabled rfl]

theorem ofCall_github_of_areAliasArguments
    (henabled : settings.githubAlias = true) {name : String} {version : Value}
    {pairs : List (String × Value)} (h : Call.AreAliasArguments arguments name version pairs)
    (inner : List Call) :
    ofCall settings ⟨"github", arguments, line, children⟩ =
      ofCall settings
        ⟨"mod", [.text name, .hash (Call.expandedOptions version pairs)], line, inner⟩ := by
  rw [ofCall_github henabled, Call.aliasDeclaration_of_areAliasArguments h,
    ofCall_mod settings h.name_ne_empty]
  rfl

theorem ofCall_github_of_malformed (henabled : settings.githubAlias = true)
    (h : ¬∃ name version pairs, Call.AreAliasArguments arguments name version pairs) :
    ofCall settings ⟨"github", arguments, line, children⟩ =
      ⟨[], [⟨.malformedAlias ⟨"github", arguments, line, children⟩, line⟩]⟩ := by
  rw [ofCall_github henabled, Call.aliasDeclaration_of_malformed h]
  rfl

end Github

/-- The `github` alias is short for `mod`: if it takes the arguments, then a module is declared, and
it is the one that `mod` declares for the expanded options. If it does not, the call is reported. -/
theorem ofCall_github_expands
    (settings : Settings) (arguments : List Value) (line : Nat) (children : List Call)
    (henabled : settings.githubAlias = true) :
    let github : Call := ⟨"github", arguments, line, children⟩
    (∀ name version pairs, Call.AreAliasArguments arguments name version pairs →
      let expanded : Call :=
        ⟨"mod", [.text name, .hash (pairs ++ [("boxen", .text "boxen"), ("version", version)])],
          line, children⟩
      ofCall settings github = ofCall settings expanded ∧
        ∃ declaration, ofCall settings github = ⟨[declaration], []⟩) ∧
    ((¬∃ name version pairs, Call.AreAliasArguments arguments name version pairs) →
      ofCall settings github = ⟨[], [⟨.malformedAlias github, line⟩]⟩) := by
  intro github
  refine ⟨fun name version pairs harguments => ?_, ofCall_github_of_malformed henabled⟩
  intro expanded
  have hexpanded : ofCall settings github = ofCall settings expanded :=
    ofCall_github_of_areAliasArguments henabled harguments children
  obtain ⟨declaration, hdeclaration⟩ :=
    Declaration.exists_ofPayload_expandedOptions name version pairs line
  refine ⟨hexpanded, declaration, ?_⟩
  rw [hexpanded]
  calc ofCall settings expanded =
        empty.record (some (Declaration.ofPayload name
          (.ofArgument (some (.hash (Call.expandedOptions version pairs)))) line)) :=
          ofCall_mod settings harguments.name_ne_empty _ line children
    _ = ⟨[declaration], []⟩ := by
      rw [hdeclaration]
      rfl

/-- Options that name another source, a mark and a version of their own, and an argument too many;
and options in the place of the version. -/
theorem ofCall_github_expands_git :
    let pairs : List (String × Value) :=
      [("version", .text "2"), ("boxen", .absent), ("git", .text "u"), ("tag", .absent)]
    let taken : List Value := [.text "a/b", .absent, .hash pairs, .list []]
    let refused : List Value := [.text "a/b", .hash pairs]
    let expanded : List (String × Value) := pairs ++ [("boxen", .text "boxen"), ("version", .absent)]
    ({} : Settings).githubAlias = true ∧
    Call.AreAliasArguments taken "a/b" .absent pairs ∧
    ofCall {} ⟨"github", taken, 1, []⟩ = ofCall {} ⟨"mod", [.text "a/b", .hash expanded], 1, []⟩ ∧
    ofCall {} ⟨"github", taken, 1, []⟩ = ⟨[⟨"a-b", .git, some "u", .latest, 1⟩], []⟩ ∧
    (¬∃ name version pairs, Call.AreAliasArguments refused name version pairs) ∧
    ofCall {} ⟨"github", refused, 1, []⟩ =
      ⟨[], [⟨.malformedAlias ⟨"github", refused, 1, []⟩, 1⟩]⟩ := by
  intro pairs taken refused expanded
  have htaken : Call.AreAliasArguments taken "a/b" .absent pairs :=
    ⟨rfl, by decide, .absent, .hash pairs⟩
  have hrefused : ¬∃ name version pairs, Call.AreAliasArguments refused name version pairs := by
    rintro ⟨name, version, given, -, -, hversion, -⟩
    cases hversion
  refine ⟨rfl, htaken, ?_, rfl, hrefused, ?_⟩
  · exact ((ofCall_github_expands {} taken 1 [] rfl).1 "a/b" .absent pairs htaken).1
  · exact (ofCall_github_expands {} refused 1 [] rfl).2 hrefused

end Outcome

end PuppetInventory
