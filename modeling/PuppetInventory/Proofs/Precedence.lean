import PuppetInventory.Proofs.Declared

/-!
What a `mod` call says of a module, by its second argument: the source, its place, and the version.
Among options, `git` is stronger than `svn`, which is stronger than a repository named directly;
each source has options of its own for the version, the strongest first; and of the values that are
given to a key the last one counts.
-/

namespace PuppetInventory

/-! Last values -/

section Pairs

variable {pairs : List (String × Value)} {key : String}

/-- The last value that a key is given. -/
def IsLast (pairs : List (String × Value)) (key : String) (value : Value) : Prop :=
  ∃ before after, pairs = before ++ (key, value) :: after ∧ key ∉ after.map Prod.fst

theorem isLast_iff {value : Value} :
    IsLast pairs key value ↔ pairs.reverse.lookup key = some value := by
  rw [List.lookup_eq_some_iff]
  constructor
  · rintro ⟨before, after, rfl, hafter⟩
    refine ⟨after.reverse, before.reverse, by simp, ?_⟩
    intro pair hpair
    rw [bne_iff_ne]
    rintro rfl
    exact hafter (List.mem_map_of_mem (List.mem_reverse.1 hpair))
  · rintro ⟨after, before, hpairs, hafter⟩
    refine ⟨before.reverse, after.reverse, ?_, ?_⟩
    · rw [← List.reverse_reverse pairs, hpairs]
      simp
    · rw [List.map_reverse, List.mem_reverse, List.mem_map]
      rintro ⟨pair, hpair, rfl⟩
      exact absurd (hafter pair hpair) (by simp)

theorem exists_isLast_iff : (∃ value, IsLast pairs key value) ↔ key ∈ pairs.map Prod.fst := by
  simp only [isLast_iff, ← Option.isSome_iff_exists, List.lookup_isSome_iff]
  simp

end Pairs

/-! Texts of options -/

namespace Value

mutual

/-- How a value is shown as an item of a list that is an option. Symbols are texts there. -/
def itemText : Value → String
  | .text content => "'" ++ content ++ "'"
  | .symbol name => "'" ++ name ++ "'"
  | .absent => "nil"
  | .hash pairs => (Value.hash pairs).render
  | .list items => "[" ++ String.intercalate ", " (itemTexts items) ++ "]"
  | .source content => content

def itemTexts : List Value → List String
  | [] => []
  | item :: rest => itemText item :: itemTexts rest

end

/-- The text of an option; `nil` has none. -/
def optionText? : Value → Option String
  | .absent => none
  | .text content => some content
  | .symbol name => some name
  | value => some value.itemText

theorem optionText?_eq_none_iff {value : Value} : value.optionText? = none ↔ value = .absent := by
  cases value <;> simp [optionText?]

end Value

namespace OptionValue

mutual

theorem render_ofValue (value : Value) : (ofValue value).render = value.itemText := by
  match value with
  | .text content => rfl
  | .symbol name => rfl
  | .absent => rfl
  | .hash pairs => rfl
  | .list items => rw [ofValue, render, Value.itemText, renderItems_ofItems items]
  | .source content => rfl

theorem renderItems_ofItems (items : List Value) :
    renderItems (ofItems items) = Value.itemTexts items := by
  match items with
  | [] => rfl
  | item :: rest =>
    rw [ofItems, renderItems, Value.itemTexts, render_ofValue item, renderItems_ofItems rest]

end

theorem plain?_ofValue (value : Value) : (ofValue value).plain? = value.optionText? := by
  cases value with
  | list items => exact congrArg some (render_ofValue (.list items))
  | text content => rfl
  | symbol name => rfl
  | absent => rfl
  | hash pairs => rfl
  | source content => rfl

end OptionValue

section Pairs

variable {pairs : List (String × Value)} {keys : List String} {key : String}

def HasText (pairs : List (String × Value)) (key text : String) : Prop :=
  ∃ value, IsLast pairs key value ∧ value.optionText? = some text

/-- The key is not given, or its last value is `nil`. -/
def IsUnset (pairs : List (String × Value)) (key : String) : Prop :=
  ∀ value, IsLast pairs key value → value = .absent

/-- The text of the first of some keys that has one. -/
inductive IsFirstText (pairs : List (String × Value)) (keys : List String) :
    Option String → Prop where
  | given {before after : List String} {key text : String} (hkeys : keys = before ++ key :: after)
      (hbefore : ∀ stronger ∈ before, IsUnset pairs stronger) (htext : HasText pairs key text) :
      IsFirstText pairs keys (some text)
  | unset (h : ∀ key ∈ keys, IsUnset pairs key) : IsFirstText pairs keys none

theorem plain?_get?_ofPairs (pairs : List (String × Value)) (key : String) :
    ((Options.ofPairs pairs).get? key).bind OptionValue.plain? =
      (pairs.reverse.lookup key).bind Value.optionText? := by
  rw [Options.get?_ofPairs]
  cases pairs.reverse.lookup key with
  | none => rfl
  | some value => exact OptionValue.plain?_ofValue value

theorem hasText_iff {text : String} :
    HasText pairs key text ↔
      ((Options.ofPairs pairs).get? key).bind OptionValue.plain? = some text := by
  rw [plain?_get?_ofPairs, Option.bind_eq_some_iff]
  simp only [HasText, isLast_iff]

theorem isUnset_iff :
    IsUnset pairs key ↔ ((Options.ofPairs pairs).get? key).bind OptionValue.plain? = none := by
  rw [plain?_get?_ofPairs, Option.bind_eq_none_iff]
  simp only [IsUnset, isLast_iff, Value.optionText?_eq_none_iff]

theorem isFirstText_iff {text? : Option String} :
    IsFirstText pairs keys text? ↔ (Options.ofPairs pairs).firstPlain? keys = text? := by
  rw [Options.firstPlain?]
  constructor
  · intro h
    cases h with
    | given hkeys hbefore htext =>
      rw [List.findSome?_eq_some_iff]
      exact ⟨_, _, _, hkeys, hasText_iff.1 htext, fun other hother =>
        isUnset_iff.1 (hbefore other hother)⟩
    | unset hunset =>
      rw [List.findSome?_eq_none_iff]
      exact fun key hkey => isUnset_iff.1 (hunset key hkey)
  · intro h
    cases text? with
    | some text =>
      obtain ⟨before, key, after, hkeys, htext, hbefore⟩ := List.findSome?_eq_some_iff.1 h
      exact .given hkeys (fun other hother => isUnset_iff.2 (hbefore other hother))
        (hasText_iff.2 htext)
    | none =>
      exact .unset fun key hkey => isUnset_iff.2 (List.findSome?_eq_none_iff.1 h key hkey)

end Pairs

/-! Sources -/

namespace SourceKind

/-- The options on which it depends whether a source is chosen. -/
def decidingKeys : SourceKind → List String
  | .forge => []
  | .git => ["git"]
  | .svn => ["git", "svn"]
  | .directRepo => ["git", "svn", "repo", "boxen"]

def locationKeys : SourceKind → List String
  | .forge => []
  | .git => ["git"]
  | .svn => ["svn"]
  | .directRepo => ["repo"]

/-- The options for the version, the strongest first. -/
def versionKeys : SourceKind → List String
  | .forge => []
  | .git => ["ref", "tag", "commit", "branch"]
  | .svn => ["rev", "revision"]
  | .directRepo => ["version"]

end SourceKind

theorem IsChosenBy.congr {given other : String → Prop} {kind : SourceKind}
    (h : IsChosenBy given kind) (hkeys : ∀ key ∈ kind.decidingKeys, given key ↔ other key) :
    IsChosenBy other kind := by
  cases h with
  | git hgit => exact .git ((hkeys "git" (by decide)).1 hgit)
  | svn hsvn hgit =>
    exact .svn ((hkeys "svn" (by decide)).1 hsvn) (mt (hkeys "git" (by decide)).2 hgit)
  | directRepo hdirect hgit hsvn =>
    refine .directRepo ?_ (mt (hkeys "git" (by decide)).2 hgit)
      (mt (hkeys "svn" (by decide)).2 hsvn)
    rcases hdirect with hrepo | hboxen
    · exact .inl ((hkeys "repo" (by decide)).1 hrepo)
    · exact .inr ((hkeys "boxen" (by decide)).1 hboxen)

theorem exists_isChosenBy_iff {given : String → Prop} :
    (∃ kind, IsChosenBy given kind) ↔
      ∃ key ∈ SourceKind.directRepo.decidingKeys, given key := by
  constructor
  · rintro ⟨kind, hchosen⟩
    cases hchosen with
    | git hgit => exact ⟨"git", by decide, hgit⟩
    | svn hsvn hgit => exact ⟨"svn", by decide, hsvn⟩
    | directRepo hdirect hgit hsvn =>
      rcases hdirect with hrepo | hboxen
      · exact ⟨"repo", by decide, hrepo⟩
      · exact ⟨"boxen", by decide, hboxen⟩
  · rintro ⟨key, hkey, h⟩
    by_cases hgit : given "git"
    · exact ⟨.git, .git hgit⟩
    · by_cases hsvn : given "svn"
      · exact ⟨.svn, .svn hsvn hgit⟩
      · refine ⟨.directRepo, .directRepo ?_ hgit hsvn⟩
        simp only [SourceKind.decidingKeys, List.mem_cons, List.not_mem_nil, or_false] at hkey
        rcases hkey with rfl | rfl | rfl | rfl
        · exact absurd h hgit
        · exact absurd h hsvn
        · exact .inl h
        · exact .inr h

namespace Declaration

theorem ofOptions?_of_isChosenBy {options : Options} {kind : SourceKind}
    (h : IsChosenBy (fun key => options.contains key = true) kind) (name : String) (line : Nat) :
    ofOptions? name options line =
      some (.named name kind (options.firstPlain? kind.locationKeys)
        (.ofText? (options.firstPlain? kind.versionKeys)) line) := by
  unfold ofOptions?
  cases h with
  | git hgit =>
    obtain ⟨git, hget⟩ := Option.isSome_iff_exists.1 hgit
    simp only [hget, SourceKind.locationKeys, Options.firstPlain?_singleton, Option.bind_some]
    rfl
  | svn hsvn hgit =>
    obtain ⟨svn, hget⟩ := Option.isSome_iff_exists.1 hsvn
    simp only [Options.get?_eq_none_iff.2 hgit, hget, SourceKind.locationKeys,
      Options.firstPlain?_singleton, Option.bind_some]
    rfl
  | directRepo hdirect hgit hsvn =>
    have hmarked : (options.contains aliasMarker || options.contains "repo") = true := by
      rw [Bool.or_eq_true]
      exact hdirect.symm
    simp only [Options.get?_eq_none_iff.2 hgit, Options.get?_eq_none_iff.2 hsvn, hmarked, if_true]
    rfl

theorem ofOptions?_eq_none {options : Options}
    (h : ∀ key ∈ SourceKind.directRepo.decidingKeys, ¬options.contains key = true)
    (name : String) (line : Nat) : ofOptions? name options line = none := by
  cases hdeclaration : ofOptions? name options line with
  | none => rfl
  | some declaration =>
    obtain ⟨-, hchosen⟩ := ofOptions?_cases hdeclaration
    obtain ⟨key, hkey, hgiven⟩ := exists_isChosenBy_iff.1 ⟨_, hchosen⟩
    exact absurd hgiven (h key hkey)

end Declaration

/-! Second arguments -/

/-- What the second argument of a `mod` call declares: the source, its location and the version. -/
inductive IsClassified : Option Value → SourceKind → Option String → Version → Prop where
  | missing : IsClassified none .forge none .latest
  | absent : IsClassified (some .absent) .forge none .latest
  | latest : IsClassified (some (.symbol "latest")) .forge none .latest
  | symbol (name : String) (h : name ≠ "latest") :
      IsClassified (some (.symbol name)) .forge none (.exact name)
  | text (text : String) : IsClassified (some (.text text)) .forge none (.exact text)
  | options {pairs : List (String × Value)} {kind : SourceKind} {location version : Option String}
      (hkind : IsChosenBy (· ∈ pairs.map Prod.fst) kind)
      (hlocation : IsFirstText pairs kind.locationKeys location)
      (hversion : IsFirstText pairs kind.versionKeys version) :
      IsClassified (some (.hash pairs)) kind location (.ofText? version)

/-- The second arguments of a `mod` call that declare nothing, with what is reported. -/
inductive IsUnknown (name : String) : Option Value → Cause → Prop where
  | list (items : List Value) :
      IsUnknown name (some (.list items)) (.unknownShape name (Value.list items).render)
  | source (content : String) :
      IsUnknown name (some (.source content)) (.unknownShape name content)
  | options {pairs : List (String × Value)}
      (h : ∀ key ∈ ["git", "svn", "repo", "boxen"], key ∉ pairs.map Prod.fst) :
      IsUnknown name (some (.hash pairs)) (.unknownOptions name (.ofPairs pairs))

theorem isClassified_or_isUnknown (name : String) (argument : Option Value) :
    (∃ kind location version, IsClassified argument kind location version) ∨
      ∃ cause, IsUnknown name argument cause := by
  rcases argument with _ | text | symbol | _ | pairs | items | content
  · exact .inl ⟨_, _, _, .missing⟩
  · exact .inl ⟨_, _, _, .text text⟩
  · by_cases hlatest : symbol = "latest"
    · rw [hlatest]
      exact .inl ⟨_, _, _, .latest⟩
    · exact .inl ⟨_, _, _, .symbol symbol hlatest⟩
  · exact .inl ⟨_, _, _, .absent⟩
  · by_cases hgiven : ∃ key ∈ SourceKind.directRepo.decidingKeys, key ∈ pairs.map Prod.fst
    · obtain ⟨kind, hkind⟩ := exists_isChosenBy_iff.2 hgiven
      exact .inl ⟨_, _, _, .options hkind (isFirstText_iff.2 rfl) (isFirstText_iff.2 rfl)⟩
    · exact .inr ⟨_, .options fun key hkey hmem => hgiven ⟨key, hkey, hmem⟩⟩
  · exact .inr ⟨_, .list items⟩
  · exact .inr ⟨_, .source content⟩

namespace Declaration

variable {name : String} {argument : Option Value}

theorem ofPayload_of_isClassified
    {kind : SourceKind} {location : Option String} {version : Version}
    (h : IsClassified argument kind location version) (name : String) (line : Nat) :
    ofPayload name (.ofArgument argument) line =
      .ok (.named name kind location version line) := by
  cases h with
  | missing => rfl
  | absent => rfl
  | latest => rfl
  | symbol symbol hlatest => rw [Payload.ofArgument, if_neg hlatest, ofPayload]
  | text text => rfl
  | options hkind hlocation hversion =>
    simp only [← Options.contains_ofPairs] at hkind
    rw [Payload.ofArgument, ofPayload, ofOptions?_of_isChosenBy hkind,
      isFirstText_iff.1 hlocation, isFirstText_iff.1 hversion]

theorem ofPayload_of_isUnknown
    {cause : Cause} (h : IsUnknown name argument cause) (line : Nat) :
    ofPayload name (.ofArgument argument) line = .error ⟨cause, line⟩ := by
  cases h with
  | list items => rfl
  | source content => rfl
  | options hkeys =>
    simp only [← Options.contains_ofPairs] at hkeys
    rw [Payload.ofArgument, ofPayload, ofOptions?_eq_none hkeys]

end Declaration

/-! Changed options -/

/-- Two lists of options with the same say on a source: they agree on which of the options that
decide on it are given, and on the last values of those that it reads. -/
structure AgreeOn (kind : SourceKind) (pairs others : List (String × Value)) : Prop where
  decides : ∀ key ∈ kind.decidingKeys, key ∈ pairs.map Prod.fst ↔ key ∈ others.map Prod.fst
  reads : ∀ key ∈ kind.locationKeys ++ kind.versionKeys, ∀ value,
    IsLast pairs key value ↔ IsLast others key value

theorem IsFirstText.congr
    {pairs others : List (String × Value)} {keys : List String} {text? : Option String}
    (h : IsFirstText pairs keys text?)
    (hlast : ∀ key ∈ keys, ∀ value, IsLast pairs key value ↔ IsLast others key value) :
    IsFirstText others keys text? := by
  have hunset : ∀ key ∈ keys, IsUnset pairs key → IsUnset others key :=
    fun key hkey hpairs value hvalue => hpairs value ((hlast key hkey value).2 hvalue)
  cases h with
  | unset h => exact .unset fun key hkey => hunset key hkey (h key hkey)
  | given hkeys hbefore htext =>
    obtain ⟨value, hvalue, htext⟩ := htext
    refine .given hkeys (fun key hkey => hunset key ?_ (hbefore key hkey))
      ⟨value, (hlast _ ?_ value).1 hvalue, htext⟩
    · rw [hkeys]
      exact List.mem_append_left _ hkey
    · rw [hkeys]
      exact List.mem_append_right _ List.mem_cons_self

theorem IsClassified.congr
    {pairs others : List (String × Value)} {kind : SourceKind} {location : Option String}
    {version : Version} (h : IsClassified (some (.hash pairs)) kind location version)
    (hagree : AgreeOn kind pairs others) :
    IsClassified (some (.hash others)) kind location version := by
  cases h with
  | options hkind hlocation hversion =>
    refine .options (hkind.congr hagree.decides) (hlocation.congr ?_) (hversion.congr ?_)
    · exact fun key hkey => hagree.reads key (List.mem_append_left _ hkey)
    · exact fun key hkey => hagree.reads key (List.mem_append_right _ hkey)

namespace Outcome

theorem ofCall_mod
    (settings : Settings) {name : String} (hname : name ≠ "") (others : List Value) (line : Nat)
    (children : List Call) :
    ofCall settings ⟨"mod", .text name :: others, line, children⟩ =
      empty.record (some (Declaration.ofPayload name (.ofArgument others.head?) line)) := by
  have hsecond : (Value.text name :: others)[1]? = others.head? := by
    rw [List.getElem?_cons_succ, List.head?_eq_getElem?]
  rw [ofCall, Call.statement, if_pos rfl, Call.moduleDeclaration, hsecond]
  simp only [List.head?_cons, if_neg hname]

theorem ofCall_mod_of_isClassified
    (settings : Settings) {name : String} (hname : name ≠ "") (others : List Value) (line : Nat)
    (children : List Call) {kind : SourceKind} {location : Option String} {version : Version}
    (h : IsClassified others.head? kind location version) :
    ofCall settings ⟨"mod", .text name :: others, line, children⟩ =
      ⟨[.named name kind location version line], []⟩ := by
  rw [ofCall_mod settings hname, Declaration.ofPayload_of_isClassified h]
  rfl

theorem ofCall_mod_of_isUnknown
    (settings : Settings) {name : String} (hname : name ≠ "") (others : List Value) (line : Nat)
    (children : List Call) {cause : Cause} (h : IsUnknown name others.head? cause) :
    ofCall settings ⟨"mod", .text name :: others, line, children⟩ = ⟨[], [⟨cause, line⟩]⟩ := by
  rw [ofCall_mod settings hname, Declaration.ofPayload_of_isUnknown h]
  rfl

/-- The second argument of a `mod` call alone decides what the call comes to, and either declares a
module or is reported. Options that a source does not read say nothing about the module. -/
theorem ofCall_mod_iff
    (settings : Settings) (name : String) (line : Nat) (children : List Call) (hname : name ≠ "") :
    let outcome := fun others => ofCall settings ⟨"mod", .text name :: others, line, children⟩
    (∀ (others : List Value) kind location version,
      outcome others = ⟨[.named name kind location version line], []⟩ ↔
        IsClassified others.head? kind location version) ∧
    (∀ (others : List Value) cause,
      outcome others = ⟨[], [⟨cause, line⟩]⟩ ↔ IsUnknown name others.head? cause) ∧
    (∀ others : List Value,
      (∃ kind location version, IsClassified others.head? kind location version) ∨
        ∃ cause, IsUnknown name others.head? cause) ∧
    ∀ pairs changed kind location version,
      IsClassified (some (.hash pairs)) kind location version → AgreeOn kind pairs changed →
        outcome [.hash changed] = outcome [.hash pairs] := by
  intro outcome
  have hclassified (others : List Value) {kind location version}
      (h : IsClassified others.head? kind location version) :
      outcome others = ⟨[.named name kind location version line], []⟩ :=
    ofCall_mod_of_isClassified settings hname others line children h
  have hunknown (others : List Value) {cause} (h : IsUnknown name others.head? cause) :
      outcome others = ⟨[], [⟨cause, line⟩]⟩ :=
    ofCall_mod_of_isUnknown settings hname others line children h
  refine ⟨?_, ?_, fun others => isClassified_or_isUnknown name others.head?, ?_⟩
  · intro others kind location version
    refine ⟨fun h => ?_, hclassified others⟩
    rcases isClassified_or_isUnknown name others.head? with ⟨_, _, _, hsome⟩ | ⟨_, hsome⟩
    · rw [hclassified others hsome] at h
      cases h
      exact hsome
    · rw [hunknown others hsome] at h
      cases h
  · intro others cause
    refine ⟨fun h => ?_, hunknown others⟩
    rcases isClassified_or_isUnknown name others.head? with ⟨_, _, _, hsome⟩ | ⟨_, hsome⟩
    · rw [hclassified others hsome] at h
      cases h
    · rw [hunknown others hsome] at h
      cases h
      exact hsome
  · intro pairs changed kind location version hpairs hagree
    calc outcome [.hash changed] = ⟨[.named name kind location version line], []⟩ :=
          hclassified [.hash changed] (hpairs.congr hagree)
      _ = outcome [.hash pairs] := (hclassified [.hash pairs] hpairs).symm

/-- The last `git` counts, a version that is `nil` is passed over, and a list is shown. Options for
another source can be left out. -/
theorem ofCall_mod_iff_git :
    let pairs : List (String × Value) :=
      [("git", .text "u"), ("svn", .text "w"), ("ref", .absent), ("branch", .symbol "main"),
        ("tag", .list [.text "1", .list [.symbol "b", .absent]]), ("git", .text "v")]
    let changed : List (String × Value) :=
      [("branch", .symbol "main"), ("tag", .list [.text "1", .list [.symbol "b", .absent]]),
        ("ref", .absent), ("git", .text "v"), ("rev", .text "2")]
    let declaration : Declaration := ⟨"x", .git, some "v", .exact "['1', ['b', nil]]", 1⟩
    "x" ≠ "" ∧
    ofCall {} ⟨"mod", [.text "x", .hash pairs], 1, []⟩ = ⟨[declaration], []⟩ ∧
    IsClassified (some (.hash pairs)) .git (some "v") (.exact "['1', ['b', nil]]") ∧
    AgreeOn .git pairs changed ∧
    ofCall {} ⟨"mod", [.text "x", .hash changed], 1, []⟩ = ⟨[declaration], []⟩ := by
  intro pairs changed declaration
  have hname : "x" ≠ "" := by decide
  have houtcome : ofCall {} ⟨"mod", [.text "x", .hash pairs], 1, []⟩ = ⟨[declaration], []⟩ := rfl
  have hagree : AgreeOn .git pairs changed := by
    constructor
    · decide
    · intro key hkey value
      rw [isLast_iff, isLast_iff]
      simp only [SourceKind.locationKeys, SourceKind.versionKeys, List.cons_append,
        List.nil_append, List.mem_cons, List.not_mem_nil, or_false] at hkey
      rcases hkey with rfl | rfl | rfl | rfl | rfl <;> exact Iff.rfl
  obtain ⟨hclassified, -, -, hchanged⟩ := ofCall_mod_iff {} "x" 1 [] hname
  have hgit := (hclassified [.hash pairs] _ _ _).1 houtcome
  exact ⟨hname, houtcome, hgit, hagree, (hchanged pairs changed _ _ _ hgit hagree).trans houtcome⟩

end Outcome

end PuppetInventory
