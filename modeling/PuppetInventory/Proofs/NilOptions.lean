import PuppetInventory.Proofs.Precedence

/-!
Options that are `nil`. They count as absent where a location or a version is read, but not where a
source is chosen. So options come to the same without those that are `nil` exactly if the chosen
source is named by an option that is not `nil`, or if no source is chosen.
-/

namespace PuppetInventory

/-! Options without `nil` -/

section Pairs

variable {pairs : List (String × Value)} {key : String}

instance (pairs : List (String × Value)) (key : String) : Decidable (IsUnset pairs key) :=
  decidable_of_iff ((pairs.reverse.lookup key).bind Value.optionText? = none)
    (by rw [isUnset_iff, plain?_get?_ofPairs])

/-- The options without every key whose last value is `nil`. -/
def withoutUnset (pairs : List (String × Value)) : List (String × Value) :=
  pairs.filter fun pair => ¬IsUnset pairs pair.1

theorem lookup_withoutUnset (pairs : List (String × Value)) (key : String) :
    (withoutUnset pairs).reverse.lookup key =
      if IsUnset pairs key then none else pairs.reverse.lookup key := by
  rw [withoutUnset, ← List.filter_reverse,
    Options.lookup_filter_keys (fun key => decide ¬IsUnset pairs key)]
  by_cases h : IsUnset pairs key <;> simp [h]

theorem mem_keys_withoutUnset_iff :
    key ∈ (withoutUnset pairs).map Prod.fst ↔ ¬IsUnset pairs key := by
  rw [← exists_isLast_iff]
  simp only [isLast_iff, lookup_withoutUnset]
  by_cases h : IsUnset pairs key
  · simp [h]
  · -- A key that is not given is not set.
    obtain ⟨value, hvalue⟩ := Classical.not_forall.1 h
    simp only [h, if_false, not_false_eq_true, iff_true]
    exact ⟨value, isLast_iff.1 (Classical.not_imp.1 hvalue).1⟩

theorem mem_keys_of_withoutUnset (h : key ∈ (withoutUnset pairs).map Prod.fst) :
    key ∈ pairs.map Prod.fst := by
  obtain ⟨pair, hpair, rfl⟩ := List.mem_map.1 h
  exact List.mem_map_of_mem (List.mem_filter.1 hpair).1

/-- Where texts are read, options that are `nil` count as absent. -/
theorem firstPlain?_withoutUnset (pairs : List (String × Value)) (keys : List String) :
    (Options.ofPairs (withoutUnset pairs)).firstPlain? keys =
      (Options.ofPairs pairs).firstPlain? keys := by
  have htext : ∀ key, ((Options.ofPairs (withoutUnset pairs)).get? key).bind OptionValue.plain? =
      ((Options.ofPairs pairs).get? key).bind OptionValue.plain? := by
    intro key
    rw [plain?_get?_ofPairs, lookup_withoutUnset]
    split
    · next hunset => exact (isUnset_iff.1 hunset).symm
    · exact (plain?_get?_ofPairs pairs key).symm
  rw [Options.firstPlain?, Options.firstPlain?]
  simp only [htext]

theorem firstPlain?_eq_none_iff {keys : List String} :
    (Options.ofPairs pairs).firstPlain? keys = none ↔ ∀ key ∈ keys, IsUnset pairs key := by
  rw [Options.firstPlain?, List.findSome?_eq_none_iff]
  simp only [isUnset_iff]

end Pairs

/-! Named sources -/

/-- The options that name a source. -/
def SourceKind.namingKeys : SourceKind → List String
  | .forge => []
  | .git => ["git"]
  | .svn => ["svn"]
  | .directRepo => ["repo", "boxen"]

theorem SourceKind.mem_namingKeys_of_mem_locationKeys {kind : SourceKind} {key : String}
    (h : key ∈ kind.locationKeys) : key ∈ kind.namingKeys := by
  cases kind with
  | forge => exact h
  | git => exact h
  | svn => exact h
  | directRepo => exact List.mem_cons.2 (.inl (List.mem_singleton.1 h))

namespace IsChosenBy

variable {given other : String → Prop} {kind : SourceKind}

theorem exists_namingKey (h : IsChosenBy given kind) : ∃ key ∈ kind.namingKeys, given key := by
  cases h with
  | git hgit => exact ⟨"git", by decide, hgit⟩
  | svn hsvn hgit => exact ⟨"svn", by decide, hsvn⟩
  | directRepo hdirect hgit hsvn =>
    rcases hdirect with hrepo | hboxen
    · exact ⟨"repo", by decide, hrepo⟩
    · exact ⟨"boxen", by decide, hboxen⟩

theorem of_fewer (h : IsChosenBy given kind) (hfewer : ∀ key, other key → given key)
    (hnamed : ∃ key ∈ kind.namingKeys, other key) : IsChosenBy other kind := by
  obtain ⟨key, hkey, hother⟩ := hnamed
  cases h with
  | git hgit =>
    rw [SourceKind.namingKeys, List.mem_singleton] at hkey
    exact .git (hkey ▸ hother)
  | svn hsvn hgit =>
    rw [SourceKind.namingKeys, List.mem_singleton] at hkey
    exact .svn (hkey ▸ hother) (mt (hfewer "git") hgit)
  | directRepo hdirect hgit hsvn =>
    refine .directRepo ?_ (mt (hfewer "git") hgit) (mt (hfewer "svn") hsvn)
    rw [SourceKind.namingKeys, List.mem_cons, List.mem_singleton] at hkey
    rcases hkey with rfl | rfl
    · exact .inl hother
    · exact .inr hother

end IsChosenBy

namespace Outcome

section Options

variable {settings : Settings} {name : String} {pairs : List (String × Value)} {rest : List Value}
  {line : Nat} {children : List Call}

theorem ofCall_mod_of_isChosenBy
    (hname : name ≠ "") {kind : SourceKind} (hkind : IsChosenBy (· ∈ pairs.map Prod.fst) kind) :
    ofCall settings ⟨"mod", .text name :: .hash pairs :: rest, line, children⟩ =
      ⟨[.named name kind ((Options.ofPairs pairs).firstPlain? kind.locationKeys)
        (.ofText? ((Options.ofPairs pairs).firstPlain? kind.versionKeys)) line], []⟩ :=
  ofCall_mod_of_isClassified settings hname (.hash pairs :: rest) line children
    (.options hkind (isFirstText_iff.2 rfl) (isFirstText_iff.2 rfl))

theorem ofCall_mod_of_unnamed
    (hname : name ≠ "") (hnone : ¬∃ kind, IsChosenBy (· ∈ pairs.map Prod.fst) kind) :
    ofCall settings ⟨"mod", .text name :: .hash pairs :: rest, line, children⟩ =
      ⟨[], [⟨.unknownOptions name (.ofPairs pairs), line⟩]⟩ :=
  ofCall_mod_of_isUnknown settings hname (.hash pairs :: rest) line children
    (.options fun key hkey hgiven => hnone (exists_isChosenBy_iff.2 ⟨key, hkey, hgiven⟩))

theorem exists_isChosenBy_of_mem_ofCall_mod (hname : name ≠ "") {declaration : Declaration}
    (h : declaration ∈
      (ofCall settings ⟨"mod", .text name :: .hash pairs :: rest, line, children⟩).declarations) :
    IsChosenBy (· ∈ pairs.map Prod.fst) declaration.kind ∧
      declaration.location =
        (Options.ofPairs pairs).firstPlain? declaration.kind.locationKeys := by
  by_cases hsome : ∃ kind, IsChosenBy (· ∈ pairs.map Prod.fst) kind
  · obtain ⟨kind, hkind⟩ := hsome
    rw [ofCall_mod_of_isChosenBy hname hkind] at h
    rw [List.mem_singleton.1 h]
    exact ⟨hkind, rfl⟩
  · rw [ofCall_mod_of_unnamed hname hsome] at h
    cases h

theorem ofCall_mod_withoutUnset
    (hname : name ≠ "") {kind : SourceKind} (hkind : IsChosenBy (· ∈ pairs.map Prod.fst) kind)
    (hset : ∃ key ∈ kind.namingKeys, ¬IsUnset pairs key) :
    ofCall settings ⟨"mod", .text name :: .hash pairs :: rest, line, children⟩ =
      ofCall settings
        ⟨"mod", .text name :: .hash (withoutUnset pairs) :: rest, line, children⟩ := by
  have hkept : IsChosenBy (· ∈ (withoutUnset pairs).map Prod.fst) kind := by
    refine hkind.of_fewer (fun _ => mem_keys_of_withoutUnset) ?_
    simpa only [mem_keys_withoutUnset_iff] using hset
  rw [ofCall_mod_of_isChosenBy hname hkind, ofCall_mod_of_isChosenBy hname hkept,
    firstPlain?_withoutUnset, firstPlain?_withoutUnset]

theorem ofCall_mod_of_unset
    (hname : name ≠ "") {kind : SourceKind} (hkind : IsChosenBy (· ∈ pairs.map Prod.fst) kind)
    (hunset : ∀ key ∈ kind.namingKeys, IsUnset pairs key) :
    ofCall settings ⟨"mod", .text name :: .hash pairs :: rest, line, children⟩ =
      ⟨[.named name kind none
        (.ofText? ((Options.ofPairs pairs).firstPlain? kind.versionKeys)) line], []⟩ := by
  have hlocation : (Options.ofPairs pairs).firstPlain? kind.locationKeys = none :=
    firstPlain?_eq_none_iff.2 fun key hkey =>
      hunset key (SourceKind.mem_namingKeys_of_mem_locationKeys hkey)
  rw [ofCall_mod_of_isChosenBy hname hkind, hlocation]

/-- Without the options that are `nil`, a source that only they name is not chosen. -/
theorem kind_ne_of_unset
    (hname : name ≠ "") {kind : SourceKind} (hunset : ∀ key ∈ kind.namingKeys, IsUnset pairs key)
    {declaration : Declaration}
    (h : declaration ∈
      (ofCall settings
        ⟨"mod", .text name :: .hash (withoutUnset pairs) :: rest, line, children⟩).declarations) :
    declaration.kind ≠ kind := by
  rintro rfl
  obtain ⟨key, hkey, hgiven⟩ := (exists_isChosenBy_of_mem_ofCall_mod hname h).1.exists_namingKey
  exact mem_keys_withoutUnset_iff.1 hgiven (hunset key hkey)

theorem ofCall_mod_withoutUnset_of_unnamed
    (hname : name ≠ "") (hnone : ¬∃ kind, IsChosenBy (· ∈ pairs.map Prod.fst) kind) :
    ofCall settings ⟨"mod", .text name :: .hash (withoutUnset pairs) :: rest, line, children⟩ =
      ⟨[], [⟨.unknownOptions name (.ofPairs (withoutUnset pairs)), line⟩]⟩ := by
  refine ofCall_mod_of_unnamed hname fun hkept => hnone ?_
  obtain ⟨key, hkey, hgiven⟩ := exists_isChosenBy_iff.1 hkept
  exact exists_isChosenBy_iff.2 ⟨key, hkey, mem_keys_of_withoutUnset hgiven⟩

theorem ofCall_mod_empty_name (others : List Value) :
    ofCall settings ⟨"mod", .text "" :: others, line, children⟩ =
      ⟨[], [⟨.nonStringName (some (.text "")), line⟩]⟩ := by
  rw [ofCall, Call.statement, if_pos rfl]
  rfl

theorem location_eq_none_iff_of_mem_ofCall_mod {declaration : Declaration}
    (h : declaration ∈
      (ofCall settings ⟨"mod", .text name :: .hash pairs :: rest, line, children⟩).declarations)
    (hkind : declaration.kind = .git ∨ declaration.kind = .svn) :
    declaration.location = none ↔ ∀ key ∈ declaration.kind.namingKeys, IsUnset pairs key := by
  have hname : name ≠ "" := by
    rintro rfl
    rw [ofCall_mod_empty_name] at h
    cases h
  rw [(exists_isChosenBy_of_mem_ofCall_mod hname h).2, firstPlain?_eq_none_iff]
  rcases hkind with hgit | hsvn
  · rw [hgit]
    rfl
  · rw [hsvn]
    rfl

end Options

/-- Leaving out the options that are `nil` changes nothing, up to the options that a report shows,
exactly if the source that is chosen, if there is one, is named by an option that is not `nil`.
Otherwise the module is declared without a location, and it is not declared so without these
options. -/
theorem ofCall_mod_withoutUnset_iff
    (settings : Settings) (name : String) (pairs : List (String × Value)) (rest : List Value)
    (line : Nat) (children : List Call) :
    let outcome := fun pairs =>
      ofCall settings ⟨"mod", .text name :: .hash pairs :: rest, line, children⟩
    let isUnknown := fun pairs =>
      outcome pairs = ⟨[], [⟨.unknownOptions name (.ofPairs pairs), line⟩]⟩
    let chosen := IsChosenBy (· ∈ pairs.map Prod.fst)
    (outcome pairs = outcome (withoutUnset pairs) ∨
        (isUnknown pairs ∧ isUnknown (withoutUnset pairs)) ↔
      name = "" ∨ ∀ kind, chosen kind → ∃ key ∈ kind.namingKeys, ¬IsUnset pairs key) ∧
    (name ≠ "" → ∀ kind, chosen kind → (∀ key ∈ kind.namingKeys, IsUnset pairs key) →
      (∃ version, IsFirstText pairs kind.versionKeys version ∧
        outcome pairs = ⟨[.named name kind none (.ofText? version) line], []⟩) ∧
      ∀ declaration ∈ (outcome (withoutUnset pairs)).declarations, declaration.kind ≠ kind) ∧
    ∀ declaration ∈ (outcome pairs).declarations,
      declaration.kind = .git ∨ declaration.kind = .svn →
      (declaration.location = none ↔ ∀ key ∈ declaration.kind.namingKeys, IsUnset pairs key) := by
  intro outcome isUnknown chosen
  refine ⟨⟨?_, ?_⟩, ?_, fun declaration => location_eq_none_iff_of_mem_ofCall_mod⟩
  · intro hsame
    refine Classical.or_iff_not_imp_left.2 fun hname kind hkind => ?_
    refine Classical.byContradiction fun hnone => ?_
    have hunset : ∀ key ∈ kind.namingKeys, IsUnset pairs key := fun key hkey =>
      Classical.byContradiction fun hset => hnone ⟨key, hkey, hset⟩
    obtain ⟨declaration, hsource, hdeclared⟩ :
        ∃ declaration : Declaration, declaration.kind = kind ∧ outcome pairs = ⟨[declaration], []⟩ :=
      ⟨_, rfl, ofCall_mod_of_unset hname hkind hunset⟩
    rcases hsame with heq | ⟨hunknown, -⟩
    · have hmem : declaration ∈ (outcome (withoutUnset pairs)).declarations := by
        rw [← heq, hdeclared]
        exact List.mem_singleton_self declaration
      exact kind_ne_of_unset hname hunset hmem hsource
    · cases hunknown.symm.trans hdeclared
  · intro hset
    by_cases hname : name = ""
    · refine .inl ?_
      show ofCall settings _ = ofCall settings _
      rw [hname, ofCall_mod_empty_name, ofCall_mod_empty_name]
    · by_cases hsome : ∃ kind, chosen kind
      · obtain ⟨kind, hkind⟩ := hsome
        exact .inl (ofCall_mod_withoutUnset hname hkind (hset.resolve_left hname kind hkind))
      · exact .inr ⟨ofCall_mod_of_unnamed hname hsome,
          ofCall_mod_withoutUnset_of_unnamed hname hsome⟩
  · intro hname kind hkind hunset
    exact ⟨⟨_, isFirstText_iff.2 rfl, ofCall_mod_of_unset hname hkind hunset⟩,
      fun declaration => kind_ne_of_unset hname hunset⟩

/-- A version that is `nil`, and a repository that is `nil` beside a mark that is not. -/
theorem ofCall_mod_withoutUnset_iff_marked :
    let pairs : List (String × Value) :=
      [("repo", .absent), ("boxen", .text "boxen"), ("version", .text "1"), ("version", .absent)]
    withoutUnset pairs = [("boxen", .text "boxen")] ∧
    (∀ kind, IsChosenBy (· ∈ pairs.map Prod.fst) kind →
      ∃ key ∈ kind.namingKeys, ¬IsUnset pairs key) ∧
    ofCall {} ⟨"mod", [.text "x", .hash pairs], 1, []⟩ =
      ofCall {} ⟨"mod", [.text "x", .hash (withoutUnset pairs)], 1, []⟩ := by
  intro pairs
  have hset : ∀ kind, IsChosenBy (· ∈ pairs.map Prod.fst) kind →
      ∃ key ∈ kind.namingKeys, ¬IsUnset pairs key := by
    intro kind hkind
    cases hkind with
    | git hgit => exact absurd hgit (by decide)
    | svn hsvn => exact absurd hsvn (by decide)
    | directRepo => exact ⟨"boxen", by decide, by decide⟩
  refine ⟨rfl, hset, ?_⟩
  rcases (ofCall_mod_withoutUnset_iff {} "x" pairs [] 1 []).1.2 (.inr hset) with hsame | ⟨hunknown, -⟩
  · exact hsame
  · exact absurd (congrArg (fun outcome => outcome.declarations.length) hunknown) (by decide)

/-- A source that is `nil` is chosen all the same, and leaves no place for the one beside it. -/
theorem ofText_git_nil :
    let pairs : List (String × Value) := [("git", .absent), ("svn", .text "u")]
    withoutUnset pairs = [("svn", .text "u")] ∧
    ofCall {} ⟨"mod", [.text "x", .hash pairs], 1, []⟩ =
      ⟨[⟨"x", .git, none, .latest, 1⟩], []⟩ ∧
    ofCall {} ⟨"mod", [.text "x", .hash (withoutUnset pairs)], 1, []⟩ =
      ⟨[⟨"x", .svn, some "u", .latest, 1⟩], []⟩ ∧
    (ofText {} "mod 'x', git: nil, svn: 'u'\n").declarations =
      [⟨"x", .git, none, .latest, 1⟩] := by
  refine ⟨rfl, rfl, rfl, ?_⟩
  decide +kernel

end Outcome

end PuppetInventory
