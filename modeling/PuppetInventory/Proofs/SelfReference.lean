import PuppetInventory.Proofs.Attribution

/-!
What the analysed module has to do with the sources of its rows. An element that is named after the
module is looked up whole, and that differs from looking up its owner only if the name holds `::` or
an underscore. So two modules get the same sources for all elements but those named after one of
them, and for these too if neither name holds a mark.
-/

namespace PuppetInventory.Usage

/-! Names that are the whole of their owner -/

theorem IsBeforeFirst.ne_text {mark text part : String} (h : IsBeforeFirst mark text part)
    (hmark : mark ≠ "") : part ≠ text := by
  rintro rfl
  obtain ⟨rest, hrest⟩ := h.1
  have hlength := congrArg String.length hrest
  rw [String.length_append, String.length_append] at hlength
  have hpos : mark.length ≠ 0 := fun hzero => hmark (String.length_eq_zero_iff.1 hzero)
  omega

/-- The owner of an element is the element itself exactly if no mark divides it. -/
theorem ownerName_eq_self_iff {element : String} :
    ownerName element = element ↔ IsUndivided element := by
  constructor
  · intro h
    rcases ownerName_cases element with hnamespace | ⟨-, hunderscore⟩ | ⟨hundivided, -⟩
    · exact absurd h (hnamespace.ne_text (by decide))
    · exact absurd h (hunderscore.ne_text (by decide))
    · exact hundivided
  · intro h
    rcases ownerName_cases element with ⟨⟨rest, hrest⟩, -⟩ | ⟨-, ⟨rest, hrest⟩, -⟩ | ⟨-, hself⟩
    · exact absurd hrest (h.noNamespace _ _)
    · exact absurd hrest (h.noPrefix _ _)
    · exact hself

theorem lookupName_own {moduleName element : String} (h : element = bareName moduleName) :
    lookupName moduleName element = element :=
  if_pos h

theorem lookupName_of_ne {moduleName element : String} (h : element ≠ bareName moduleName) :
    lookupName moduleName element = ownerName element :=
  if_neg h

/-- The module decides how an element is looked up only if the element is named after it, and only
if a mark divides that name. -/
theorem lookupName_ne_ownerName_iff {moduleName element : String} :
    lookupName moduleName element ≠ ownerName element ↔
      element = bareName moduleName ∧ ¬IsUndivided element := by
  by_cases hown : element = bareName moduleName
  · rw [lookupName_own hown, ne_comm, Ne, ownerName_eq_self_iff]
    exact (and_iff_right hown).symm
  · rw [lookupName_of_ne hown]
    exact ⟨fun h => absurd rfl h, fun h => absurd h.1 hown⟩

theorem lookupName_of_undivided {moduleName : String} (h : IsUndivided (bareName moduleName))
    (element : String) : lookupName moduleName element = ownerName element := by
  by_contra hne
  obtain ⟨hown, hdivided⟩ := lookupName_ne_ownerName_iff.1 hne
  exact hdivided (hown ▸ h)

/-! Sources -/

section Sources

variable {dependencies : List String} {name other dependency : String}

theorem isBareName_of_findSource? (h : findSource? dependencies name = some dependency) :
    IsBareName dependency name := by
  obtain ⟨-, -, -, hname, -⟩ := findSource?_eq_some_iff.1 h
  exact hname

/-- Different names have the same source only if they have none. -/
theorem findSource?_eq_iff_of_ne (hne : name ≠ other) :
    findSource? dependencies name = findSource? dependencies other ↔
      findSource? dependencies name = none ∧ findSource? dependencies other = none := by
  constructor
  · intro h
    cases hname : findSource? dependencies name with
    | none => exact ⟨rfl, h ▸ hname⟩
    | some dependency =>
      have hfirst := isBareName_iff.1 (isBareName_of_findSource? hname)
      have hsecond := isBareName_iff.1 (isBareName_of_findSource? (h ▸ hname))
      exact absurd (hfirst.symm.trans hsecond) hne
  · rintro ⟨hname, hother⟩
    rw [hname, hother]

end Sources

/-- What the naming conventions credit an element to when no module is named after it. -/
def guessedSource? (dependencies : List String) (element : String) : Option String :=
  findSource? dependencies (ownerName element)

theorem source_ne_guessed_iff
    (moduleName version : String) (dependencies : List String) (observation : Observation) :
    let row := rowOf moduleName version dependencies observation
    let guessed := guessedSource? dependencies observation.element
    row.source ≠ guessed ↔
      observation.element = bareName moduleName ∧ ¬IsUndivided observation.element ∧
        (row.source ≠ none ∨ guessed ≠ none) := by
  intro row guessed
  by_cases hlookup : lookupName moduleName observation.element = ownerName observation.element
  · have hsource : row.source = guessed := congrArg (findSource? dependencies) hlookup
    constructor
    · intro h
      exact absurd hsource h
    · rintro ⟨hown, hdivided, -⟩
      exact absurd hlookup (lookupName_ne_ownerName_iff.2 ⟨hown, hdivided⟩)
  · obtain ⟨hown, hdivided⟩ := lookupName_ne_ownerName_iff.1 hlookup
    have hsame : row.source = guessed ↔ row.source = none ∧ guessed = none :=
      findSource?_eq_iff_of_ne hlookup
    rw [Ne, hsame, not_and_or]
    exact ⟨fun h => ⟨hown, hdivided, h⟩, fun h => h.2.2⟩

/-! Rows of two modules -/

/-- Two rows that say the same of an observation, whatever modules they belong to. -/
structure Row.SaysAs (row other : Row) : Prop where
  source_eq : row.source = other.source
  kind_eq : row.kind = other.kind
  element_eq : row.element = other.element
  count_eq : row.count = other.count

theorem rowOf_saysAs
    {moduleName other version otherVersion : String} {dependencies : List String}
    {observation : Observation}
    (h : lookupName moduleName observation.element = lookupName other observation.element) :
    (rowOf moduleName version dependencies observation).SaysAs
      (rowOf other otherVersion dependencies observation) :=
  ⟨congrArg (findSource? dependencies) h, rfl, rfl, rfl⟩

theorem getElem?_attributeAll
    {observations : List Observation} {i : Nat} {observation : Observation}
    (h : observations[i]? = some observation) (moduleName version : String)
    (dependencies : List String) :
    (attributeAll moduleName version dependencies observations)[i]? =
      some (rowOf moduleName version dependencies observation) := by
  rw [attributeAll, List.getElem?_map, h, Option.map_some]

/-- The modules of two runs bear on no row but those of elements that are named after one of them.
A row differs from what the naming conventions alone credit exactly if its element is the module's
own name, a mark divides that name, and one of the two finds a dependency. -/
theorem attributeAll_noninterference
    (moduleName other version otherVersion : String) (dependencies : List String)
    (observations : List Observation) :
    let rows := attributeAll moduleName version dependencies observations
    let otherRows := attributeAll other otherVersion dependencies observations
    rows.length = observations.length ∧ otherRows.length = observations.length ∧
    ∀ (i : Nat) (observation : Observation) (row otherRow : Row),
      observations[i]? = some observation → rows[i]? = some row →
      otherRows[i]? = some otherRow →
      let guessed := guessedSource? dependencies observation.element
      (observation.element ≠ bareName moduleName ∧ observation.element ≠ bareName other ∨
          IsUndivided (bareName moduleName) ∧ IsUndivided (bareName other) →
        row.SaysAs otherRow) ∧
      (row.source ≠ guessed ↔
        observation.element = bareName moduleName ∧ ¬IsUndivided observation.element ∧
          (row.source ≠ none ∨ guessed ≠ none)) ∧
      (observation.element = bareName moduleName →
        ∀ dependency, row.source = some dependency →
          IsBareName dependency observation.element) := by
  intro rows otherRows
  refine ⟨List.length_map _, List.length_map _, ?_⟩
  intro i observation row otherRow hobservation hrow hotherRow guessed
  obtain rfl : rowOf moduleName version dependencies observation = row :=
    Option.some.inj ((getElem?_attributeAll hobservation _ _ _).symm.trans hrow)
  obtain rfl : rowOf other otherVersion dependencies observation = otherRow :=
    Option.some.inj ((getElem?_attributeAll hobservation _ _ _).symm.trans hotherRow)
  refine ⟨?_, source_ne_guessed_iff moduleName version dependencies observation, ?_⟩
  · rintro (⟨hne, hotherNe⟩ | ⟨hundivided, hotherUndivided⟩)
    · exact rowOf_saysAs ((lookupName_of_ne hne).trans (lookupName_of_ne hotherNe).symm)
    · exact rowOf_saysAs ((lookupName_of_undivided hundivided _).trans
        (lookupName_of_undivided hotherUndivided _).symm)
  · intro hown dependency hsource
    have hname := isBareName_of_findSource? hsource
    rwa [lookupName_own hown] at hname

/-- An element with the divided name of the first module, one with the plain name of the second, and
one that is named after neither. -/
theorem attributeAll_noninterference_mysql_tools :
    let dependencies := ["acme-mysql", "puppetlabs-mysql_tools"]
    let observations : List Observation :=
      [⟨"classes", "mysql_tools", 1⟩, ⟨"classes", "widget", 2⟩, ⟨"functions", "mysql_backup", 3⟩]
    let own := attributeAll "acme-mysql_tools" "1" dependencies observations
    let plain := attributeAll "acme-widget" "2" dependencies observations
    let bare := attributeAll "widget" "3" dependencies observations
    (∃ row ∈ own[0]?, row.source ≠ guessedSource? dependencies "mysql_tools" ∧
      IsBareName "puppetlabs-mysql_tools" "mysql_tools") ∧
    (∃ row ∈ plain[1]?, ∃ other ∈ bare[1]?, row.SaysAs other) ∧
    ∃ row ∈ own[2]?, ∃ other ∈ plain[2]?, row.SaysAs other := by
  intro dependencies observations own plain bare
  have hdivided : ¬IsUndivided "mysql_tools" := fun h => h.noPrefix "mysql" "tools" (by decide)
  have hundivided : IsUndivided "widget" := ownerName_eq_self_iff.1 (by decide +kernel)
  have hwidget : bareName "acme-widget" = "widget" ∧ bareName "widget" = "widget" := by
    decide +kernel
  obtain ⟨-, -, hrows⟩ := attributeAll_noninterference "acme-mysql_tools" "acme-widget" "1" "2"
    dependencies observations
  obtain ⟨-, -, hplain⟩ := attributeAll_noninterference "acme-widget" "widget" "2" "3"
    dependencies observations
  obtain ⟨-, hown, hname⟩ := hrows 0 _ _ _ rfl rfl rfl
  refine ⟨⟨_, rfl, ?_, ?_⟩, ⟨_, rfl, _, rfl, ?_⟩, ⟨_, rfl, _, rfl, ?_⟩⟩
  · exact hown.2 ⟨by decide +kernel, hdivided, .inr (by decide +kernel)⟩
  · exact hname (by decide +kernel) _ (by decide +kernel)
  · refine (hplain 1 _ _ _ rfl rfl rfl).1 (.inr ?_)
    rw [hwidget.1, hwidget.2]
    exact ⟨hundivided, hundivided⟩
  · exact (hrows 2 _ _ _ rfl rfl rfl).1 (.inl (by decide +kernel))

end PuppetInventory.Usage
