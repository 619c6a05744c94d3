import Mathlib.Data.List.Forall2
import Mathlib.Data.List.TakeWhile
import PuppetInventory.Usage.Attribution

/-!
The naming conventions of attribution, stated by what the names are made of, and the rows that
follow from them: one for each observation, with the first dependency of the name it points at.
-/

namespace PuppetInventory.Usage

/-! Singular kinds -/

/-- `classes` is the plural of `class`, and `types` that of `type`; all else has no plural form. -/
inductive IsSingular : String → String → Prop where
  | sibilant (stem : String) : IsSingular (stem ++ "ses") (stem ++ "s")
  | regular {stem : String} (h : ∀ front, stem ++ "s" ≠ front ++ "ses") :
    IsSingular (stem ++ "s") stem
  | unmarked {kind : String} (h : ∀ stem, kind ≠ stem ++ "s") : IsSingular kind kind

theorem eq_append_of_reverse_eq (ending : List Char) {text : String} {rest : List Char}
    (h : text.toList.reverse = ending ++ rest) :
    text = String.ofList rest.reverse ++ String.ofList ending.reverse := by
  rw [← String.ofList_append, ← List.reverse_append, ← h, List.reverse_reverse,
    String.ofList_toList]

theorem isSingular_singular (kind : String) : IsSingular kind (singular kind) := by
  unfold singular
  split
  · next rest h =>
    have hkind : kind = String.ofList rest.reverse ++ "ses" :=
      eq_append_of_reverse_eq ['s', 'e', 's'] h
    have hstem : String.ofList ('s' :: rest).reverse = String.ofList rest.reverse ++ "s" := by
      rw [List.reverse_cons, String.ofList_append]
    rw [hkind, hstem]
    exact .sibilant _
  · next rest hsibilant h =>
    have hkind : kind = String.ofList rest.reverse ++ "s" :=
      eq_append_of_reverse_eq ['s'] h
    rw [hkind]
    refine .regular fun front hfront => ?_
    have hreverse : 's' :: rest = 's' :: 'e' :: 's' :: front.toList.reverse := by
      rw [← h, hkind, hfront]
      simp
    exact hsibilant front.toList.reverse (List.cons.inj hreverse).2
  · next _ hregular =>
    refine .unmarked fun stem hstem => ?_
    rw [hstem] at hregular
    exact hregular stem.toList.reverse (by simp)

/-! Up to a mark -/

theorem takeWhile_ne_eq_self {mark : Char} {chars : List Char} (h : mark ∉ chars) :
    chars.takeWhile (· ≠ mark) = chars := by
  rw [List.takeWhile_eq_self_iff]
  intro c hc
  have hne : c ≠ mark := fun heq => h (heq ▸ hc)
  simp [hne]

theorem takeWhile_ne_append {mark : Char} {front rest : List Char} (h : mark ∉ front) :
    (front ++ mark :: rest).takeWhile (· ≠ mark) = front := by
  induction front with
  | nil => simp
  | cons c front ih =>
    rw [List.mem_cons, not_or] at h
    have hne : c ≠ mark := fun heq => h.1 heq.symm
    rw [List.cons_append, List.takeWhile_cons_of_pos (by simp [hne]), ih h.2]

theorem exists_eq_takeWhile_ne_append {mark : Char} {chars : List Char} (h : mark ∈ chars) :
    ∃ rest, chars = chars.takeWhile (· ≠ mark) ++ mark :: rest := by
  -- The first mark splits the characters, and none of those before it is one.
  obtain ⟨front, rest, hsplit, hfront⟩ := List.eq_append_cons_of_mem h
  refine ⟨rest, ?_⟩
  rw [hsplit, takeWhile_ne_append hfront]

theorem length_takeWhile_ne_append_le (mark : Char) (front rest : List Char) :
    ((front ++ mark :: rest).takeWhile (· ≠ mark)).length ≤ front.length := by
  induction front with
  | nil => simp
  | cons c front ih =>
    rw [List.cons_append, List.takeWhile_cons]
    split
    · exact Nat.succ_le_succ ih
    · exact Nat.zero_le _

/-! Bare names -/

/-- What stands behind the last hyphen of a slug; a slug without hyphens is its own bare name. -/
def IsBareName (slug name : String) : Prop :=
  '-' ∉ name.toList ∧ (slug = name ∨ ∃ owner, slug = owner ++ "-" ++ name)

theorem hyphen_not_mem_bareName (slug : String) : '-' ∉ (bareName slug).toList := by
  intro hmem
  rw [bareName, String.toList_ofList, List.mem_reverse] at hmem
  have hne := List.all_eq_true.1 List.all_takeWhile '-' hmem
  simp at hne

theorem isBareName_bareName (slug : String) : IsBareName slug (bareName slug) := by
  refine ⟨hyphen_not_mem_bareName slug, ?_⟩
  by_cases hyphen : '-' ∈ slug.toList.reverse
  · obtain ⟨front, hsplit⟩ := exists_eq_takeWhile_ne_append hyphen
    refine .inr ⟨String.ofList front.reverse, String.toList_inj.1 ?_⟩
    have hslug := congrArg List.reverse hsplit
    rw [List.reverse_reverse] at hslug
    rw [hslug, bareName]
    simp
  · refine .inl ?_
    rw [bareName, takeWhile_ne_eq_self hyphen, List.reverse_reverse, String.ofList_toList]

theorem takeWhile_reverse_of_isBareName {slug name : String} (h : IsBareName slug name) :
    slug.toList.reverse.takeWhile (· ≠ '-') = name.toList.reverse := by
  obtain ⟨hnone, hslug⟩ := h
  have hname : '-' ∉ name.toList.reverse := fun hmem => hnone (List.mem_reverse.1 hmem)
  rcases hslug with rfl | ⟨owner, rfl⟩
  · exact takeWhile_ne_eq_self hname
  · have hreverse : (owner ++ "-" ++ name).toList.reverse =
        name.toList.reverse ++ '-' :: owner.toList.reverse := by simp
    rw [hreverse, takeWhile_ne_append hname]

theorem isBareName_iff {slug name : String} : IsBareName slug name ↔ bareName slug = name := by
  constructor
  · intro h
    rw [bareName, takeWhile_reverse_of_isBareName h, List.reverse_reverse, String.ofList_toList]
  · rintro rfl
    exact isBareName_bareName slug

/-! The name that an element points at -/

/-- `part` is what stands in front of the first `mark` of a text. -/
def IsBeforeFirst (mark text part : String) : Prop :=
  (∃ rest, text = part ++ mark ++ rest) ∧
    ∀ front rest, text = front ++ mark ++ rest → part.length ≤ front.length

theorem IsBeforeFirst.unique {mark text part other : String}
    (hpart : IsBeforeFirst mark text part) (hother : IsBeforeFirst mark text other) :
    part = other := by
  obtain ⟨⟨rest, htext⟩, hfirst⟩ := hpart
  obtain ⟨⟨rest', htext'⟩, hfirst'⟩ := hother
  have hlength : part.toList.length = other.toList.length := by
    rw [String.length_toList, String.length_toList]
    exact Nat.le_antisymm (hfirst other rest' htext') (hfirst' part rest htext)
  have happend : part.toList ++ (mark ++ rest).toList = other.toList ++ (mark ++ rest').toList := by
    rw [← String.toList_append, ← String.toList_append, ← String.append_assoc,
      ← String.append_assoc, ← htext, ← htext']
  exact String.toList_inj.1 (List.append_inj happend hlength).1

theorem append_of_beforeSeparator? {text part : List Char} (h : beforeSeparator? text = some part) :
    ∃ rest, text = part ++ ':' :: ':' :: rest := by
  induction text generalizing part with
  | nil => simp [beforeSeparator?] at h
  | cons c text ih =>
    rw [beforeSeparator?.eq_def] at h
    split at h
    · next rest heq =>
      cases heq
      cases h
      exact ⟨rest, rfl⟩
    · next heq =>
      cases heq
      obtain ⟨tail, htail, rfl⟩ := Option.map_eq_some_iff.1 h
      obtain ⟨rest, rfl⟩ := ih htail
      exact ⟨rest, rfl⟩
    · next heq => cases heq

theorem beforeSeparator?_append (front rest : List Char) :
    ∃ part, beforeSeparator? (front ++ ':' :: ':' :: rest) = some part ∧
      part.length ≤ front.length := by
  induction front with
  | nil => exact ⟨[], by simp [beforeSeparator?], Nat.le_refl 0⟩
  | cons c front ih =>
    obtain ⟨part, hpart, hlength⟩ := ih
    rw [List.cons_append, beforeSeparator?.eq_def]
    split
    · exact ⟨[], rfl, Nat.zero_le _⟩
    · next heq =>
      cases heq
      refine ⟨c :: part, by rw [hpart]; rfl, ?_⟩
      exact Nat.succ_le_succ hlength
    · next heq => cases heq

theorem isBeforeFirst_separator {text : String} {part : List Char}
    (h : beforeSeparator? text.toList = some part) :
    IsBeforeFirst "::" text (String.ofList part) := by
  constructor
  · obtain ⟨rest, hrest⟩ := append_of_beforeSeparator? h
    refine ⟨String.ofList rest, String.toList_inj.1 ?_⟩
    rw [hrest]
    simp
  · rintro front rest rfl
    obtain ⟨found, hfound, hlength⟩ := beforeSeparator?_append front.toList rest.toList
    have htext : (front ++ "::" ++ rest).toList = front.toList ++ ':' :: ':' :: rest.toList := by
      simp
    rw [htext, hfound] at h
    cases h
    rw [String.length_ofList, ← String.length_toList]
    exact hlength

theorem separator_not_in {text : String} (h : beforeSeparator? text.toList = none)
    (front rest : String) : text ≠ front ++ "::" ++ rest := by
  rintro rfl
  obtain ⟨part, hpart, _⟩ := beforeSeparator?_append front.toList rest.toList
  have htext : (front ++ "::" ++ rest).toList = front.toList ++ ':' :: ':' :: rest.toList := by
    simp
  rw [htext, hpart] at h
  cases h

theorem isBeforeFirst_underscore {text : String} (h : '_' ∈ text.toList) :
    IsBeforeFirst "_" text (String.ofList (text.toList.takeWhile (· ≠ '_'))) := by
  constructor
  · obtain ⟨rest, hsplit⟩ := exists_eq_takeWhile_ne_append h
    refine ⟨String.ofList rest, String.toList_inj.1 ?_⟩
    simpa using hsplit
  · rintro front rest rfl
    have htext : (front ++ "_" ++ rest).toList = front.toList ++ '_' :: rest.toList := by simp
    rw [String.length_ofList, htext, ← String.length_toList]
    exact length_takeWhile_ne_append_le '_' front.toList rest.toList

/-- A name without a namespace and without a prefix. -/
structure IsUndivided (name : String) : Prop where
  noNamespace : ∀ front rest, name ≠ front ++ "::" ++ rest
  noPrefix : ∀ front rest, name ≠ front ++ "_" ++ rest

theorem ownerName_cases (element : String) :
    IsBeforeFirst "::" element (ownerName element) ∨
      (∀ front rest, element ≠ front ++ "::" ++ rest) ∧
        IsBeforeFirst "_" element (ownerName element) ∨
      IsUndivided element ∧ ownerName element = element := by
  unfold ownerName
  split
  · next part hpart => exact .inl (isBeforeFirst_separator hpart)
  · next hnone =>
    have hnamespace := separator_not_in hnone
    by_cases hunderscore : '_' ∈ element.toList
    · exact .inr (.inl ⟨hnamespace, isBeforeFirst_underscore hunderscore⟩)
    · refine .inr (.inr ⟨⟨hnamespace, fun front rest heq => hunderscore ?_⟩, ?_⟩)
      · rw [heq]
        simp
      · rw [takeWhile_ne_eq_self hunderscore, String.ofList_toList]

/-- Which name a module's element is looked up by. The first rule that fits decides. -/
inductive PointsAt (moduleName element : String) : String → Prop where
  /-- The element is named after the module itself. -/
  | own (h : IsBareName moduleName element) : PointsAt moduleName element element
  /-- The element stands in a namespace, as `mysql::password` does. -/
  | namespaced {part : String} (hown : ¬IsBareName moduleName element)
      (h : IsBeforeFirst "::" element part) : PointsAt moduleName element part
  /-- The element has a prefix, as `mysql_password` has. -/
  | prefixed {part : String} (hown : ¬IsBareName moduleName element)
      (hnamespace : ∀ front rest, element ≠ front ++ "::" ++ rest)
      (h : IsBeforeFirst "_" element part) : PointsAt moduleName element part
  | whole (hown : ¬IsBareName moduleName element)
      (hnamespace : ∀ front rest, element ≠ front ++ "::" ++ rest)
      (hunprefixed : ∀ front rest, element ≠ front ++ "_" ++ rest) :
      PointsAt moduleName element element

theorem pointsAt_lookupName (moduleName element : String) :
    PointsAt moduleName element (lookupName moduleName element) := by
  unfold lookupName
  split
  · next h => exact .own (isBareName_iff.2 h.symm)
  · next h =>
    have hown : ¬IsBareName moduleName element := fun hbare => h (isBareName_iff.1 hbare).symm
    rcases ownerName_cases element with hpart | ⟨hnamespace, hpart⟩ | ⟨hundivided, hself⟩
    · exact .namespaced hown hpart
    · exact .prefixed hown hnamespace hpart
    · rw [hself]
      exact .whole hown hundivided.noNamespace hundivided.noPrefix

theorem PointsAt.unique {moduleName element name other : String}
    (h : PointsAt moduleName element name) (hother : PointsAt moduleName element other) :
    name = other := by
  cases h with
  | own hbare =>
    cases hother with
    | own => rfl
    | namespaced hown => exact absurd hbare hown
    | prefixed hown => exact absurd hbare hown
    | whole => rfl
  | namespaced hown hpart =>
    obtain ⟨rest, hrest⟩ := hpart.1
    cases hother with
    | own hbare => exact absurd hbare hown
    | namespaced _ hpart' => exact hpart.unique hpart'
    | prefixed _ hnamespace => exact absurd hrest (hnamespace _ _)
    | whole _ hnamespace => exact absurd hrest (hnamespace _ _)
  | prefixed hown hnamespace hpart =>
    obtain ⟨rest, hrest⟩ := hpart.1
    cases hother with
    | own hbare => exact absurd hbare hown
    | namespaced _ hpart' =>
      obtain ⟨rest', hrest'⟩ := hpart'.1
      exact absurd hrest' (hnamespace _ _)
    | prefixed _ _ hpart' => exact hpart.unique hpart'
    | whole _ _ hunprefixed => exact absurd hrest (hunprefixed _ _)
  | whole hown hnamespace hunprefixed =>
    cases hother with
    | own => rfl
    | namespaced _ hpart' =>
      obtain ⟨rest', hrest'⟩ := hpart'.1
      exact absurd hrest' (hnamespace _ _)
    | prefixed _ _ hpart' =>
      obtain ⟨rest', hrest'⟩ := hpart'.1
      exact absurd hrest' (hunprefixed _ _)
    | whole => rfl

/-! Rows -/

/-- `dependency` is the first of a list with a given bare name. -/
def IsFirstNamed (dependencies : List String) (name dependency : String) : Prop :=
  ∃ before after, dependencies = before ++ dependency :: after ∧ IsBareName dependency name ∧
    ∀ other ∈ before, ¬IsBareName other name

theorem findSource?_eq_some_iff {dependencies : List String} {name dependency : String} :
    findSource? dependencies name = some dependency ↔
      IsFirstNamed dependencies name dependency := by
  rw [findSource?, List.find?_eq_some_iff_append]
  simp only [decide_eq_true_eq, Bool.not_eq_true', decide_eq_false_iff_not, ← isBareName_iff]
  constructor
  · rintro ⟨hname, before, after, hsplit, hbefore⟩
    exact ⟨before, after, hsplit, hname, hbefore⟩
  · rintro ⟨before, after, hsplit, hname, hbefore⟩
    exact ⟨hname, before, after, hsplit, hbefore⟩

theorem findSource?_eq_none_iff {dependencies : List String} {name : String} :
    findSource? dependencies name = none ↔
      ∀ dependency ∈ dependencies, ¬IsBareName dependency name := by
  rw [findSource?, List.find?_eq_none]
  simp only [decide_eq_true_eq, ← isBareName_iff]

/-- A row credits what its element points at to the first dependency of that name. -/
structure Credits
    (moduleName version : String) (dependencies : List String) (observation : Observation)
    (row : Row) : Prop where
  moduleName_eq : row.moduleName = moduleName
  version_eq : row.version = version
  element_eq : row.element = observation.element
  count_eq : row.count = observation.count
  isSingular : IsSingular observation.kind row.kind
  existsUnique_name : ∃! name, PointsAt moduleName observation.element name
  source_eq_some_iff : ∀ name, PointsAt moduleName observation.element name →
    ∀ dependency, row.source = some dependency ↔ IsFirstNamed dependencies name dependency
  source_eq_none_iff : ∀ name, PointsAt moduleName observation.element name →
    (row.source = none ↔ ∀ dependency ∈ dependencies, ¬IsBareName dependency name)

theorem credits_rowOf
    (moduleName version : String) (dependencies : List String) (observation : Observation) :
    Credits moduleName version dependencies observation
      (rowOf moduleName version dependencies observation) := by
  have hpoints := pointsAt_lookupName moduleName observation.element
  refine ⟨rfl, rfl, rfl, rfl, isSingular_singular _, ?_, ?_, ?_⟩
  · exact ⟨_, hpoints, fun name hname => hname.unique hpoints⟩
  · intro name hname dependency
    rw [hname.unique hpoints]
    exact findSource?_eq_some_iff
  · intro name hname
    rw [hname.unique hpoints]
    exact findSource?_eq_none_iff

/-- Attribution gives one row for each observation, in order, and each row follows the naming
conventions. -/
theorem attributeAll_credits
    (moduleName version : String) (dependencies : List String)
    (observations : List Observation) :
    List.Forall₂ (Credits moduleName version dependencies) observations
      (attributeAll moduleName version dependencies observations) := by
  rw [attributeAll, List.forall₂_map_right_iff, List.forall₂_same]
  intro observation _
  exact credits_rowOf moduleName version dependencies observation

end PuppetInventory.Usage
