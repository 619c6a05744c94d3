import PuppetInventory.Proofs.Attribution

/-!
Dependencies in another order, and dependencies of one bare name. Attribution sees of a list of
dependencies only the first one of each bare name. So dependencies of a name that occurred before
change nothing, the order of dependencies of different names changes nothing, and dependencies at
the end are credited only with what no other one provides.
-/

namespace PuppetInventory.Usage

/-! The first dependency of a name -/

/-- The dependencies without those whose bare name occurred before. -/
def firstNamed (dependencies : List String) : List String :=
  dependencies.eraseDupsBy fun later earlier => bareName later = bareName earlier

section Dependencies

variable {dependencies others : List String} {name dependency : String}

theorem findSource?_eq_of_isFirstNamed_iff
    (h : ∀ dependency,
      IsFirstNamed dependencies name dependency ↔ IsFirstNamed others name dependency) :
    findSource? dependencies name = findSource? others name := by
  ext dependency
  rw [findSource?_eq_some_iff, findSource?_eq_some_iff, h]

/-- Dependencies of another name can be left out. -/
theorem findSource?_filter_ne {earlier : String} (hname : bareName earlier ≠ name) :
    findSource? (dependencies.filter fun later => bareName later ≠ bareName earlier) name =
      findSource? dependencies name := by
  rw [findSource?, findSource?, List.find?_filter]
  congr 1
  funext later
  by_cases h : bareName later = name
  · simp [h, hname.symm]
  · simp [h]

theorem findSource?_firstNamed (dependencies : List String) (name : String) :
    findSource? (firstNamed dependencies) name = findSource? dependencies name := by
  match dependencies with
  | [] => rfl
  | dependency :: rest =>
    have hcons : firstNamed (dependency :: rest) = dependency ::
        firstNamed (rest.filter fun later => bareName later ≠ bareName dependency) := by
      rw [firstNamed, List.eraseDupsBy_cons, firstNamed]
      simp
    have ih := findSource?_firstNamed
      (rest.filter fun later => bareName later ≠ bareName dependency) name
    rw [hcons, findSource?, findSource?, List.find?_cons, List.find?_cons]
    split
    · rfl
    · next hname => exact ih.trans (findSource?_filter_ne (by simpa using hname))
termination_by dependencies.length
decreasing_by exact Nat.lt_succ_of_le (List.length_filter_le _ rest)

/-- Among dependencies of different names each is the first of its own. -/
theorem isFirstNamed_iff_of_nodup (hdistinct : (dependencies.map bareName).Nodup) :
    IsFirstNamed dependencies name dependency ↔
      dependency ∈ dependencies ∧ IsBareName dependency name := by
  constructor
  · rintro ⟨before, after, rfl, hname, -⟩
    exact ⟨List.mem_append_right before List.mem_cons_self, hname⟩
  · rintro ⟨hmem, hname⟩
    obtain ⟨before, after, rfl⟩ := List.append_of_mem hmem
    refine ⟨before, after, rfl, hname, fun other hother hsame => ?_⟩
    rw [List.map_append, List.map_cons, List.nodup_append] at hdistinct
    have hne : bareName other ≠ bareName dependency :=
      hdistinct.2.2 _ (List.mem_map_of_mem hother) _ List.mem_cons_self
    exact hne ((isBareName_iff.1 hsame).trans (isBareName_iff.1 hname).symm)

theorem isFirstNamed_iff_of_perm (hperm : dependencies.Perm others)
    (hdistinct : (dependencies.map bareName).Nodup) :
    IsFirstNamed dependencies name dependency ↔ IsFirstNamed others name dependency := by
  rw [isFirstNamed_iff_of_nodup hdistinct,
    isFirstNamed_iff_of_nodup ((hperm.map bareName).nodup_iff.1 hdistinct), hperm.mem_iff]

theorem findSource?_append_of_some (h : findSource? dependencies name = some dependency)
    (more : List String) : findSource? (dependencies ++ more) name = some dependency := by
  rw [findSource?] at h ⊢
  rw [List.find?_append, h, Option.some_or]

theorem findSource?_append_of_none (h : findSource? dependencies name = none) (more : List String) :
    findSource? (dependencies ++ more) name = findSource? more name := by
  rw [findSource?] at h ⊢
  rw [List.find?_append, h, Option.none_or, findSource?]

end Dependencies

/-! Rows -/

theorem attributeAll_congr
    {dependencies others : List String}
    (h : ∀ name, findSource? dependencies name = findSource? others name)
    (moduleName version : String) (observations : List Observation) :
    attributeAll moduleName version dependencies observations =
      attributeAll moduleName version others observations := by
  refine List.map_congr_left fun observation _ => ?_
  rw [rowOf, rowOf, h]

/-- What a row may become when more dependencies follow: only a row without a source gets one, and
it is one of those. -/
structure Row.IsCompletedBy (row : Row) (more : List String) (completed : Row) : Prop where
  eq_except_source : { completed with source := row.source } = row
  source_of_some : ∀ dependency, row.source = some dependency →
    completed.source = some dependency
  mem_of_none : row.source = none → ∀ dependency, completed.source = some dependency →
    dependency ∈ more

theorem rowOf_isCompletedBy
    (moduleName version : String) (dependencies more : List String) (observation : Observation) :
    (rowOf moduleName version dependencies observation).IsCompletedBy more
      (rowOf moduleName version (dependencies ++ more) observation) := by
  refine ⟨rfl, fun dependency hsource => findSource?_append_of_some hsource more, ?_⟩
  intro hnone dependency hsource
  have hfound : findSource? more (lookupName moduleName observation.element) = some dependency :=
    (findSource?_append_of_none hnone more).symm.trans hsource
  exact List.mem_of_find?_eq_some hfound

/-- Attribution depends on the dependencies only through the first one of each bare name. -/
theorem attributeAll_first_named
    (moduleName version : String) (dependencies : List String) (observations : List Observation) :
    let rows := fun dependencies => attributeAll moduleName version dependencies observations
    (∀ others, (∀ name dependency,
        IsFirstNamed dependencies name dependency ↔ IsFirstNamed others name dependency) →
      rows others = rows dependencies) ∧
    rows (firstNamed dependencies) = rows dependencies ∧
    (∀ others, dependencies.Perm others → (dependencies.map bareName).Nodup →
      rows others = rows dependencies) ∧
    ∀ more, List.Forall₂ (fun row completed => row.IsCompletedBy more completed)
      (rows dependencies) (rows (dependencies ++ more)) := by
  intro rows
  refine ⟨?_, ?_, ?_, ?_⟩
  · intro others hsame
    exact attributeAll_congr
      (fun name => (findSource?_eq_of_isFirstNamed_iff (hsame name)).symm) _ _ _
  · exact attributeAll_congr (findSource?_firstNamed dependencies) _ _ _
  · intro others hperm hdistinct
    exact attributeAll_congr (fun name => (findSource?_eq_of_isFirstNamed_iff fun dependency =>
      isFirstNamed_iff_of_perm hperm hdistinct).symm) _ _ _
  · intro more
    show List.Forall₂ _ (attributeAll _ _ _ _) (attributeAll _ _ _ _)
    rw [attributeAll, attributeAll, List.forall₂_map_left_iff, List.forall₂_map_right_iff,
      List.forall₂_same]
    exact fun observation _ => rowOf_isCompletedBy moduleName version dependencies more observation

/-- A second dependency of a name, dependencies in reverse order, and one more of each name at the
end. -/
theorem attributeAll_first_named_mysql :
    let dependencies := ["a-mysql", "b-stdlib", "c-mysql"]
    let distinct := ["a-mysql", "b-stdlib"]
    let more := ["d-mysql", "e-file"]
    let rows := fun dependencies =>
      attributeAll "f-g" "1" dependencies [⟨"functions", "mysql_password", 2⟩, ⟨"types", "file", 7⟩]
    firstNamed dependencies = distinct ∧
    distinct.Perm distinct.reverse ∧ (distinct.map bareName).Nodup ∧
    rows distinct = rows dependencies ∧ rows distinct.reverse = rows distinct ∧
    List.Forall₂ (fun row completed => row.IsCompletedBy more completed)
      (rows dependencies) (rows (dependencies ++ more)) ∧
    (rows dependencies).map Row.source = [some "a-mysql", none] ∧
    (rows (dependencies ++ more)).map Row.source = [some "a-mysql", some "e-file"] := by
  intro dependencies distinct more rows
  have hfirst : firstNamed dependencies = distinct := by decide +kernel
  have hperm : distinct.Perm distinct.reverse := distinct.reverse_perm.symm
  have hdistinct : (distinct.map bareName).Nodup := by decide +kernel
  obtain ⟨-, hrepeated, -, hmore⟩ := attributeAll_first_named "f-g" "1" dependencies
    [⟨"functions", "mysql_password", 2⟩, ⟨"types", "file", 7⟩]
  obtain ⟨-, -, hordered, -⟩ := attributeAll_first_named "f-g" "1" distinct
    [⟨"functions", "mysql_password", 2⟩, ⟨"types", "file", 7⟩]
  rw [hfirst] at hrepeated
  exact ⟨hfirst, hperm, hdistinct, hrepeated, hordered distinct.reverse hperm hdistinct, hmore more,
    by decide +kernel, by decide +kernel⟩

end PuppetInventory.Usage
