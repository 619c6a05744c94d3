import PuppetInventory.Proofs.PathOrder

/-!
File trees in which names tell entries apart. Putting files into a tree and following paths through
it stay among such trees.
-/

namespace PuppetInventory

namespace FileTree

/-- A tree in which no directory has two entries of one name. -/
inductive WellFormed : FileTree → Prop
  | file (content : List UInt8) : WellFormed (.file content)
  | directory (entries : List (String × FileTree))
      (distinct : (entries.map Prod.fst).Nodup)
      (named : ∀ entry ∈ entries, IsEntryName entry.1)
      (below : ∀ entry ∈ entries, WellFormed entry.2) :
      WellFormed (.directory entries)

/-- What a list of names leads to. -/
def at? (tree : FileTree) : List String → Option FileTree
  | [] => some tree
  | name :: names => (tree.child? name).bind (at? · names)

theorem mem_of_child? {entries : List (String × FileTree)} {name : String} {child : FileTree}
    (hchild : (directory entries).child? name = some child) : (name, child) ∈ entries := by
  obtain ⟨front, rest, hentries, -⟩ := List.lookup_eq_some_iff.mp hchild
  have hsplit : entries = front ++ (name, child) :: rest := hentries
  rw [hsplit]
  exact List.mem_append_right front List.mem_cons_self

theorem child?_of_mem {entries : List (String × FileTree)} {entry : String × FileTree}
    (hdistinct : (entries.map Prod.fst).Nodup) (hmem : entry ∈ entries) :
    (directory entries).child? entry.1 = some entry.2 := by
  obtain ⟨front, rest, rfl⟩ := List.append_of_mem hmem
  refine List.lookup_eq_some_iff.mpr ⟨front, rest, rfl, fun other hother => ?_⟩
  rw [List.map_append, List.map_cons] at hdistinct
  have hne : other.1 ≠ entry.1 :=
    (List.nodup_append.mp hdistinct).2.2 other.1 (List.mem_map_of_mem hother) entry.1
      List.mem_cons_self
  simpa using hne.symm

theorem at?_cons_eq_some_iff (tree found : FileTree) (name : String) (names : List String) :
    tree.at? (name :: names) = some found ↔
      ∃ child, tree.child? name = some child ∧ child.at? names = some found :=
  Option.bind_eq_some_iff

theorem at?_append_eq_some_iff (tree found : FileTree) (front rest : List String) :
    tree.at? (front ++ rest) = some found ↔
      ∃ middle, tree.at? front = some middle ∧ middle.at? rest = some found := by
  induction front generalizing tree with
  | nil => simp [at?]
  | cons name front ih =>
    simp only [List.cons_append, at?_cons_eq_some_iff, ih]
    grind

theorem isDirectory_of_at? {tree found : FileTree} {names : List String} (hnames : names ≠ [])
    (hfound : tree.at? names = some found) : tree.isDirectory = true := by
  cases names with
  | nil => exact absurd rfl hnames
  | cons name names =>
    cases tree with
    | file content => cases hfound
    | directory entries => rfl

/-! ### Putting trees into a tree -/

theorem setEntry_names (name : String) (tree : FileTree) (entries : List (String × FileTree)) :
    (setEntry name tree entries).map Prod.fst =
      if name ∈ entries.map Prod.fst then entries.map Prod.fst
      else entries.map Prod.fst ++ [name] := by
  induction entries with
  | nil => rfl
  | cons entry rest ih =>
    rw [setEntry]
    split
    · rename_i hname
      simp [hname]
    · rename_i hname
      rw [List.map_cons, ih]
      by_cases hrest : name ∈ rest.map Prod.fst <;> simp [hrest, Ne.symm hname]

theorem mem_setEntry {name : String} {tree : FileTree} {entries : List (String × FileTree)}
    {entry : String × FileTree} (hentry : entry ∈ setEntry name tree entries) :
    entry = (name, tree) ∨ entry ∈ entries := by
  induction entries with
  | nil => exact .inl (List.mem_singleton.mp hentry)
  | cons present rest ih =>
    rw [setEntry] at hentry
    split at hentry
    · exact (List.mem_cons.mp hentry).imp_right (List.mem_cons_of_mem present)
    · rcases List.mem_cons.mp hentry with rfl | hentry
      · exact .inr List.mem_cons_self
      · exact (ih hentry).imp_right (List.mem_cons_of_mem present)

namespace WellFormed

theorem empty : FileTree.empty.WellFormed :=
  .directory [] List.nodup_nil (by simp) (by simp)

theorem child? {tree child : FileTree} {name : String} (htree : tree.WellFormed)
    (hchild : tree.child? name = some child) : child.WellFormed := by
  cases htree with
  | file content => cases hchild
  | directory entries distinct named below => exact below _ (mem_of_child? hchild)

theorem named_of_at? {tree found : FileTree} (htree : tree.WellFormed) {names : List String}
    (hfound : tree.at? names = some found) : ∀ name ∈ names, IsEntryName name := by
  induction names generalizing tree with
  | nil => simp
  | cons name names ih =>
    obtain ⟨child, hchild, hrest⟩ := (at?_cons_eq_some_iff _ _ _ _).mp hfound
    cases htree with
    | file content => cases hchild
    | directory entries distinct named below =>
      have hmem := mem_of_child? hchild
      exact List.forall_mem_cons.mpr ⟨named _ hmem, ih (below _ hmem) hrest⟩

/-- Seen as a directory, a tree holds what it held; a file holds nothing. -/
theorem directory_entries {tree : FileTree} (htree : tree.WellFormed) :
    (FileTree.directory tree.entries).WellFormed := by
  cases htree with
  | file content => exact empty
  | directory entries distinct named below => exact .directory entries distinct named below

theorem setEntry {entries : List (String × FileTree)} {name : String} {tree : FileTree}
    (hentries : (FileTree.directory entries).WellFormed) (hname : IsEntryName name)
    (htree : tree.WellFormed) :
    (FileTree.directory (FileTree.setEntry name tree entries)).WellFormed := by
  cases hentries with
  | directory entries distinct named below =>
    refine .directory _ ?_ (fun entry hentry => ?_) (fun entry hentry => ?_)
    · rw [setEntry_names]
      split
      · exact distinct
      · rename_i habsent
        exact List.nodup_append.mpr ⟨distinct, by simp, by grind⟩
    · rcases mem_setEntry hentry with rfl | hentry
      · exact hname
      · exact named entry hentry
    · rcases mem_setEntry hentry with rfl | hentry
      · exact htree
      · exact below entry hentry

/-- A tree that is put at the end of a path breaks no directory on the way. -/
theorem insert {added tree : FileTree} {path : List String} (hadded : added.WellFormed)
    (htree : tree.WellFormed) (hpath : ∀ name ∈ path, IsEntryName name) :
    (FileTree.insert added path tree).WellFormed := by
  induction path generalizing tree with
  | nil =>
    unfold FileTree.insert
    split
    · exact htree
    · exact hadded
  | cons name path ih =>
    obtain ⟨hname, hrest⟩ := List.forall_mem_cons.mp hpath
    have hlower : ((tree.child? name).getD FileTree.empty).WellFormed := by
      cases hchild : tree.child? name with
      | none => exact empty
      | some child => exact htree.child? hchild
    exact htree.directory_entries.setEntry hname (ih hlower hrest)

end WellFormed

end FileTree

/-! ### Following paths -/

namespace FileSystem

variable {system : FileSystem}

theorem here_wellFormed (hroot : system.root.WellFormed) {trail : Trail}
    (htrail : ∀ place ∈ trail, place.2.WellFormed) : (system.here trail).WellFormed := by
  cases trail with
  | nil => exact hroot
  | cons place trail => exact htrail place List.mem_cons_self

theorem wellFormed_of_follow (hroot : system.root.WellFormed) {path : List String}
    {trail result : Trail} (htrail : ∀ place ∈ trail, place.2.WellFormed)
    (hfollow : system.follow trail path = .ok result) : ∀ place ∈ result, place.2.WellFormed := by
  induction path generalizing trail with
  | nil =>
    cases hfollow
    exact htrail
  | cons name path ih =>
    rw [follow] at hfollow
    split at hfollow
    · cases hfollow
    split at hfollow
    · exact ih htrail hfollow
    split at hfollow
    · exact ih (fun place hplace => htrail place (List.mem_of_mem_drop hplace)) hfollow
    split at hfollow
    · cases hfollow
    split at hfollow
    · cases hfollow
    · rename_i child hchild
      refine ih (fun place hplace => ?_) hfollow
      rcases List.mem_cons.mp hplace with rfl | hplace
      · exact (here_wellFormed hroot htrail).child? hchild
      · exact htrail place hplace

theorem wellFormed_of_resolve (hroot : system.root.WellFormed) {path : String} {trail : Trail}
    (hresolve : system.resolve path = .ok trail) : (system.here trail).WellFormed := by
  simp only [resolve, bind, Except.bind] at hresolve
  generalize (if path.toList.head? = some '/' then [] else system.working) = working at hresolve
  split at hresolve
  · cases hresolve
  split at hresolve
  · cases hresolve
  split at hresolve
  · cases hresolve
  cases hstart : system.follow [] working with
  | error error =>
    rw [hstart] at hresolve
    cases hresolve
  | ok start =>
    have hbegin := wellFormed_of_follow hroot (by simp) hstart
    cases hend : system.follow start (pathComponents path) with
    | error error => simp [hstart, hend] at hresolve
    | ok reached =>
      simp only [hstart, hend] at hresolve
      split at hresolve
      · cases hresolve
      · obtain rfl := Except.ok.inj hresolve
        exact here_wellFormed hroot (wellFormed_of_follow hroot hbegin hend)

end FileSystem

end PuppetInventory
