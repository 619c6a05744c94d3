import PuppetInventory.Proofs.FileTrees

/-!
The search for Puppetfiles finds exactly those that no ignored directory hides, each once and in the
order of their paths.
-/

namespace PuppetInventory

namespace FileTree

/-- Whether a list of names leads to a Puppetfile that none of the directories on the way hides. -/
def IsPuppetfile (tree : FileTree) (names : List String) : Prop :=
  ∃ directories content,
    names = directories ++ ["Puppetfile"] ∧ tree.at? names = some (.file content) ∧
      ∀ name ∈ directories, name ∉ [".git", "vendor", "modules", "target"]

end FileTree

/-- The visits to an entry and what lies below it, seen from the directory that holds it. -/
def Walker.below (walker : Walker) (keep : Visit → Bool) (entry : String × FileTree) : List Visit :=
  (walker (keep ∘ Visit.under entry.1) entry.2).map (Visit.under entry.1)

/-- A walk that comes to a directory before what it holds and to siblings in the order of the bytes
of their names. A place that does not pass is left out with everything below it. -/
structure Walker.IsOrdered (walker : Walker) : Prop where
  file (keep : Visit → Bool) (content : List UInt8) :
    walker keep (.file content) =
      if keep (.start (.file content)) then [.start (.file content)] else []
  directory (keep : Visit → Bool) (entries : List (String × FileTree)) :
    ∃ sorted : List (String × FileTree),
      sorted.Perm entries ∧
      sorted.Pairwise (fun first second => nameBytes first.1 ≤ nameBytes second.1) ∧
      walker keep (.directory entries) =
        if keep (.start (.directory entries)) then
          .start (.directory entries) :: sorted.flatMap (walker.below keep)
        else []

/-! ### The walk of the program -/

namespace FileTree

theorem walkEntries_eq_map (keep : Visit → Bool) (entries : List (String × FileTree)) :
    walkEntries keep entries =
      entries.map fun entry => (entry.1, Walker.below walk keep entry) := by
  induction entries with
  | nil => rw [walkEntries, List.map_nil]
  | cons entry rest ih => rw [walkEntries, ih, List.map_cons, Walker.below]

theorem sortByName_map {α β : Type} (entries : List (String × α)) (value : String × α → β) :
    sortByName (entries.map fun entry => (entry.1, value entry)) =
      (sortByName entries).map fun entry => (entry.1, value entry) := by
  unfold sortByName
  rw [List.map_mergeSort]
  intros
  rfl

theorem pairwise_sortByName {α : Type} (entries : List (String × α)) :
    (sortByName entries).Pairwise fun first second =>
      nameBytes first.1 ≤ nameBytes second.1 := by
  let le (first second : String × α) : Bool := first.1 ≤ second.1
  have htrans (a b c : String × α) (hab : le a b = true) (hbc : le b c = true) : le a c = true :=
    decide_eq_true (String.le_trans (of_decide_eq_true hab) (of_decide_eq_true hbc))
  have htotal (a b : String × α) : (le a b || le b a) = true := by
    simpa [le] using String.le_total a.1 b.1
  have hsorted := List.pairwise_mergeSort htrans htotal entries
  exact hsorted.imp fun h => (nameBytes_le_iff _ _).mpr (of_decide_eq_true h)

theorem walk_isOrdered : Walker.IsOrdered walk where
  file keep content := by rw [walk]
  directory keep entries := by
    refine ⟨sortByName entries, List.mergeSort_perm _ _, pairwise_sortByName entries, ?_⟩
    rw [walk, walkEntries_eq_map, sortByName_map, List.flatMap_map]

end FileTree

/-! ### The places of a walk -/

namespace FileTree

/-- Whether a test lets every place pass that a list of names leads through. -/
def Passes (tree : FileTree) (keep : Visit → Bool) (names : List String) : Prop :=
  ∀ front found, front <+: names → tree.at? front = some found → keep ⟨front, found⟩ = true

theorem passes_nil (tree : FileTree) (keep : Visit → Bool) :
    tree.Passes keep [] ↔ keep (.start tree) = true := by
  constructor
  · intro hpasses
    exact hpasses [] tree List.nil_prefix rfl
  · intro hkeep front found hfront hfound
    obtain rfl := List.prefix_nil.mp hfront
    obtain rfl := Option.some.inj hfound
    exact hkeep

theorem passes_cons (tree : FileTree) (keep : Visit → Bool) (name : String) (names : List String) :
    tree.Passes keep (name :: names) ↔
      keep (.start tree) = true ∧
        ∀ child, tree.child? name = some child →
          child.Passes (keep ∘ Visit.under name) names := by
  constructor
  · intro hpasses
    refine ⟨hpasses [] tree List.nil_prefix rfl, fun child hchild front found hfront hfound => ?_⟩
    exact hpasses (name :: front) found (List.cons_prefix_cons.mpr ⟨rfl, hfront⟩)
      ((at?_cons_eq_some_iff _ _ _ _).mpr ⟨child, hchild, hfound⟩)
  · rintro ⟨hkeep, hbelow⟩ front found hfront hfound
    rcases List.prefix_cons_iff.mp hfront with rfl | ⟨front, rfl, hrest⟩
    · obtain rfl := Option.some.inj hfound
      exact hkeep
    · obtain ⟨child, hchild, hat⟩ := (at?_cons_eq_some_iff _ _ _ _).mp hfound
      exact hbelow child hchild front found hrest hat

end FileTree

namespace Walker

variable {walker : Walker} {tree : FileTree}

theorem mem_below (keep : Visit → Bool) (entry : String × FileTree) (visit : Visit) :
    visit ∈ walker.below keep entry ↔
      ∃ names, visit.names = entry.1 :: names ∧
        ⟨names, visit.tree⟩ ∈ walker (keep ∘ Visit.under entry.1) entry.2 := by
  constructor
  · intro hvisit
    obtain ⟨lower, hlower, rfl⟩ := List.mem_map.mp hvisit
    exact ⟨lower.names, rfl, hlower⟩
  · rintro ⟨names, hnames, hlower⟩
    refine List.mem_map.mpr ⟨_, hlower, ?_⟩
    cases visit
    subst hnames
    rfl

theorem IsOrdered.mem_file_iff (hwalker : walker.IsOrdered) (keep : Visit → Bool)
    (content : List UInt8) (visit : Visit) :
    visit ∈ walker keep (.file content) ↔
      keep (.start (.file content)) = true ∧ visit = .start (.file content) := by
  rw [hwalker.file]
  split <;> simp [*]

theorem IsOrdered.mem_directory_iff (hwalker : walker.IsOrdered) (keep : Visit → Bool)
    (entries : List (String × FileTree)) (visit : Visit) :
    visit ∈ walker keep (.directory entries) ↔
      keep (.start (.directory entries)) = true ∧
        (visit = .start (.directory entries) ∨
          ∃ entry ∈ entries, visit ∈ walker.below keep entry) := by
  obtain ⟨sorted, hperm, -, hwalk⟩ := hwalker.directory keep entries
  rw [hwalk]
  split <;> simp [*, hperm.mem_iff]

/-- A walk visits every place of a tree that passes the test together with all places on the way. -/
theorem IsOrdered.mem_iff (hwalker : walker.IsOrdered) (htree : tree.WellFormed)
    (keep : Visit → Bool) (names : List String) (found : FileTree) :
    ⟨names, found⟩ ∈ walker keep tree ↔
      tree.at? names = some found ∧ tree.Passes keep names := by
  induction htree generalizing keep names found with
  | file content =>
    rw [hwalker.mem_file_iff]
    cases names with
    | nil =>
      rw [FileTree.passes_nil, FileTree.at?, Visit.start, Visit.mk.injEq, Option.some_inj]
      tauto
    | cons name names =>
      have hnone : (FileTree.file content).child? name = none := rfl
      simp [FileTree.at?, hnone, Visit.start]
  | directory entries distinct named below ih =>
    rw [hwalker.mem_directory_iff]
    cases names with
    | nil =>
      have hbelow : ¬∃ entry ∈ entries, ⟨[], found⟩ ∈ walker.below keep entry := by
        rintro ⟨entry, -, hentry⟩
        obtain ⟨names, hnames, -⟩ := (mem_below _ _ _).mp hentry
        cases hnames
      rw [or_iff_left hbelow, FileTree.passes_nil, FileTree.at?, Visit.start, Visit.mk.injEq,
        Option.some_inj]
      tauto
    | cons name names =>
      have hstart : (⟨name :: names, found⟩ : Visit) ≠ .start (.directory entries) := by
        simp [Visit.start]
      rw [or_iff_right hstart, FileTree.passes_cons, FileTree.at?_cons_eq_some_iff]
      constructor
      · rintro ⟨hkeep, entry, hentry, hvisit⟩
        obtain ⟨lower, hnames, hlower⟩ := (mem_below _ _ _).mp hvisit
        obtain ⟨rfl, rfl⟩ := List.cons.inj hnames
        obtain ⟨hfound, hpasses⟩ := (ih entry hentry _ _ _).mp hlower
        have hchild := FileTree.child?_of_mem distinct hentry
        refine ⟨⟨entry.2, hchild, hfound⟩, hkeep, fun child hother => ?_⟩
        obtain rfl := Option.some.inj (hchild.symm.trans hother)
        exact hpasses
      · rintro ⟨⟨child, hchild, hfound⟩, hkeep, hbelow⟩
        have hentry := FileTree.mem_of_child? hchild
        refine ⟨hkeep, (name, child), hentry, (mem_below _ _ _).mpr ⟨names, rfl, ?_⟩⟩
        exact (ih _ hentry _ _ _).mpr ⟨hfound, hbelow child hchild⟩

/-- The places that a walk visits lie in the order of their names, so that none is visited twice. -/
theorem IsOrdered.pairwise (hwalker : walker.IsOrdered) (htree : tree.WellFormed)
    (keep : Visit → Bool) :
    (walker keep tree).Pairwise fun first second => NamesBefore first.names second.names := by
  induction htree generalizing keep with
  | file content =>
    rw [hwalker.file]
    split <;> simp
  | directory entries distinct named below ih =>
    obtain ⟨sorted, hperm, hsorted, hwalk⟩ := hwalker.directory keep entries
    rw [hwalk]
    split
    · rw [List.pairwise_cons, List.pairwise_flatMap]
      refine ⟨fun visit hvisit => ?_, fun entry hentry => ?_, ?_⟩
      · obtain ⟨entry, -, hentry⟩ := List.mem_flatMap.mp hvisit
        obtain ⟨names, hnames, -⟩ := (mem_below _ _ _).mp hentry
        rw [hnames]
        exact NamesBefore.nil_cons _ _
      · refine List.pairwise_map.mpr ((ih entry (hperm.mem_iff.mp hentry) _).imp fun hbefore => ?_)
        exact (NamesBefore.cons_cons_iff _ _ _ _).mpr (.inr ⟨rfl, hbefore⟩)
      · -- No two siblings share a name, so that the order among them is strict.
        have hdistinct : sorted.Pairwise fun first second => first.1 ≠ second.1 :=
          List.pairwise_map.mp ((hperm.map Prod.fst).nodup_iff.mpr distinct)
        refine (hsorted.and hdistinct).imp fun hpair first hfirst second hsecond => ?_
        obtain ⟨left, hleft, -⟩ := (mem_below _ _ _).mp hfirst
        obtain ⟨right, hright, -⟩ := (mem_below _ _ _).mp hsecond
        rw [hleft, hright]
        exact (NamesBefore.cons_cons_iff _ _ _ _).mpr
          (.inl (nameBytes_lt_of_le_of_ne hpair.1 hpair.2))
    · exact List.Pairwise.nil

end Walker

/-! ### The Puppetfiles of a tree -/

namespace FileTree

variable {walker : Walker} {tree : FileTree}

theorem isIgnored_eq_false_iff (name : String) :
    isIgnored name = false ↔ name ∉ [".git", "vendor", "modules", "target"] := by
  simp [isIgnored, and_assoc]

/-- The way to a file is open exactly if no directory on it is ignored. -/
theorem passes_iff {directories : List String} {name : String} {content : List UInt8}
    (hfound : tree.at? (directories ++ [name]) = some (.file content)) :
    tree.Passes (!·.isIgnored) (directories ++ [name]) ↔
      ∀ directory ∈ directories, isIgnored directory = false := by
  constructor
  · intro hpasses directory hmem
    obtain ⟨front, rest, rfl⟩ := List.append_of_mem hmem
    have hsplit :
        front ++ directory :: rest ++ [name] = (front ++ [directory]) ++ (rest ++ [name]) := by
      simp
    rw [hsplit] at hfound hpasses
    obtain ⟨middle, hmiddle, hrest⟩ := (at?_append_eq_some_iff _ _ _ _).mp hfound
    have hdirectory : middle.isDirectory = true := isDirectory_of_at? (by simp) hrest
    have hkept := hpasses _ middle (List.prefix_append _ _) hmiddle
    simpa [Visit.isIgnored, hdirectory] using hkept
  · intro hnone front found hfront hat
    rcases List.prefix_concat_iff.mp hfront with rfl | hfront
    · obtain rfl := Option.some.inj (hfound.symm.trans hat)
      rfl
    · rcases List.eq_nil_or_concat front with rfl | ⟨upper, last, rfl⟩
      · simp [Visit.isIgnored]
      · have hlast : last ∈ directories := hfront.subset (by simp)
        simp [Visit.isIgnored, hnone last hlast]

theorem mem_puppetfiles_iff (hwalker : walker.IsOrdered) (htree : tree.WellFormed)
    (names : List String) : names ∈ tree.puppetfiles walker ↔ tree.IsPuppetfile names := by
  constructor
  · intro hnames
    obtain ⟨⟨_, found⟩, hvisit, rfl⟩ := List.mem_map.mp hnames
    obtain ⟨hwalk, hpuppetfile⟩ := List.mem_filter.mp hvisit
    obtain ⟨hfound, hpasses⟩ := (hwalker.mem_iff htree _ _ _).mp hwalk
    cases found with
    | directory entries => cases hpuppetfile
    | file content =>
      have hlast := of_decide_eq_true hpuppetfile
      obtain ⟨directories, rfl⟩ := List.getLast?_eq_some_iff.mp hlast
      refine ⟨directories, content, rfl, hfound, fun name hname => ?_⟩
      exact (isIgnored_eq_false_iff name).mp ((passes_iff hfound).mp hpasses name hname)
  · rintro ⟨directories, content, rfl, hfound, hnone⟩
    have hpasses := (passes_iff hfound).mpr fun name hname =>
      (isIgnored_eq_false_iff name).mpr (hnone name hname)
    have hwalk := (hwalker.mem_iff htree _ _ _).mpr ⟨hfound, hpasses⟩
    refine List.mem_map.mpr ⟨_, List.mem_filter.mpr ⟨hwalk, ?_⟩, rfl⟩
    simp [Visit.isPuppetfile, isDirectory, puppetfileName]

theorem puppetfiles_pairwise (hwalker : walker.IsOrdered) (htree : tree.WellFormed) :
    (tree.puppetfiles walker).Pairwise NamesBefore :=
  List.pairwise_map.mpr ((hwalker.pairwise htree _).filter _)

theorem named_of_mem_puppetfiles (hwalker : walker.IsOrdered) (htree : tree.WellFormed)
    {names : List String} (hnames : names ∈ tree.puppetfiles walker) :
    ∀ name ∈ names, IsEntryName name := by
  obtain ⟨_, _, _, hfound, -⟩ := (mem_puppetfiles_iff hwalker htree names).mp hnames
  exact htree.named_of_at? hfound

theorem pairwise_joinPath_puppetfiles (hwalker : walker.IsOrdered) (htree : tree.WellFormed)
    (path : String) : ((tree.puppetfiles walker).map (joinPath path)).Pairwise PathBefore := by
  refine List.pairwise_map.mpr ((puppetfiles_pairwise hwalker htree).imp_of_mem ?_)
  intro first second hfirst hsecond hbefore
  exact pathBefore_joinPath path (named_of_mem_puppetfiles hwalker htree hfirst)
    (named_of_mem_puppetfiles hwalker htree hsecond) hbefore

end FileTree

namespace FileSystem

/-- A path that leads nowhere stands for no Puppetfile, one to a file for that file, and one to a
directory for the Puppetfiles below it that no ignored directory hides: each of them once, and in
the order of their paths, in which the walk comes to them already. -/
theorem puppetfilesBy_exact (walker : Walker) (system : FileSystem) (path : String)
    (hwalker : walker.IsOrdered) (hroot : system.root.WellFormed) :
    match (system.resolve path).map system.here with
    | .error _ => system.puppetfilesBy walker path = []
    | .ok (.file _) => system.puppetfilesBy walker path = [path]
    | .ok (.directory entries) =>
      (∀ found, found ∈ system.puppetfilesBy walker path ↔
          ∃ names, (FileTree.directory entries).IsPuppetfile names ∧
            found = joinPath path names) ∧
        (system.puppetfilesBy walker path).Nodup ∧
        (system.puppetfilesBy walker path).Pairwise PathBefore ∧
        system.puppetfilesBy walker path =
          ((FileTree.directory entries).puppetfiles walker).map (joinPath path) := by
  cases hresolve : system.resolve path with
  | error error => simp [puppetfilesBy, hresolve, Except.map]
  | ok trail =>
    have htree := wellFormed_of_resolve hroot hresolve
    cases hhere : system.here trail with
    | file content => simp [puppetfilesBy, hresolve, hhere, Except.map]
    | directory entries =>
      rw [hhere] at htree
      have hordered := FileTree.pairwise_joinPath_puppetfiles hwalker htree path
      have hsorted :
          system.puppetfilesBy walker path =
            ((FileTree.directory entries).puppetfiles walker).map (joinPath path) := by
        simp only [puppetfilesBy, hresolve, hhere]
        exact List.mergeSort_of_pairwise (hordered.imp PathBefore.pathLe)
      simp only [Except.map, hhere]
      rw [hsorted]
      refine ⟨fun found => ?_, hordered.imp PathBefore.ne, hordered, rfl⟩
      simp only [List.mem_map, FileTree.mem_puppetfiles_iff hwalker htree, eq_comm]

/-- Of three Puppetfiles below a directory that is itself called `vendor` one is hidden. The
directory `a-b` comes behind `a`, although its paths sort before those of `a` as texts. -/
theorem puppetfilesBy_exact_vendor :
    let add (path : List String) (tree : FileTree) := FileTree.insert (.file []) path tree
    let system : FileSystem :=
      { root :=
          add ["vendor", "a", "vendor", "Puppetfile"] <| add ["vendor", "a", "Puppetfile"] <|
            add ["vendor", "a-b", "Puppetfile"] .empty
        working := [] }
    Walker.IsOrdered FileTree.walk ∧ system.root.WellFormed ∧
      system.puppetfiles "vendor" = ["vendor/a/Puppetfile", "vendor/a-b/Puppetfile"] := by
  intro add system
  have hadd (path : List String) (tree : FileTree) (hpath : ∀ name ∈ path, IsEntryName name)
      (htree : tree.WellFormed) : (add path tree).WellFormed :=
    .insert (.file []) htree hpath
  have hroot : system.root.WellFormed :=
    hadd _ _ (by decide) (hadd _ _ (by decide) (hadd _ _ (by decide) .empty))
  let entries : List (String × FileTree) :=
    [("a-b", .directory [("Puppetfile", .file [])]),
      ("a", .directory [("Puppetfile", .file []),
        ("vendor", .directory [("Puppetfile", .file [])])])]
  have hresolve : (system.resolve "vendor").map system.here = .ok (.directory entries) := rfl
  have hwalk : (FileTree.directory entries).puppetfiles FileTree.walk =
      [["a", "Puppetfile"], ["a-b", "Puppetfile"]] := by
    simp [entries, FileTree.puppetfiles, FileTree.walk, FileTree.walkEntries, FileTree.sortByName,
      List.mergeSort, Visit.start, Visit.under, Visit.isIgnored, Visit.isPuppetfile,
      FileTree.isDirectory, FileTree.isIgnored, FileTree.puppetfileName]
  have hexact := puppetfilesBy_exact FileTree.walk system "vendor" FileTree.walk_isOrdered hroot
  rw [hresolve] at hexact
  obtain ⟨-, -, -, hfound⟩ := hexact
  rw [hwalk] at hfound
  exact ⟨FileTree.walk_isOrdered, hroot, hfound.trans (by decide)⟩

end FileSystem

end PuppetInventory
