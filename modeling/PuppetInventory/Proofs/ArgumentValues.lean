import PuppetInventory.Syntax.Lowering

/-!
The values of an argument list: those of its positional arguments, and one hash for its options.
Options without braces give the same hash as options between braces, unless none of them can be
read; then they give none.
-/

namespace PuppetInventory

namespace Syntax

/-- The values of the trees that are no pairs. -/
def positionalValues (document : Array Char) (trees : List Tree) : List Value :=
  ((trees.filter fun tree => tree.tag.named).filter fun tree =>
    tree.kind ≠ .comment && tree.kind ≠ .pair).map (Tree.value document)

namespace Tree

variable {document : Array Char}

/-! Pairs -/

/-- A pair with a value and with a key that has a text. -/
structure IsReadablePair (document : Array Char) (tree : Tree) : Prop where
  named : tree.tag.named = true
  kind_eq : tree.kind = .pair
  exists_key : ∃ key, tree.child? .key = some key ∧ (keyText? document key).isSome = true
  exists_value : (tree.child? .value).isSome = true

theorem pairValue?_eq_map (document : Array Char) (children : List Tree) :
    pairValue? document children =
      (children.find? fun child => child.tag.role = .value).map (value document) := by
  induction children with
  | nil => rfl
  | cons child rest ih =>
    obtain ⟨tag, parts⟩ := child
    rw [pairValue?, List.find?_cons]
    by_cases h : tag.role = .value
    · rw [if_pos h, show decide ((node tag parts).tag.role = .value) = true from decide_eq_true h]
      rfl
    · rw [if_neg h, ih, show decide ((node tag parts).tag.role = .value) = false from
        decide_eq_false h]

theorem pair?_eq (document : Array Char) (tree : Tree) :
    pair? document tree =
      ((tree.child? .key).bind (keyText? document)).bind fun key =>
        (tree.child? .value).map fun found => (key, value document found) := by
  obtain ⟨tag, children⟩ := tree
  have hvalue : (node tag children).child? .value =
      children.find? fun child => child.tag.role = .value := rfl
  rw [pair?, pairValue?_eq_map, hvalue]
  cases ((node tag children).child? .key).bind (keyText? document) with
  | none => rfl
  | some key => cases children.find? fun child => child.tag.role = .value <;> rfl

theorem isSome_pair?_iff {tree : Tree} :
    (pair? document tree).isSome = true ↔
      (∃ key, tree.child? .key = some key ∧ (keyText? document key).isSome = true) ∧
        (tree.child? .value).isSome = true := by
  rw [pair?_eq]
  cases tree.child? .key with
  | none => simp
  | some key =>
    rw [Option.bind_some]
    cases htext : keyText? document key with
    | none => simp [htext]
    | some text => simp [htext]

theorem pairs_cons_of_pair {tree : Tree} (hnamed : tree.tag.named = true)
    (hkind : tree.kind = .pair) (rest : List Tree) :
    pairs document (tree :: rest) = (pair? document tree).toList ++ pairs document rest := by
  obtain ⟨tag, children⟩ := tree
  have hpair : (tag.named && decide (tag.kind = .pair)) = true :=
    Bool.and_eq_true_iff.2 ⟨hnamed, decide_eq_true hkind⟩
  rw [pairs, if_pos hpair]

theorem pairs_cons_of_not_pair {tree : Tree} (h : tree.tag.named = true → tree.kind ≠ .pair)
    (rest : List Tree) : pairs document (tree :: rest) = pairs document rest := by
  obtain ⟨tag, children⟩ := tree
  have hother : ¬(tag.named && decide (tag.kind = .pair)) = true := by
    rw [Bool.and_eq_true]
    exact fun hpair => h hpair.1 (of_decide_eq_true hpair.2)
  rw [pairs, if_neg hother]

theorem pairs_append (document : Array Char) (trees others : List Tree) :
    pairs document (trees ++ others) = pairs document trees ++ pairs document others := by
  induction trees with
  | nil => rfl
  | cons tree rest ih =>
    rw [List.cons_append]
    by_cases h : tree.tag.named = true ∧ tree.kind = .pair
    · rw [pairs_cons_of_pair h.1 h.2, pairs_cons_of_pair h.1 h.2, ih, List.append_assoc]
    · rw [pairs_cons_of_not_pair (not_and.1 h), pairs_cons_of_not_pair (not_and.1 h), ih]

theorem pairs_eq_nil_iff {trees : List Tree} :
    pairs document trees = [] ↔ ∀ tree ∈ trees, ¬IsReadablePair document tree := by
  induction trees with
  | nil => simp [pairs]
  | cons tree rest ih =>
    rw [List.forall_mem_cons, ← ih]
    by_cases h : tree.tag.named = true ∧ tree.kind = .pair
    · have hreadable : IsReadablePair document tree ↔ (pair? document tree).isSome = true := by
        rw [isSome_pair?_iff]
        constructor
        · intro hpair
          exact ⟨hpair.exists_key, hpair.exists_value⟩
        · intro hpair
          exact ⟨h.1, h.2, hpair.1, hpair.2⟩
      rw [pairs_cons_of_pair h.1 h.2, List.append_eq_nil_iff, hreadable]
      cases pair? document tree <;> simp
    · have hunreadable : ¬IsReadablePair document tree := fun hpair =>
        h ⟨hpair.named, hpair.kind_eq⟩
      rw [pairs_cons_of_not_pair (not_and.1 h)]
      simp [hunreadable]

/-! Argument lists -/

theorem argumentValues_eq (document : Array Char) (tree : Tree) :
    argumentValues document tree =
      positionalValues document tree.children ++
        if pairs document tree.children = [] then []
        else [.hash (pairs document tree.children)] := by
  rw [argumentValues]
  simp only [List.isEmpty_iff]
  rfl

/-- Whether a node can stand among options: a pair, a comment, or a bare word. -/
def IsOptionPart (tree : Tree) : Prop :=
  tree.tag.named = true → tree.kind = .pair ∨ tree.kind = .comment

theorem positionalValues_append (document : Array Char) (trees others : List Tree) :
    positionalValues document (trees ++ others) =
      positionalValues document trees ++ positionalValues document others := by
  rw [positionalValues, List.filter_append, List.filter_append, List.map_append]
  rfl

theorem positionalValues_options {parts : List Tree} (h : ∀ part ∈ parts, part.IsOptionPart) :
    positionalValues document parts = [] := by
  rw [positionalValues, List.map_eq_nil_iff, List.filter_eq_nil_iff]
  intro part hpart hpositional
  obtain ⟨hmem, hnamed⟩ := List.mem_filter.1 hpart
  rcases h part hmem hnamed with hkind | hkind <;> simp [hkind] at hpositional

theorem pairs_positional {positional : List Tree} (h : ∀ tree ∈ positional, tree.kind ≠ .pair) :
    pairs document positional = [] := by
  rw [pairs_eq_nil_iff]
  intro tree htree hpair
  exact h tree htree hpair.kind_eq

section Options

variable {list brace : Tag} {positional parts : List Tree}

theorem argumentValues_bare
    (hpositional : ∀ tree ∈ positional, tree.kind ≠ .pair)
    (hparts : ∀ part ∈ parts, part.IsOptionPart) :
    argumentValues document (.node list (positional ++ parts)) =
      positionalValues document positional ++
        if pairs document parts = [] then [] else [.hash (pairs document parts)] := by
  rw [argumentValues_eq]
  simp only [children, pairs_append, pairs_positional hpositional, List.nil_append,
    positionalValues_append, positionalValues_options hparts, List.append_nil]

theorem argumentValues_braced
    (hbrace : brace.named = true ∧ brace.kind = .hash)
    (hpositional : ∀ tree ∈ positional, tree.kind ≠ .pair) :
    argumentValues document (.node list (positional ++ [.node brace parts])) =
      positionalValues document positional ++ [.hash (pairs document parts)] := by
  have hpairs : pairs document [.node brace parts] = [] := by
    apply pairs_positional
    intro tree htree
    rw [List.mem_singleton.1 htree]
    show brace.kind ≠ .pair
    rw [hbrace.2]
    decide
  have hvalue : value document (.node brace parts) = .hash (pairs document parts) := by
    rw [value, hbrace.2]
  have hvalues : positionalValues document [.node brace parts] =
      [.hash (pairs document parts)] := by
    simp [positionalValues, kind, tag, hbrace, hvalue]
  rw [argumentValues_eq]
  simp only [children, pairs_append, pairs_positional hpositional, hpairs, if_true,
    List.append_nil, positionalValues_append, hvalues]

theorem argumentValues_bare_of_readable
    (hpositional : ∀ tree ∈ positional, tree.kind ≠ .pair)
    (hparts : ∀ part ∈ parts, part.IsOptionPart)
    (hreadable : ∃ part ∈ parts, IsReadablePair document part) :
    argumentValues document (.node list (positional ++ parts)) =
      positionalValues document positional ++ [.hash (pairs document parts)] := by
  have hpairs : pairs document parts ≠ [] := by
    intro hnil
    obtain ⟨part, hpart, hpair⟩ := hreadable
    exact pairs_eq_nil_iff.1 hnil part hpart hpair
  rw [argumentValues_bare hpositional hparts, if_neg hpairs]

theorem argumentValues_bare_of_unreadable
    (hpositional : ∀ tree ∈ positional, tree.kind ≠ .pair)
    (hparts : ∀ part ∈ parts, part.IsOptionPart) (hpairs : pairs document parts = []) :
    argumentValues document (.node list (positional ++ parts)) =
      positionalValues document positional := by
  rw [argumentValues_bare hpositional hparts, if_pos hpairs, List.append_nil]

end Options

end Tree

end Syntax

end PuppetInventory
