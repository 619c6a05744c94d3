import PuppetInventory.Proofs.Rejection

/-!
Which trees are accepted, and which line is reported of the others. The searches for a fault and for
an `end` that closes nothing stop early and pass over parts of a tree; what they find is what a
search through all nodes in pre-order finds.
-/

namespace PuppetInventory.Syntax

/-- Whether an item is the first of a list with a property. -/
def IsFirst {α : Type} (holds : α → Prop) (items : List α) (item : α) : Prop :=
  ∃ before behind, items = before ++ item :: behind ∧ holds item ∧ ∀ other ∈ before, ¬holds other

theorem find?_eq_some_iff_isFirst
    {α : Type} {test : α → Bool} {holds : α → Prop} (htest : ∀ item, test item = true ↔ holds item)
    {items : List α} {item : α} : items.find? test = some item ↔ IsFirst holds items item := by
  have hnot (other : α) : (!test other) = true ↔ ¬holds other := by
    rw [Bool.not_eq_true', ← Bool.not_eq_true, htest]
  rw [List.find?_eq_some_iff_append, IsFirst]
  simp only [htest, hnot]
  constructor
  · rintro ⟨hitem, before, behind, heq, hbefore⟩
    exact ⟨before, behind, heq, hitem, hbefore⟩
  · rintro ⟨before, behind, heq, hitem, hbefore⟩
    exact ⟨hitem, before, behind, heq, hbefore⟩

namespace Tree

/-! Nodes of a tree -/

/-- A tree and all nodes below it in pre-order, each with the nodes around it. -/
def nodes (tree : Tree) : List (Placed Tree) :=
  places [] tree

def parent? (node : Placed Tree) : Option Tree :=
  node.around.head?

/-- Whether a node tells that the text around it does not read. -/
def IsFault (node : Placed Tree) : Prop :=
  node.item.kind = .error ∨ node.item.kind = .missing

/-- Whether a node is the bare word `end`, and its parent is no construct that the word closes. -/
def IsUnmatchedEnd (node : Placed Tree) : Prop :=
  node.item.kind = .endWord ∧ node.item.tag.named = false ∧
    ∀ parent, parent? node = some parent → parent.kind.closesWithEnd = false

/-- Whether a node is a statement that consists of the name `end`. -/
def IsEndStatement (document : Array Char) (node : Placed Tree) : Prop :=
  node.item.kind = .identifier ∧ node.item.text document = "end" ∧
    ∃ parent, parent? node = some parent ∧ parent.kind.holdsStatements = true

def IsStray (document : Array Char) (node : Placed Tree) : Prop :=
  IsUnmatchedEnd node ∨ IsEndStatement document node

/-- Whether a tree is the tree of a valid document, by what each of its nodes may be. -/
structure IsValid (document : Array Char) (tree : Tree) : Prop where
  noFault : ∀ node ∈ tree.nodes, ¬IsFault node
  endsClose : ∀ node ∈ tree.nodes, node.item.kind = .endWord → node.item.tag.named = false →
    ∃ parent, parent? node = some parent ∧ parent.kind.closesWithEnd = true
  endsAreWords : ∀ node ∈ tree.nodes, node.item.kind = .identifier →
    node.item.text document = "end" →
    ∀ parent, parent? node = some parent → parent.kind.holdsStatements = false

/-! Tests of one node -/

def faultTest (node : Placed Tree) : Bool :=
  node.item.kind.isFault

def strayTest (document : Array Char) (node : Placed Tree) : Bool :=
  isStrayEnd document ((parent? node).map kind) node.item.tag

section

variable {document : Array Char} {tree : Tree} {around : List Tree}

theorem faultTest_iff (node : Placed Tree) : faultTest node = true ↔ IsFault node := by
  unfold faultTest IsFault
  cases node.item.kind <;> simp [Kind.isFault]

theorem any_map_kind_iff {parent : Option Tree} {test : Kind → Bool} :
    (parent.map kind).any test = true ↔ ∃ tree, parent = some tree ∧ test tree.kind = true := by
  cases parent <;> simp

theorem strayTest_iff (node : Placed Tree) :
    strayTest document node = true ↔ IsStray document node := by
  have hclosed : (!((parent? node).map kind).any Kind.closesWithEnd) = true ↔
      ∀ parent, parent? node = some parent → parent.kind.closesWithEnd = false := by
    rw [Bool.not_eq_true', ← Bool.not_eq_true, any_map_kind_iff]
    simp
  unfold strayTest isStrayEnd IsStray IsUnmatchedEnd IsEndStatement
  have hkind : node.item.tag.kind = node.item.kind := rfl
  have htext : node.item.tag.span.text document = node.item.text document := rfl
  rw [hkind, htext]
  split
  · next hend =>
    rw [hend, Bool.and_eq_true, hclosed]
    simp
  · next hend =>
    rw [hend, Bool.and_eq_true, any_map_kind_iff]
    simp
  · next hother hidentifier =>
    constructor
    · intro h
      cases h
    · rintro (⟨hend, -⟩ | ⟨hend, -⟩)
      · exact absurd hend hother
      · exact absurd hend hidentifier

/-! The searches -/

mutual

theorem hasFault_eq_any (around : List Tree) (tree : Tree) :
    tree.hasFault = (places around tree).any faultTest := by
  obtain ⟨tag, children⟩ := tree
  rw [hasFault, places, List.any_cons, anyFault_eq_any (.node tag children :: around) children]
  rfl

theorem anyFault_eq_any (around trees : List Tree) :
    anyFault trees = (placesAll around trees).any faultTest := by
  match trees with
  | [] => rfl
  | tree :: rest =>
    rw [anyFault, placesAll, List.any_append, ← hasFault_eq_any around tree,
      ← anyFault_eq_any around rest]

end

theorem find?_eq_none_of_any_eq_false
    {α : Type} {test : α → Bool} {items : List α} (h : items.any test = false) :
    items.find? test = none := by
  rw [List.find?_eq_none]
  exact List.any_eq_false.1 h

mutual

/-- Nothing that the search for a fault passes over holds one. -/
theorem firstFault?_eq_find? (around : List Tree) (tree : Tree) :
    tree.firstFault? = ((places around tree).find? faultTest).map fun node => node.item.line := by
  obtain ⟨tag, children⟩ := tree
  have hbelow := firstFaultOf?_eq_find? (.node tag children :: around) children
  have hany := anyFault_eq_any (.node tag children :: around) children
  have htest : faultTest ⟨around, .node tag children⟩ = tag.kind.isFault := rfl
  rw [firstFault?, places, List.find?_cons, htest]
  cases hfault : tag.kind.isFault with
  | true => rfl
  | false =>
    cases hbelowFault : anyFault children with
    | true => simpa [hfault] using hbelow
    | false => simp [find?_eq_none_of_any_eq_false (hany.symm.trans hbelowFault)]

theorem firstFaultOf?_eq_find? (around trees : List Tree) :
    firstFaultOf? trees =
      ((placesAll around trees).find? faultTest).map fun node => node.item.line := by
  match trees with
  | [] => rfl
  | tree :: rest =>
    rw [firstFaultOf?, placesAll, List.find?_append, Option.map_or,
      ← firstFault?_eq_find? around tree, ← firstFaultOf?_eq_find? around rest]

end

mutual

theorem firstStrayEnd?_eq_find? (document : Array Char) (around : List Tree) (tree : Tree) :
    tree.firstStrayEnd? document (around.head?.map kind) =
      ((places around tree).find? (strayTest document)).map fun node => node.item.line := by
  obtain ⟨tag, children⟩ := tree
  have hbelow := firstStrayEndOf?_eq_find? document (.node tag children :: around) children
  have htest : strayTest document ⟨around, .node tag children⟩ =
      isStrayEnd document (around.head?.map kind) tag := rfl
  rw [firstStrayEnd?, places, List.find?_cons, htest]
  cases hstray : isStrayEnd document (around.head?.map kind) tag with
  | true => rfl
  | false => exact hbelow

theorem firstStrayEndOf?_eq_find? (document : Array Char) (around trees : List Tree) :
    firstStrayEndOf? document (around.head?.map kind) trees =
      ((placesAll around trees).find? (strayTest document)).map fun node => node.item.line := by
  match trees with
  | [] => rfl
  | tree :: rest =>
    rw [firstStrayEndOf?, placesAll, List.find?_append, Option.map_or,
      ← firstStrayEnd?_eq_find? document around tree,
      ← firstStrayEndOf?_eq_find? document around rest]

end

/-! What is accepted and what is reported -/

theorem hasFault_iff : tree.hasFault = true ↔ ∃ node ∈ tree.nodes, IsFault node := by
  rw [hasFault_eq_any [] tree, List.any_eq_true]
  simp only [faultTest_iff, nodes]

/-- If there is a fault, it is found. -/
theorem isSome_firstFault? (tree : Tree) : tree.firstFault?.isSome = tree.hasFault := by
  rw [firstFault?_eq_find? [] tree, hasFault_eq_any [] tree, Option.isSome_map, Bool.eq_iff_iff,
    List.find?_isSome, List.any_eq_true]

theorem invalidLine?_eq_find? (document : Array Char) (tree : Tree) :
    tree.invalidLine? document =
      ((tree.nodes.find? faultTest).or (tree.nodes.find? (strayTest document))).map
        fun node => node.item.line := by
  have hfault := firstFault?_eq_find? [] tree
  have hstray := firstStrayEnd?_eq_find? document [] tree
  have hsome := isSome_firstFault? tree
  rw [invalidLine?, Option.map_or, nodes, ← hfault, ← hstray, ← hsome]
  cases tree.firstFault? <;> rfl

/-- Whether a node is the one that a rejected tree is blamed on: the first that tells of a fault, or
the first `end` that closes nothing if there is no fault. -/
def IsBlamed (document : Array Char) (tree : Tree) (node : Placed Tree) : Prop :=
  IsFirst IsFault tree.nodes node ∨
    (∀ other ∈ tree.nodes, ¬IsFault other) ∧ IsFirst (IsStray document) tree.nodes node

theorem find?_faultTest_eq_none_iff :
    tree.nodes.find? faultTest = none ↔ ∀ node ∈ tree.nodes, ¬IsFault node := by
  simp only [List.find?_eq_none, faultTest_iff]

theorem find?_strayTest_eq_none_iff :
    tree.nodes.find? (strayTest document) = none ↔ ∀ node ∈ tree.nodes, ¬IsStray document node := by
  simp only [List.find?_eq_none, strayTest_iff]

theorem isValid_iff :
    tree.IsValid document ↔
      (∀ node ∈ tree.nodes, ¬IsFault node) ∧ ∀ node ∈ tree.nodes, ¬IsStray document node := by
  constructor
  · rintro ⟨hfault, hend, hname⟩
    refine ⟨hfault, fun node hnode hstray => ?_⟩
    rcases hstray with ⟨hkind, hbare, hparent⟩ | ⟨hkind, htext, parent, hparent, hholds⟩
    · obtain ⟨parent, hparent', hcloses⟩ := hend node hnode hkind hbare
      rw [hparent parent hparent'] at hcloses
      cases hcloses
    · rw [hname node hnode hkind htext parent hparent] at hholds
      cases hholds
  · rintro ⟨hfault, hstray⟩
    refine ⟨hfault, fun node hnode hkind hbare => ?_,
      fun node hnode hkind htext parent hparent => ?_⟩
    · refine Classical.byContradiction fun hnone => ?_
      refine hstray node hnode (.inl ⟨hkind, hbare, fun parent hparent => ?_⟩)
      exact Bool.eq_false_iff.2 fun hcloses => hnone ⟨parent, hparent, hcloses⟩
    · exact Bool.eq_false_iff.2 fun hholds =>
        hstray node hnode (.inr ⟨hkind, htext, parent, hparent, hholds⟩)

theorem invalidLine?_eq_none_iff :
    tree.invalidLine? document = none ↔ tree.IsValid document := by
  rw [invalidLine?_eq_find?, Option.map_eq_none_iff, Option.or_eq_none_iff,
    find?_faultTest_eq_none_iff, find?_strayTest_eq_none_iff, isValid_iff]

theorem invalidLine?_eq_some_iff {line : Nat} :
    tree.invalidLine? document = some line ↔
      ∃ node, tree.IsBlamed document node ∧ line = node.item.span.start.row + 1 := by
  have hblamed (node : Placed Tree) :
      (tree.nodes.find? faultTest).or (tree.nodes.find? (strayTest document)) = some node ↔
        tree.IsBlamed document node := by
    rw [Option.or_eq_some_iff, find?_eq_some_iff_isFirst faultTest_iff,
      find?_eq_some_iff_isFirst strayTest_iff, find?_faultTest_eq_none_iff]
    rfl
  rw [invalidLine?_eq_find?, Option.map_eq_some_iff]
  simp only [hblamed]
  exact exists_congr fun node => and_congr_right fun _ => eq_comm

end

end Tree

/-- A tree is accepted exactly if no node tells of a fault, every bare `end` closes the construct it
stands in, and no statement is the name `end`. Any other tree is rejected with the line of the first
node that tells of a fault or, if there is none, of the first `end` that closes nothing. The search
that passes over trees without faults finds what a search of all nodes finds, so there is always a
line to report. Documents are accepted and rejected with their trees. -/
theorem invalidLine?_exact :
    (∀ (document : Array Char) (tree : Tree),
      (tree.invalidLine? document = none ↔ tree.IsValid document) ∧
      (∀ line, tree.invalidLine? document = some line ↔
        ∃ node, tree.IsBlamed document node ∧ line = node.item.span.start.row + 1) ∧
      tree.firstFault? =
        (tree.nodes.find? fun node => node.item.kind.isFault).map
          (fun node => node.item.span.start.row + 1) ∧
      (tree.hasFault = true ↔ ∃ node ∈ tree.nodes, Tree.IsFault node) ∧
      tree.firstFault?.isSome = tree.hasFault) ∧
    ∀ text : String,
      let document := text.toList
      ((∃ roots, Document.calls text = .ok roots) ↔
        (Document.tree document).IsValid document.toArray) ∧
      ∀ line, Document.calls text = .error line ↔
        ∃ node, (Document.tree document).IsBlamed document.toArray node ∧
          line = node.item.span.start.row + 1 := by
  refine ⟨fun document tree => ⟨Tree.invalidLine?_eq_none_iff, fun line =>
    Tree.invalidLine?_eq_some_iff, Tree.firstFault?_eq_find? [] tree, Tree.hasFault_iff,
    Tree.isSome_firstFault? tree⟩, fun text => ⟨?_, fun line => ?_⟩⟩
  · simp only [Document.calls_eq_ok_iff, exists_and_left, exists_eq', and_true]
    exact Tree.invalidLine?_eq_none_iff
  · rw [Document.calls_eq_error_iff]
    exact Tree.invalidLine?_eq_some_iff

end PuppetInventory.Syntax
