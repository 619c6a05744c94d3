import PuppetInventory.Syntax.Lowering
import PuppetInventory.Proofs.Walk

/-!
The calls of a tree against the nodes that call a method without a receiver. Every such node below a
tree gives one call, in the same order, and a call stands inside another exactly if its node does.
-/

namespace PuppetInventory

/-- Something that stands inside others of its kind. -/
structure Placed (α : Type) where
  /-- What it stands in, the nearest first. -/
  around : List α
  item : α

namespace Call

mutual

/-- A call and all calls inside it in pre-order, with the calls around each. -/
def places (around : List Call) : Call → List (Placed Call)
  | ⟨name, arguments, line, children⟩ =>
    ⟨around, ⟨name, arguments, line, children⟩⟩ ::
      placesAll (⟨name, arguments, line, children⟩ :: around) children

def placesAll (around : List Call) : List Call → List (Placed Call)
  | [] => []
  | call :: rest => places around call ++ placesAll around rest

end

theorem placesAll_append (around calls others : List Call) :
    placesAll around (calls ++ others) = placesAll around calls ++ placesAll around others := by
  induction calls with
  | nil => rfl
  | cons call rest ih => rw [List.cons_append, placesAll, placesAll, ih, List.append_assoc]

mutual

theorem map_item_places (around : List Call) (call : Call) :
    (places around call).map Placed.item = call.preorder := by
  obtain ⟨name, arguments, line, children⟩ := call
  rw [places, preorder, List.map_cons, map_item_placesAll _ children]

theorem map_item_placesAll (around calls : List Call) :
    (placesAll around calls).map Placed.item = preorderAll calls := by
  match calls with
  | [] => rfl
  | call :: rest =>
    rw [placesAll, preorderAll, List.map_append, map_item_places around call,
      map_item_placesAll around rest]

end

end Call

namespace Syntax.Tree

mutual

/-- A tree and all nodes below it in pre-order, with the nodes around each. -/
def places (around : List Tree) : Tree → List (Placed Tree)
  | .node tag children =>
    ⟨around, .node tag children⟩ :: placesAll (.node tag children :: around) children

def placesAll (around : List Tree) : List Tree → List (Placed Tree)
  | [] => []
  | tree :: rest => places around tree ++ placesAll around rest

end

/-- The nodes below a tree in pre-order, each with the nodes between the tree and itself. -/
def nodesBelow (tree : Tree) : List (Placed Tree) :=
  placesAll [] tree.children

/-- Whether a node calls a method without a receiver. -/
def isCall (tree : Tree) : Bool :=
  tree.tag.named && tree.kind = .call && (tree.child? .method).isSome &&
    (tree.child? .receiver).isNone

/-- Whether a node that stands inside named nodes alone is a call. -/
def isOpenCall (node : Placed Tree) : Bool :=
  node.item.isCall && node.around.all fun outer => outer.tag.named

/-- The call that a node stands for. -/
def callAt (document : Array Char) (tree : Tree) : Call where
  name := ((tree.child? .method).map (text document)).getD ""
  arguments := ((tree.child? .arguments).map (argumentValues document)).getD []
  line := tree.line
  children := tree.callsBelow document

/-- The call that a node stands for, inside the calls that the nodes around it stand for. -/
def placedCall (document : Array Char) (node : Placed Tree) : Placed Call where
  around := (node.around.filter isCall).map (callAt document)
  item := callAt document node.item

/-! Calls and nodes -/

theorem isCall_eq (tree : Tree) :
    tree.isCall = (tree.tag.named && (calledMethod? tree).isSome) := by
  unfold isCall calledMethod?
  cases tree.tag.named <;> cases decide (tree.kind = .call) <;>
    cases (tree.child? .receiver).isNone <;> simp

theorem calls_of_isCall
    (document : Array Char) {tag : Tag} {children : List Tree}
    (h : (node tag children).isCall = true) :
    calls document (.node tag children) = [callAt document (.node tag children)] := by
  rw [isCall_eq, Bool.and_eq_true] at h
  obtain ⟨hnamed, hmethod⟩ := h
  obtain ⟨method, hmethod⟩ := Option.isSome_iff_exists.1 hmethod
  have hchild : (node tag children).child? .method = some method := by
    unfold calledMethod? at hmethod
    split at hmethod
    · exact hmethod
    · cases hmethod
  have hname : text document method =
      (callAt document (.node tag children)).name := by simp [callAt, hchild]
  rw [calls, if_pos (show tag.named = true from hnamed), hmethod]
  simp only [hname]
  rfl

theorem calls_of_named
    (document : Array Char) {tag : Tag} {children : List Tree} (hnamed : tag.named = true)
    (h : (node tag children).isCall = false) :
    calls document (.node tag children) = callsOfAll document children := by
  rw [isCall_eq, show (node tag children).tag.named = true from hnamed, Bool.true_and] at h
  rw [calls, if_pos hnamed, Option.isSome_eq_false_iff.1 h |> Option.isNone_iff_eq_none.1]

mutual

theorem around_subset_of_mem_places
    {around : List Tree} {tree : Tree} {node : Placed Tree} (h : node ∈ places around tree) :
    around ⊆ node.around := by
  obtain ⟨tag, children⟩ := tree
  rw [places, List.mem_cons] at h
  rcases h with rfl | h
  · exact fun _ houter => houter
  · exact fun _ houter => around_subset_of_mem_placesAll h (List.mem_cons_of_mem _ houter)

theorem around_subset_of_mem_placesAll
    {around trees : List Tree} {node : Placed Tree} (h : node ∈ placesAll around trees) :
    around ⊆ node.around := by
  match trees with
  | [] => cases h
  | tree :: rest =>
    rw [placesAll, List.mem_append] at h
    rcases h with h | h
    · exact around_subset_of_mem_places h
    · exact around_subset_of_mem_placesAll h

end

theorem filter_isOpenCall_of_bare
    {around trees : List Tree} (outer : Tree) (hmem : outer ∈ around)
    (hbare : outer.tag.named = false) : (placesAll around trees).filter isOpenCall = [] := by
  rw [List.filter_eq_nil_iff]
  intro node hnode hcall
  rw [isOpenCall, Bool.and_eq_true, List.all_eq_true] at hcall
  have hnamed := hcall.2 outer (around_subset_of_mem_placesAll hnode hmem)
  rw [hbare] at hnamed
  cases hnamed

mutual

theorem places_calls
    (document : Array Char) (around : List Tree)
    (haround : (around.all fun outer => outer.tag.named) = true) (tree : Tree) :
    Call.placesAll ((around.filter isCall).map (callAt document)) (calls document tree) =
      ((places around tree).filter isOpenCall).map (placedCall document) := by
  obtain ⟨tag, children⟩ := tree
  rw [places]
  cases hnamed : tag.named with
  | false =>
    have hcall : (node tag children).isCall = false := by simp [isCall, Tree.tag, hnamed]
    rw [List.filter_cons_of_neg (by simp [isOpenCall, hcall]),
      filter_isOpenCall_of_bare (.node tag children) List.mem_cons_self hnamed, calls,
      if_neg (by simp [hnamed])]
    rfl
  | true =>
    have hinner : ((node tag children :: around).all fun outer => outer.tag.named) = true := by
      simpa [Tree.tag, hnamed] using haround
    -- The node goes around its children; it counts there exactly if it is a call itself.
    have ih := placesAll_calls document (node tag children :: around) hinner children
    cases hcall : (node tag children).isCall with
    | true =>
      rw [List.filter_cons_of_pos (by simp [isOpenCall, hcall, haround]), List.map_cons, ← ih,
        calls_of_isCall document hcall, List.filter_cons_of_pos hcall, Call.placesAll,
        Call.placesAll, List.append_nil]
      rfl
    | false =>
      rw [List.filter_cons_of_neg (by simp [isOpenCall, hcall]), ← ih,
        calls_of_named document hnamed hcall, List.filter_cons_of_neg (by simp [hcall])]

theorem placesAll_calls
    (document : Array Char) (around : List Tree)
    (haround : (around.all fun outer => outer.tag.named) = true) (trees : List Tree) :
    Call.placesAll ((around.filter isCall).map (callAt document)) (callsOfAll document trees) =
      ((placesAll around trees).filter isOpenCall).map (placedCall document) := by
  match trees with
  | [] => rfl
  | tree :: rest =>
    rw [callsOfAll, placesAll, List.filter_append, List.map_append,
      ← places_calls document around haround tree, ← placesAll_calls document around haround rest,
      Call.placesAll_append]

end

theorem placesAll_callsBelow (document : Array Char) (tree : Tree) :
    Call.placesAll [] (tree.callsBelow document) =
      (tree.nodesBelow.filter isOpenCall).map (placedCall document) :=
  placesAll_calls document [] rfl tree.children

theorem preorderAll_callsBelow (document : Array Char) (tree : Tree) :
    Call.preorderAll (tree.callsBelow document) =
      (tree.nodesBelow.filter isOpenCall).map fun node => callAt document node.item := by
  rw [← Call.map_item_placesAll [], placesAll_callsBelow, List.map_map]
  rfl

theorem exists_method_of_isCall (document : Array Char) {tree : Tree} (h : tree.isCall = true) :
    ∃ method, tree.child? .method = some method ∧
      (callAt document tree).name = method.text document := by
  unfold isCall at h
  simp only [Bool.and_eq_true] at h
  obtain ⟨method, hmethod⟩ := Option.isSome_iff_exists.1 h.1.2
  exact ⟨method, hmethod, by simp [callAt, hmethod]⟩

/-! Bare words -/

/-- Whether the nodes that stand for bare words have no parts. -/
def BareWordsAreLeaves (tree : Tree) : Prop :=
  ∀ node ∈ tree.nodesBelow, node.item.tag.named = false → node.item.children = []

mutual

theorem mem_around_places
    {around : List Tree} {tree outer : Tree} {node : Placed Tree}
    (h : node ∈ places around tree) (houter : outer ∈ node.around) :
    outer ∈ around ∨
      outer.children ≠ [] ∧ ∃ place ∈ places around tree, place.item = outer := by
  obtain ⟨tag, children⟩ := tree
  rw [places, List.mem_cons] at h
  rcases h with rfl | h
  · exact .inl houter
  · rcases mem_around_placesAll h houter with hmem | ⟨hparts, place, hplace, heq⟩
    · rcases List.mem_cons.1 hmem with rfl | hmem
      · refine .inr ⟨?_, ⟨around, .node tag children⟩, by simp [places], rfl⟩
        intro hempty
        rw [show children = [] from hempty] at h
        cases h
      · exact .inl hmem
    · exact .inr ⟨hparts, place, by rw [places]; exact List.mem_cons_of_mem _ hplace, heq⟩

theorem mem_around_placesAll
    {around trees : List Tree} {outer : Tree} {node : Placed Tree}
    (h : node ∈ placesAll around trees) (houter : outer ∈ node.around) :
    outer ∈ around ∨
      outer.children ≠ [] ∧ ∃ place ∈ placesAll around trees, place.item = outer := by
  match trees with
  | [] => cases h
  | tree :: rest =>
    rw [placesAll, List.mem_append] at h
    rcases h with h | h
    · rcases mem_around_places h houter with hmem | ⟨hparts, place, hplace, heq⟩
      · exact .inl hmem
      · exact .inr ⟨hparts, place, by rw [placesAll]; exact List.mem_append_left _ hplace, heq⟩
    · rcases mem_around_placesAll h houter with hmem | ⟨hparts, place, hplace, heq⟩
      · exact .inl hmem
      · exact .inr ⟨hparts, place, by rw [placesAll]; exact List.mem_append_right _ hplace, heq⟩

end

theorem filter_isOpenCall_of_bareWordsAreLeaves {tree : Tree} (h : tree.BareWordsAreLeaves) :
    tree.nodesBelow.filter isOpenCall = tree.nodesBelow.filter fun node => node.item.isCall := by
  apply List.filter_congr
  intro node hnode
  have hopen : (node.around.all fun outer => outer.tag.named) = true := by
    rw [List.all_eq_true]
    intro outer houter
    rcases mem_around_placesAll hnode houter with hmem | ⟨hparts, place, hplace, rfl⟩
    · cases hmem
    · cases hnamed : place.item.tag.named with
      | true => rfl
      | false => exact absurd (h place hplace hnamed) hparts
  rw [isOpenCall, hopen, Bool.and_true]

/-- The calls of a tree, in pre-order and each with the calls around it, are those of its nodes that
call a method without a receiver, in pre-order and each with the nodes of that sort around it. The
nodes are all there are if bare words have no parts. -/
theorem callsBelow_places (document : Array Char) (tree : Tree) :
    let calls := tree.callsBelow document
    let nodes := tree.nodesBelow.filter isOpenCall
    Call.placesAll [] calls = nodes.map (placedCall document) ∧
    Call.preorderAll calls = nodes.map (fun node => callAt document node.item) ∧
    Call.countAll calls = nodes.length ∧
    (∀ node ∈ nodes, ∃ method,
      node.item.child? .method = some method ∧
      (callAt document node.item).name = method.text document ∧
      (callAt document node.item).line = node.item.span.start.row + 1) ∧
    (tree.BareWordsAreLeaves →
      nodes = tree.nodesBelow.filter fun node => node.item.isCall) := by
  intro calls nodes
  refine ⟨placesAll_callsBelow document tree, preorderAll_callsBelow document tree, ?_, ?_,
    filter_isOpenCall_of_bareWordsAreLeaves⟩
  · rw [← Call.length_preorderAll, preorderAll_callsBelow, List.length_map]
  · intro node hnode
    have hcall := (List.mem_filter.1 hnode).2
    rw [isOpenCall, Bool.and_eq_true] at hcall
    obtain ⟨method, hmethod, hname⟩ := exists_method_of_isCall document hcall.1
    exact ⟨method, hmethod, hname, rfl⟩

end Syntax.Tree

end PuppetInventory
