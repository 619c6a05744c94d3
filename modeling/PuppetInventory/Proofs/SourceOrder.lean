import PuppetInventory.Proofs.Declared
import PuppetInventory.Proofs.Names.Statements

/-!
The order of results. In a tree whose nodes lie inside each other as the parts of a document do, the
calls come in the order of their lines, and so do the declarations and the diagnostics.
-/

namespace PuppetInventory

namespace Syntax

/-! Lines of a document -/

/-- The number of lines. What stands behind the last line break is a line if it is not empty. -/
def lineCount (document : List Char) : Nat :=
  document.count '\n' + if document = [] ∨ document.getLast? = some '\n' then 0 else 1

/-- Whether a place is one of a document: its row counts the line breaks before it. -/
def Position.isPlaceOf (document : List Char) (position : Position) : Bool :=
  position.offset ≤ document.length && position.row = (document.take position.offset).count '\n'

namespace Position

variable {document : List Char} {position other : Position}

theorem isPlaceOf_iff :
    position.isPlaceOf document = true ↔
      position.offset ≤ document.length ∧
        position.row = (document.take position.offset).count '\n' := by
  rw [isPlaceOf, Bool.and_eq_true, decide_eq_true_eq, decide_eq_true_eq]

theorem line_le_of_offset_le
    (h : position.isPlaceOf document = true) (hother : other.isPlaceOf document = true)
    (hoffset : position.offset ≤ other.offset) : position.line ≤ other.line := by
  have hrow := (isPlaceOf_iff.1 h).2
  have hotherRow := (isPlaceOf_iff.1 hother).2
  have hcount : (document.take position.offset).count '\n' ≤
      (document.take other.offset).count '\n' :=
    (List.take_sublist_take_left hoffset).count_le '\n'
  unfold line
  omega

/-- A place with something behind it is on one of the lines of the document. -/
theorem line_le_lineCount
    (h : position.isPlaceOf document = true) (hoffset : position.offset < document.length) :
    position.line ≤ lineCount document := by
  have hrow := (isPlaceOf_iff.1 h).2
  have hsplit : document.take position.offset ++ document.drop position.offset = document :=
    List.take_append_drop position.offset document
  have hrest : document.drop position.offset ≠ [] := by
    rw [Ne, List.drop_eq_nil_iff]
    omega
  have hcount : (document.take position.offset).count '\n' +
      (document.drop position.offset).count '\n' = document.count '\n' := by
    rw [← List.count_append, hsplit]
  unfold lineCount line
  split
  · next hended =>
    -- The last line break stands behind the place.
    have hlast : (document.drop position.offset).getLast? = some '\n' := by
      rcases hended with hempty | hlast
      · rw [hempty] at hoffset
        cases hoffset
      · rw [← hsplit, List.getLast?_append, List.getLast?_eq_some_getLast hrest] at hlast
        rwa [List.getLast?_eq_some_getLast hrest]
    have hbreak : 0 < (document.drop position.offset).count '\n' :=
      List.count_pos_iff.2 (List.mem_of_getLast? hlast)
    omega
  · omega

end Position

namespace Tree

/-! Trees inside a document -/

mutual

/-- Whether a tree covers a part of a document in which its children lie one behind the other, and
all trees in it do so. -/
def isNested (document : List Char) : Tree → Bool
  | .node tag children =>
    tag.span.start.isPlaceOf document && tag.span.stop.isPlaceOf document &&
      areNested document tag.span.start.offset tag.span.stop.offset children

/-- Whether such trees lie one behind the other between two offsets. -/
def areNested (document : List Char) (start stop : Nat) : List Tree → Bool
  | [] => start ≤ stop
  | tree :: rest =>
    start ≤ tree.span.start.offset && tree.isNested document &&
      areNested document tree.span.stop.offset stop rest

end

variable {document : List Char}

theorem isNested_iff {tree : Tree} :
    tree.isNested document = true ↔
      tree.span.start.isPlaceOf document = true ∧ tree.span.stop.isPlaceOf document = true ∧
        areNested document tree.span.start.offset tree.span.stop.offset tree.children = true := by
  obtain ⟨tag, children⟩ := tree
  rw [isNested, Bool.and_eq_true, Bool.and_eq_true, and_assoc]
  rfl

theorem areNested_cons_iff {start stop : Nat} {tree : Tree} {rest : List Tree} :
    areNested document start stop (tree :: rest) = true ↔
      start ≤ tree.span.start.offset ∧ tree.isNested document = true ∧
        areNested document tree.span.stop.offset stop rest = true := by
  rw [areNested, Bool.and_eq_true, Bool.and_eq_true, decide_eq_true_eq, and_assoc]

mutual

theorem start_le_stop {tree : Tree} (h : tree.isNested document = true) :
    tree.span.start.offset ≤ tree.span.stop.offset := by
  obtain ⟨tag, children⟩ := tree
  exact le_of_areNested (isNested_iff.1 h).2.2

theorem le_of_areNested {start stop : Nat} {trees : List Tree}
    (h : areNested document start stop trees = true) : start ≤ stop := by
  match trees with
  | [] => simpa [areNested] using h
  | tree :: rest =>
    obtain ⟨hstart, htree, hrest⟩ := areNested_cons_iff.1 h
    calc
      start ≤ tree.span.start.offset := hstart
      _ ≤ tree.span.stop.offset := start_le_stop htree
      _ ≤ stop := le_of_areNested hrest

end

theorem within_of_mem {start stop : Nat} {trees : List Tree} {tree : Tree}
    (h : areNested document start stop trees = true) (hmem : tree ∈ trees) :
    start ≤ tree.span.start.offset ∧ tree.isNested document = true ∧
      tree.span.stop.offset ≤ stop := by
  induction trees generalizing start with
  | nil => cases hmem
  | cons first rest ih =>
    obtain ⟨hstart, hfirst, hrest⟩ := areNested_cons_iff.1 h
    rcases List.mem_cons.1 hmem with rfl | hmem
    · exact ⟨hstart, hfirst, le_of_areNested hrest⟩
    · obtain ⟨hbehind, htree, hstop⟩ := ih hrest hmem
      have hpassed := start_le_stop hfirst
      exact ⟨by omega, htree, hstop⟩

/-! Nodes in pre-order -/

/-- The nodes of a list start one behind the other between two offsets. -/
structure StartInOrder
    (document : List Char) (start stop : Nat) (nodes : List (Placed Tree)) : Prop where
  ordered : nodes.Pairwise fun first second =>
    first.item.span.start.offset ≤ second.item.span.start.offset
  within : ∀ node ∈ nodes, start ≤ node.item.span.start.offset ∧
    node.item.isNested document = true ∧ node.item.span.stop.offset ≤ stop

namespace StartInOrder

variable {start stop : Nat}

theorem nil : StartInOrder document start stop [] where
  ordered := List.Pairwise.nil
  within := fun _ hnode => absurd hnode List.not_mem_nil

theorem append {middle : Nat} {nodes others : List (Placed Tree)}
    (h : StartInOrder document start middle nodes)
    (hothers : StartInOrder document middle stop others)
    (hstart : start ≤ middle) (hstop : middle ≤ stop) :
    StartInOrder document start stop (nodes ++ others) where
  ordered := by
    rw [List.pairwise_append]
    refine ⟨h.ordered, hothers.ordered, fun first hfirst second hsecond => ?_⟩
    obtain ⟨_, hfirstNested, hfirstStop⟩ := h.within first hfirst
    obtain ⟨hsecondStart, _, _⟩ := hothers.within second hsecond
    calc
      first.item.span.start.offset ≤ first.item.span.stop.offset := start_le_stop hfirstNested
      _ ≤ middle := hfirstStop
      _ ≤ second.item.span.start.offset := hsecondStart
  within := by
    intro node hnode
    rcases List.mem_append.1 hnode with hnode | hnode
    · obtain ⟨hnodeStart, hnested, hnodeStop⟩ := h.within node hnode
      exact ⟨hnodeStart, hnested, by omega⟩
    · obtain ⟨hnodeStart, hnested, hnodeStop⟩ := hothers.within node hnode
      exact ⟨by omega, hnested, hnodeStop⟩

/-- A node comes before the nodes inside it. -/
theorem cons {tree : Tree} {nodes : List (Placed Tree)} (around : List Tree)
    (htree : tree.isNested document = true)
    (h : StartInOrder document tree.span.start.offset tree.span.stop.offset nodes) :
    StartInOrder document tree.span.start.offset tree.span.stop.offset
      (⟨around, tree⟩ :: nodes) where
  ordered := List.pairwise_cons.2 ⟨fun inner hinner => (h.within inner hinner).1, h.ordered⟩
  within := by
    intro inner hinner
    rcases List.mem_cons.1 hinner with rfl | hinner
    · exact ⟨Nat.le_refl _, htree, Nat.le_refl _⟩
    · exact h.within inner hinner

theorem from_earlier {earlier : Nat} {nodes : List (Placed Tree)}
    (h : StartInOrder document start stop nodes) (hearlier : earlier ≤ start) :
    StartInOrder document earlier stop nodes where
  ordered := h.ordered
  within := by
    intro node hnode
    obtain ⟨hnodeStart, hnested, hnodeStop⟩ := h.within node hnode
    exact ⟨by omega, hnested, hnodeStop⟩

end StartInOrder

mutual

theorem places_startInOrder (around : List Tree) {tree : Tree}
    (h : tree.isNested document = true) :
    StartInOrder document tree.span.start.offset tree.span.stop.offset (places around tree) := by
  obtain ⟨tag, children⟩ := tree
  have hinner := placesAll_startInOrder (.node tag children :: around) (isNested_iff.1 h).2.2
  rw [places]
  exact StartInOrder.cons around h hinner

theorem placesAll_startInOrder (around : List Tree) {start stop : Nat} {trees : List Tree}
    (h : areNested document start stop trees = true) :
    StartInOrder document start stop (placesAll around trees) := by
  match trees with
  | [] => exact StartInOrder.nil
  | tree :: rest =>
    obtain ⟨hstart, htree, hrest⟩ := areNested_cons_iff.1 h
    have hpassed := start_le_stop htree
    have hfirst := (places_startInOrder around htree).from_earlier hstart
    rw [placesAll]
    apply hfirst.append (placesAll_startInOrder around hrest)
    · omega
    · exact le_of_areNested hrest

end

/-! Lines of calls -/

theorem lines_ordered {tree : Tree} (h : tree.isNested document = true) (text : Array Char) :
    ((Call.preorderAll (tree.callsBelow text)).map Call.line).Pairwise (· ≤ ·) := by
  have hnodes := placesAll_startInOrder [] (isNested_iff.1 h).2.2
  rw [preorderAll_callsBelow, List.map_map, List.pairwise_map]
  apply (hnodes.ordered.filter isOpenCall).imp_of_mem
  intro first second hfirst hsecond hoffset
  have hfirstNested := (hnodes.within first (List.mem_filter.1 hfirst).1).2.1
  have hsecondNested := (hnodes.within second (List.mem_filter.1 hsecond).1).2.1
  exact Position.line_le_of_offset_le (isNested_iff.1 hfirstNested).1
    (isNested_iff.1 hsecondNested).1 hoffset

mutual

theorem NamesMethods.of_mem_places {around : List Tree} {tree : Tree} {node : Placed Tree}
    (h : tree.NamesMethods) (hnode : node ∈ places around tree) : node.item.NamesMethods := by
  cases h with
  | node hmethod hchildren =>
    rw [places, List.mem_cons] at hnode
    rcases hnode with rfl | hnode
    · exact .node hmethod hchildren
    · exact of_mem_placesAll hchildren hnode

theorem NamesMethods.of_mem_placesAll {around trees : List Tree} {node : Placed Tree}
    (h : ∀ tree ∈ trees, tree.NamesMethods) (hnode : node ∈ placesAll around trees) :
    node.item.NamesMethods := by
  match trees with
  | [] => cases hnode
  | tree :: rest =>
    obtain ⟨htree, hrest⟩ := List.forall_mem_cons.1 h
    rw [placesAll, List.mem_append] at hnode
    rcases hnode with hnode | hnode
    · exact of_mem_places htree hnode
    · exact of_mem_placesAll hrest hnode

end

/-- A call whose method has a name starts before the end of the document. -/
theorem offset_lt_of_isCall {tree : Tree} (h : tree.isNested document = true)
    (hnames : tree.NamesMethods) (hcall : tree.isCall = true) :
    tree.span.start.offset < document.length := by
  obtain ⟨method, hmethod, -⟩ := exists_method_of_isCall document.toArray hcall
  have hmem : method ∈ tree.children := List.mem_of_find?_eq_some hmethod
  have hfound := List.find?_some hmethod
  have hrole : method.tag.role = .method := of_decide_eq_true hfound
  have hnonempty : method.span.isEmpty = false := by
    cases hnames with
    | node _ hchildren =>
      cases hchildren method hmem with
      | node hspan _ => exact hspan hrole
  obtain ⟨hstart, hnested, -⟩ := within_of_mem (isNested_iff.1 h).2.2 hmem
  have hstop := (Position.isPlaceOf_iff.1 (isNested_iff.1 hnested).2.1).1
  have hlength := Nat.lt_of_not_le (of_decide_eq_false hnonempty)
  omega

theorem line_of_mem_callsBelow {tree : Tree} {call : Call} (h : tree.isNested document = true)
    (hnames : tree.NamesMethods)
    (hcall : call ∈ Call.preorderAll (tree.callsBelow document.toArray)) :
    1 ≤ call.line ∧ call.line ≤ lineCount document := by
  rw [preorderAll_callsBelow, List.mem_map] at hcall
  obtain ⟨node, hnode, rfl⟩ := hcall
  obtain ⟨hplace, hopen⟩ := List.mem_filter.1 hnode
  rw [isOpenCall, Bool.and_eq_true] at hopen
  have hnested := ((placesAll_startInOrder [] (isNested_iff.1 h).2.2).within node hplace).2.1
  have hnamed : node.item.NamesMethods := by
    cases hnames with
    | node _ hchildren => exact .of_mem_placesAll hchildren hplace
  exact ⟨Nat.le_add_left _ _, Position.line_le_lineCount (isNested_iff.1 hnested).1
    (offset_lt_of_isCall hnested hnamed hopen.1)⟩

end Tree

end Syntax

namespace Outcome

/-! Lines of results -/

/-- A call gives at most one declaration and at most one diagnostic, on its own line. -/
theorem lines_ofCall (settings : Settings) (call : Call) :
    ((ofCall settings call).declarations.map Declaration.line).Sublist [call.line] ∧
      ((ofCall settings call).diagnostics.map Diagnostic.line).Sublist [call.line] := by
  by_cases hmodule : call.IsModuleStatement settings
  · rcases ofCall_of_isModuleStatement hmodule with ⟨declaration, h, hline⟩ | ⟨warning, h, -, hline⟩
    · rw [h, ← hline]
      exact ⟨List.Sublist.refl _, List.nil_sublist _⟩
    · rw [h, ← hline]
      exact ⟨List.nil_sublist _, List.Sublist.refl _⟩
  · by_cases hdirective : call.IsDirective
    · rw [ofCall_of_isDirective hdirective]
      exact ⟨List.nil_sublist _, List.nil_sublist _⟩
    · rw [ofCall_of_unrecognized hmodule hdirective]
      exact ⟨List.nil_sublist _, List.Sublist.refl _⟩

theorem lines_flatMap
    {α : Type} {line : α → Nat} {results : Call → List α}
    (h : ∀ call, ((results call).map line).Sublist [call.line]) (calls : List Call) :
    ((calls.flatMap results).map line).Sublist (calls.map Call.line) := by
  induction calls with
  | nil => exact List.Sublist.refl _
  | cons call rest ih =>
    rw [List.flatMap_cons, List.map_append]
    exact (h call).append ih

theorem lines_ofCalls (settings : Settings) (roots : List Call) :
    ((ofCalls settings roots).declarations.map Declaration.line).Sublist
        ((Call.preorderAll roots).map Call.line) ∧
      ((ofCalls settings roots).diagnostics.map Diagnostic.line).Sublist
        ((Call.preorderAll roots).map Call.line) := by
  rw [ofCalls_declarations, ofCalls_diagnostics]
  constructor
  · exact lines_flatMap (fun call => (lines_ofCall settings call).1) _
  · exact lines_flatMap (fun call => (lines_ofCall settings call).2) _

/-- If the nodes of a document's tree lie inside each other as its parts do, then the calls, the
declarations and the diagnostics come in the order of their lines, and all these lines are lines of
the document. No call stands behind the last line break, for every call has a name. -/
theorem ofText_in_source_order
    (settings : Settings) (text : String) (roots : List Call)
    (hroots : Syntax.Document.calls text = .ok roots)
    (hnested : (Syntax.Document.tree text.toList).isNested text.toList = true) :
    let outcome := ofText settings text
    let callLines := (Call.preorderAll roots).map Call.line
    let declarationLines := outcome.declarations.map Declaration.line
    let diagnosticLines := outcome.diagnostics.map Diagnostic.line
    callLines.Pairwise (· ≤ ·) ∧
    declarationLines.Pairwise (· ≤ ·) ∧
    diagnosticLines.Pairwise (· ≤ ·) ∧
    ∀ line ∈ callLines ++ declarationLines ++ diagnosticLines,
      1 ≤ line ∧ line ≤ Syntax.lineCount text.toList := by
  intro outcome callLines declarationLines diagnosticLines
  obtain ⟨-, hcalls⟩ := Syntax.Document.calls_eq_ok_iff.1 hroots
  have houtcome : outcome = ofCalls settings roots := ofText_of_ok hroots settings
  have hordered : callLines.Pairwise (· ≤ ·) := by
    have hlines := Syntax.Tree.lines_ordered hnested text.toList.toArray
    rwa [hcalls] at hlines
  have hdeclarations : declarationLines.Sublist callLines := by
    have hlines := (lines_ofCalls settings roots).1
    rwa [← houtcome] at hlines
  have hdiagnostics : diagnosticLines.Sublist callLines := by
    have hlines := (lines_ofCalls settings roots).2
    rwa [← houtcome] at hlines
  refine ⟨hordered, hordered.sublist hdeclarations, hordered.sublist hdiagnostics, ?_⟩
  intro line hline
  -- Every line that is reported is that of a call.
  have hcall : line ∈ callLines := by
    rcases List.mem_append.1 hline with hline | hline
    · rcases List.mem_append.1 hline with hline | hline
      · exact hline
      · exact hdeclarations.subset hline
    · exact hdiagnostics.subset hline
  obtain ⟨call, hmem, rfl⟩ := List.mem_map.1 hcall
  apply Syntax.Tree.line_of_mem_callsBelow hnested (Syntax.Document.namesMethods_tree _)
  rwa [hcalls]

/-- A call inside a block, and one in the argument of a call that has a receiver. -/
theorem ofText_in_source_order_nested :
    let text := "group :a do\n  mod 'a/b', svn: 'u'\nend\nfoo(\n  mod('c')\n).bar \"#\x7bx()\x7d\"\n"
    let outcome := ofText {} text
    (Syntax.Document.tree text.toList).isNested text.toList = true ∧
    outcome.declarations.map Declaration.line = [2, 5] ∧
    (outcome.declarations.map Declaration.line).Pairwise (· ≤ ·) ∧
    outcome.diagnostics.map Diagnostic.line = [1, 4, 6] ∧
    (outcome.diagnostics.map Diagnostic.line).Pairwise (· ≤ ·) := by
  intro text outcome
  -- One evaluation reads the document once for all four facts.
  obtain ⟨hnested, hvalid, hdeclarationLines, hdiagnosticLines⟩ :
      (Syntax.Document.tree text.toList).isNested text.toList = true ∧
      (Syntax.Document.tree text.toList).invalidLine? text.toList.toArray = none ∧
      outcome.declarations.map Declaration.line = [2, 5] ∧
      outcome.diagnostics.map Diagnostic.line = [1, 4, 6] := by
    decide +kernel
  have hroots := Syntax.Document.calls_eq_ok_iff.2 ⟨hvalid, rfl⟩
  obtain ⟨-, hdeclarations, hdiagnostics, -⟩ := ofText_in_source_order {} text _ hroots hnested
  exact ⟨hnested, hdeclarationLines, hdeclarations, hdiagnosticLines, hdiagnostics⟩

end Outcome

end PuppetInventory
