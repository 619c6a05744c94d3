import PuppetInventory.Proofs.ArgumentValues
import PuppetInventory.Proofs.Reading.Documents
import PuppetInventory.Proofs.Rejection

/-!
What the trees of commands stand for: each is the call that was written, and nothing else is in
them.
-/

namespace PuppetInventory.Syntax

/-! Trees without calls and faults -/

/-- Whether nodes of this kind are no calls, tell of no fault, and cannot be an `end` that closes
nothing. -/
def Kind.isPlain : Kind → Bool
  | .error => false
  | .missing => false
  | .endWord => false
  | .identifier => false
  | .call => false
  | _ => true

/-- A tree that holds nothing but the parts of an argument. -/
structure Tree.IsPlain (document : Array Char) (tree : Tree) : Prop where
  noFault : tree.hasFault = false
  noStray : ∀ parent, tree.firstStrayEnd? document parent = none
  noCalls : tree.calls document = []

namespace Tree

variable {document : Array Char} {tag : Tag} {trees : List Tree}

theorem anyFault_eq_false (h : ∀ tree ∈ trees, tree.hasFault = false) : anyFault trees = false := by
  induction trees with
  | nil => rfl
  | cons tree trees ih =>
    rw [anyFault, h tree List.mem_cons_self,
      ih fun other hother => h other (List.mem_cons_of_mem tree hother)]
    rfl

theorem firstStrayEndOf?_eq_none
    {parent : Option Kind} (h : ∀ tree ∈ trees, tree.firstStrayEnd? document parent = none) :
    firstStrayEndOf? document parent trees = none := by
  induction trees with
  | nil => rfl
  | cons tree trees ih =>
    rw [firstStrayEndOf?, h tree List.mem_cons_self,
      ih fun other hother => h other (List.mem_cons_of_mem tree hother)]
    rfl

theorem callsOfAll_eq_nil (h : ∀ tree ∈ trees, tree.calls document = []) :
    callsOfAll document trees = [] := by
  induction trees with
  | nil => rfl
  | cons tree trees ih =>
    rw [callsOfAll, h tree List.mem_cons_self,
      ih fun other hother => h other (List.mem_cons_of_mem tree hother)]
    rfl

theorem isPlain_node
    (hkind : tag.kind.isPlain = true) (h : ∀ tree ∈ trees, tree.IsPlain document) :
    (node tag trees).IsPlain document where
  noFault := by
    have hfault : tag.kind.isFault = false := by
      revert hkind
      cases tag.kind <;> decide
    rw [hasFault, hfault, anyFault_eq_false fun tree htree => (h tree htree).noFault]
    rfl
  noStray parent := by
    have hstray : isStrayEnd document parent tag = false := by
      unfold isStrayEnd
      split
      · next heq => simp [heq, Kind.isPlain] at hkind
      · next heq => simp [heq, Kind.isPlain] at hkind
      · rfl
    rw [firstStrayEnd?, hstray]
    exact firstStrayEndOf?_eq_none fun tree htree => (h tree htree).noStray _
  noCalls := by
    have hmethod : calledMethod? (node tag trees) = none := by
      have hcall : tag.kind ≠ .call := by
        intro heq
        simp [heq, Kind.isPlain] at hkind
      simp [calledMethod?, kind, Tree.tag, hcall]
    rw [calls, hmethod, callsOfAll_eq_nil fun tree htree => (h tree htree).noCalls, ite_self]

/-- What a tree is to its parent does not matter. -/
theorem IsPlain.withRole {tree : Tree} (h : tree.IsPlain document) (role : Role) :
    (tree.withRole role).IsPlain document := by
  obtain ⟨tag, trees⟩ := tree
  obtain ⟨hfault, hstray, hcalls⟩ := h
  refine ⟨hfault, fun parent => ?_, ?_⟩
  · rw [← hstray parent, Tree.withRole, firstStrayEnd?, firstStrayEnd?]
    rfl
  · rw [← hcalls, Tree.withRole, calls, calls]
    rfl

theorem isPlain_leaf {kind : Kind} (role : Role) (span : Span) (hkind : kind.isPlain = true) :
    ((leaf kind span).withRole role).IsPlain document :=
  isPlain_node hkind fun _ h => by cases h

/-! Trees of calls -/

/-- The tree of a call of a method. -/
def callTree (position stop : Position) (name : List Char) (arguments : Tree) : Tree :=
  .branch .call ⟨position, stop⟩
    [(leaf .identifier ⟨position, position.past name⟩).withRole .method,
      arguments.withRole .arguments]

section

variable {position stop : Position} {name : List Char} {arguments : Tree}

theorem hasFault_callTree (h : arguments.IsPlain document) :
    (callTree position stop name arguments).hasFault = false := by
  have hparts : anyFault (callTree position stop name arguments).children = false := by
    refine anyFault_eq_false fun part hpart => ?_
    rcases List.mem_cons.1 hpart with rfl | hpart
    · rfl
    · rw [List.mem_singleton.1 hpart]
      exact (h.withRole .arguments).noFault
  exact hparts

theorem firstStrayEnd?_callTree (h : arguments.IsPlain document) (parent : Option Kind) :
    (callTree position stop name arguments).firstStrayEnd? document parent = none := by
  -- The name stands inside the call, so it is no `end` that closes nothing.
  have hparts : firstStrayEndOf? document (some .call)
      (callTree position stop name arguments).children = none := by
    refine firstStrayEndOf?_eq_none fun part hpart => ?_
    rcases List.mem_cons.1 hpart with rfl | hpart
    · rw [leaf, Tree.withRole, firstStrayEnd?]
      simp [isStrayEnd, Kind.holdsStatements, firstStrayEndOf?]
    · rw [List.mem_singleton.1 hpart]
      exact (h.withRole .arguments).noStray _
  exact hparts

theorem calls_callTree (h : arguments.IsPlain document) (hname : Stands document position name) :
    (callTree position stop name arguments).calls document =
      [⟨String.ofList name, argumentValues document arguments, position.line, []⟩] := by
  have hinside : callsOfAll document (callTree position stop name arguments).children = [] := by
    refine callsOfAll_eq_nil fun part hpart => ?_
    rcases List.mem_cons.1 hpart with rfl | hpart
    · rfl
    · rw [List.mem_singleton.1 hpart]
      exact (h.withRole .arguments).noCalls
  have hcalls : (callTree position stop name arguments).calls document =
      [⟨String.ofList ((Span.mk position (position.past name)).chars document),
        argumentValues document (arguments.withRole .arguments), position.line,
        callsOfAll document (callTree position stop name arguments).children⟩] := by
    cases arguments
    rw [callTree, branch, calls]
    rfl
  have hvalues : argumentValues document (arguments.withRole .arguments) =
      argumentValues document arguments := by
    cases arguments
    rfl
  rw [hcalls, hname.span_chars, hvalues, hinside]

end

end Tree

variable {document : Array Char}

theorem isPlain_textTree (position : Position) (text : List Char) (role : Role) :
    ((textTree position text).withRole role).IsPlain document := by
  refine Tree.isPlain_node rfl fun tree htree => ?_
  rw [contentTrees] at htree
  split at htree
  · cases htree
  · rw [List.mem_singleton.1 htree]
    exact Tree.isPlain_leaf .child _ rfl

theorem isPlain_argument (position : Position) (argument : Argument) :
    (argument.tree position).IsPlain document := by
  have hpair {kind : Kind} {span : Span} (hkind : kind.isPlain = true) :
      (argument.pairTree position (.leaf kind span)).IsPlain document := by
    refine Tree.isPlain_node rfl fun tree htree => ?_
    rw [List.mem_cons, List.mem_singleton] at htree
    rcases htree with rfl | rfl
    · exact Tree.isPlain_leaf .key span hkind
    · exact isPlain_textTree _ _ .value
  cases argument with
  | text content => exact isPlain_textTree position content .child
  | arrowPair key content => exact hpair rfl
  | colonPair key content => exact hpair rfl

theorem isPlain_more (arguments : List Argument) (position : Position) :
    ∀ tree ∈ moreTrees position arguments, tree.IsPlain document := by
  induction arguments generalizing position with
  | nil =>
    intro tree htree
    cases htree
  | cons argument arguments ih =>
    intro tree htree
    rcases List.mem_cons.1 htree with rfl | htree
    · exact isPlain_argument _ argument
    · exact ih _ tree htree

theorem isPlain_argumentList
    (document : Array Char) (command : Command) (position : Position) :
    (command.argumentList position).IsPlain document := by
  refine Tree.isPlain_node rfl fun tree htree => ?_
  rcases List.mem_cons.1 htree with rfl | htree
  · exact isPlain_argument _ command.first
  · exact isPlain_more command.others _ tree htree

/-! Arguments -/

namespace Argument

/-- The value of an argument that is no pair. -/
def value? : Argument → Option Value
  | .text content => some (.text (String.ofList content))
  | _ => none

/-- The key and the value of an argument that is a pair. -/
def pair? : Argument → Option (String × Value)
  | .text _ => none
  | .arrowPair key content => some (String.ofList key.chars, .text (String.ofList content))
  | .colonPair key content => some (String.ofList key.chars, .text (String.ofList content))

end Argument

theorem symbolName_leaf
    {position : Position} {key : Name} (role : Role)
    (h : Stands document position (':' :: key.chars)) :
    Tree.symbolName document
        ((Tree.leaf .simpleSymbol ⟨position, position.past (':' :: key.chars)⟩).withRole role) =
      String.ofList key.chars := by
  have hchars : (':' :: key.chars).dropWhile (· = ':') = key.chars := by
    obtain ⟨c, chars, hkey, hc⟩ := exists_cons_of_isName key.isName
    have hcolon : c ≠ ':' := ne_of_isPlainWordChar hc (by decide)
    simp [hkey, hcolon]
  have hspan := h.span_chars
  simp only [Tree.symbolName, Tree.leaf, Tree.withRole, Tree.span, Tree.tag]
  rw [hspan, hchars]

theorem pair?_pairTree
    {argument : Argument} {position : Position} {kind : Kind} {span : Span} {name : String}
    (hkey : Tree.keyText? document ((Tree.leaf kind span).withRole .key) = some name)
    (h : Stands document (argument.start position) (quoted argument.content)) :
    Tree.pair? document (argument.pairTree position (.leaf kind span)) =
      some (name, .text (String.ofList argument.content)) := by
  have hchild : (argument.pairTree position (.leaf kind span)).child? .key =
      some ((Tree.leaf kind span).withRole .key) := rfl
  have hvalue : Tree.pairValue? document (argument.pairTree position (.leaf kind span)).children =
      some (.text (String.ofList argument.content)) := by
    rw [← value_textTree .value h]
    rfl
  rw [Argument.pairTree, Tree.branch] at hchild hvalue ⊢
  rw [Tree.pair?, hchild, Option.bind_some, hkey]
  rw [Tree.children] at hvalue
  rw [hvalue]

theorem pairs_argument
    (argument : Argument) {position : Position} (rest : List Tree)
    (h : Stands document position argument.write) :
    Tree.pairs document (argument.tree position :: rest) =
      argument.pair?.toList ++ Tree.pairs document rest := by
  have hpairs (key : Tree) : Tree.pairs document (argument.pairTree position key :: rest) =
      (Tree.pair? document (argument.pairTree position key)).toList ++
        Tree.pairs document rest := by
    rw [Argument.pairTree, Tree.branch, Tree.pairs]
    rfl
  cases argument with
  | text content =>
    rw [Argument.tree, textTree, Tree.branch, Tree.pairs]
    rfl
  | arrowPair key content =>
    have hkey : Tree.keyText? document
        ((Tree.leaf .simpleSymbol ⟨position, position.past (':' :: key.chars)⟩).withRole .key) =
          some (String.ofList key.chars) := congrArg some (symbolName_leaf .key h.left)
    have hcontent : Stands document ((Argument.arrowPair key content).start position)
        (quoted content) := (Stands.right h).right
    rw [Argument.tree, hpairs, pair?_pairTree hkey hcontent]
    rfl
  | colonPair key content =>
    have hchars : (Span.mk position (position.past key.chars)).chars document = key.chars :=
      Stands.span_chars h.left
    have hkey : Tree.keyText? document
        ((Tree.leaf .hashKeySymbol ⟨position, position.past key.chars⟩).withRole .key) =
          some (String.ofList key.chars) := congrArg (some ∘ String.ofList) hchars
    have hcontent : Stands document ((Argument.colonPair key content).start position)
        (quoted content) := (Stands.right h).right
    rw [Argument.tree, hpairs, pair?_pairTree hkey hcontent]
    rfl

theorem positionalValues_argument
    (argument : Argument) {position : Position} (rest : List Tree)
    (h : Stands document position argument.write) :
    positionalValues document (argument.tree position :: rest) =
      argument.value?.toList ++ positionalValues document rest := by
  cases argument with
  | text content =>
    have hwrite : (Argument.text content).write = quoted content := rfl
    have htext := value_textTree .child (hwrite ▸ h)
    exact congrArg (· :: positionalValues document rest) htext
  | arrowPair key content => rfl
  | colonPair key content => rfl

theorem pairs_more
    (arguments : List Argument) {position : Position}
    (h : Stands document position (moreWritten arguments)) :
    Tree.pairs document (moreTrees position arguments) = arguments.filterMap Argument.pair? ∧
      positionalValues document (moreTrees position arguments) =
        arguments.filterMap Argument.value? := by
  induction arguments generalizing position with
  | nil => exact ⟨rfl, rfl⟩
  | cons argument arguments ih =>
    rw [moreWritten_cons] at h
    have hargument : Stands document (position.past [',', ' '])
        (argument.write ++ moreWritten arguments) := Stands.right h
    have hrest := hargument.right
    rw [Argument.past_write] at hrest
    obtain ⟨hpairs, hvalues⟩ := ih hrest
    rw [moreTrees, pairs_argument argument _ hargument.left,
      positionalValues_argument argument _ hargument.left, hpairs, hvalues]
    constructor <;> cases argument <;> rfl

/-! Commands -/

namespace Command

def arguments (command : Command) : List Argument :=
  command.first :: command.others

/-- The values of the arguments of a command. Its pairs form one last hash. -/
def values (command : Command) : List Value :=
  let options := command.arguments.filterMap Argument.pair?
  command.arguments.filterMap Argument.value? ++ if options.isEmpty then [] else [.hash options]

/-- The call that a command on a line stands for. -/
def call (command : Command) (line : Nat) : Call where
  name := String.ofList command.name.chars
  arguments := command.values
  line := line
  children := []

variable {command : Command} {position : Position}

theorem argumentValues_argumentList
    (h : Stands document (command.start position)
      (command.first.write ++ moreWritten command.others)) :
    Tree.argumentValues document (command.argumentList position) = command.values := by
  have hrest := h.right
  rw [Argument.past_write] at hrest
  obtain ⟨hpairs, hvalues⟩ := pairs_more command.others hrest
  have hoptions : Tree.pairs document (command.argumentList position).children =
      command.arguments.filterMap Argument.pair? := by
    rw [argumentList, Tree.branch, Tree.children, pairs_argument command.first _ h.left, hpairs,
      arguments]
    cases command.first <;> rfl
  have hpositional : positionalValues document (command.argumentList position).children =
      command.arguments.filterMap Argument.value? := by
    rw [argumentList, Tree.branch, Tree.children, positionalValues_argument command.first _ h.left,
      hvalues, arguments]
    cases command.first <;> rfl
  rw [values, ← hoptions, ← hpositional]
  rfl

theorem tree_eq_callTree (command : Command) (position : Position) :
    command.tree position =
      Tree.callTree position (command.stop position) command.name.chars
        (command.argumentList position) :=
  rfl

theorem hasFault_tree : (command.tree position).hasFault = false :=
  Tree.hasFault_callTree (isPlain_argumentList #[] command position)

theorem firstStrayEnd?_tree (parent : Option Kind) :
    (command.tree position).firstStrayEnd? document parent = none :=
  Tree.firstStrayEnd?_callTree (isPlain_argumentList document command position) parent

theorem calls_tree (h : Stands document position command.write) :
    (command.tree position).calls document = [command.call position.line] := by
  have hbehind : Stands document (position.past command.name.chars)
      ([' '] ++ (command.first.write ++ moreWritten command.others)) := h.right
  rw [tree_eq_callTree, Tree.calls_callTree (isPlain_argumentList document command position) h.left,
    argumentValues_argumentList hbehind.right]
  rfl

end Command

/-! Documents -/

theorem callsOfAll_lineTrees
    (commands : List Command) {position : Position}
    (hlines : ∀ command ∈ commands, '\n' ∉ command.write)
    (h : Stands document position (linesWritten commands)) :
    Tree.callsOfAll document (lineTrees position commands) =
      commands.mapIdx fun i command => command.call (position.row + i + 2) := by
  induction commands generalizing position with
  | nil => rfl
  | cons command commands ih =>
    rw [linesWritten_cons] at h
    have hcommand : Stands document (position.past ['\n'])
        (command.write ++ linesWritten commands) := Stands.right h
    have hrest := hcommand.right
    have hrow : (command.stop (position.past ['\n'])).row = position.row + 1 := by
      rw [← Command.past_write, Position.past_row (hlines command List.mem_cons_self)]
      rfl
    rw [Command.past_write] at hrest
    rw [lineTrees, Tree.callsOfAll, Command.calls_tree hcommand.left,
      ih (fun other hother => hlines other (List.mem_cons_of_mem command hother)) hrest, hrow,
      List.mapIdx_cons, List.singleton_append]
    have hline : (position.past ['\n']).line = position.row + 0 + 2 := rfl
    rw [hline]
    congr 2
    funext i other
    congr 1
    omega

theorem exists_of_mem_lineTrees
    {commands : List Command} {position : Position} {tree : Tree}
    (h : tree ∈ lineTrees position commands) :
    ∃ command : Command, ∃ start, tree = command.tree start := by
  induction commands generalizing position with
  | nil => cases h
  | cons command commands ih =>
    rcases List.mem_cons.1 h with rfl | h
    · exact ⟨command, _, rfl⟩
    · exact ih h

namespace Document

theorem exists_of_mem_commandTrees
    {commands : List Command} {tree : Tree} (h : tree ∈ commandTrees commands) :
    ∃ command : Command, ∃ start, tree = command.tree start := by
  cases commands with
  | nil => cases h
  | cons command commands =>
    rcases List.mem_cons.1 h with rfl | h
    · exact ⟨command, _, rfl⟩
    · exact exists_of_mem_lineTrees h

theorem callsOfAll_commandTrees
    (commands : List Command) (hlines : ∀ command ∈ commands, '\n' ∉ command.write) :
    Tree.callsOfAll (written commands).toArray (commandTrees commands) =
      commands.mapIdx fun i command => command.call (i + 1) := by
  cases commands with
  | nil => rfl
  | cons command commands =>
    have h : Stands (written (command :: commands)).toArray .start
        (command.write ++ linesWritten commands) := ⟨[], [], by simp [written], rfl⟩
    have hrest := h.right
    have hrow : (command.stop .start).row = 0 := by
      rw [← Command.past_write, Position.past_row (hlines command List.mem_cons_self)]
      rfl
    rw [Command.past_write] at hrest
    have hothers : ∀ other ∈ commands, '\n' ∉ other.write := fun other hother =>
      hlines other (List.mem_cons_of_mem _ hother)
    rw [commandTrees, Tree.callsOfAll, Command.calls_tree h.left,
      callsOfAll_lineTrees commands hothers hrest, hrow, List.mapIdx_cons, List.singleton_append]
    congr 2
    funext i other
    congr 1
    omega

/-- A document whose tree holds no faults is the list of the calls in it. -/
theorem callsBy_of_tree
    {parser : Parser} {text : List Char} {span : Span} {trees : List Tree}
    (htree : parser text = .branch .program span trees)
    (hfault : ∀ tree ∈ trees, tree.hasFault = false)
    (hstray : ∀ tree ∈ trees, ∀ parent, tree.firstStrayEnd? text.toArray parent = none) :
    callsBy parser (String.ofList text) = .ok (Tree.callsOfAll text.toArray trees) := by
  have hinvalid : (parser text).invalidLine? text.toArray = none := by
    rw [htree, Tree.branch, Tree.invalidLine?, Tree.hasFault, Tree.anyFault_eq_false hfault,
      Tree.firstStrayEnd?]
    exact Tree.firstStrayEndOf?_eq_none fun tree htree => hstray tree htree _
  have hcalls : (parser text).callsBelow text.toArray = Tree.callsOfAll text.toArray trees := by
    rw [htree]
    rfl
  rw [callsBy_eq_ok_iff, String.toList_ofList]
  exact ⟨hinvalid, hcalls⟩

end Document

end PuppetInventory.Syntax
