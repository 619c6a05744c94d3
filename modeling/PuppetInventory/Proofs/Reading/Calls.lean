import PuppetInventory.Proofs.Reading.Denotations

/-!
Documents of one call with its arguments between parentheses. The trees of these documents, and of
documents of commands, are all that is relied on of a parser; from them come the calls that were
written.
-/

namespace PuppetInventory.Syntax

/-- The arguments of a call between parentheses. -/
def Item.argumentList (items : List Item) : Item :=
  enclosed .argumentList .openParen '(' ')' items

/-! Reading -/

namespace Grammar

variable {size depth : Nat} {items : List Item} {rest : List Char} {position : Position}
  {input : Input} {last : Span}

theorem argumentList_runs
    (hitems : ∀ item ∈ items, item.IsValue size depth) (hsize : items.length < size + 2)
    (spaced : Bool) (trees : List Tree) :
    Runs (Grammar.argumentList ((Item.argumentList items).token position spaced rest))
      (grammar (size + 2) (depth + 1)) (.reading input last trees) ()
      (.reading ⟨rest, (Item.argumentList items).stop position⟩
        ((Item.argumentList items).last position)
        (((Item.argumentList items).tree position).withRole .arguments :: trees)) := by
  have hclosing : punctuation? ')' = some .closeParen := rfl
  have hlist := enclosed_runs .argumentList .openParen '(' hclosing rfl (by decide)
    (fun item hitem => (hitems item hitem).isReadBy_argument) (by rw [grammar_size]; exact hsize)
    rest position spaced input last trees
  exact Runs.bind hlist (Runs.asRole .arguments _)

/-- A parenthesis right behind a name opens the arguments of a call. -/
theorem called_argumentList
    {context : Context} (hline : context.lineEnds = true) (origin : Origin) (tree : Tree)
    (hitems : ∀ item ∈ items, item.IsValue size depth) (hsize : items.length < size + 2)
    (hends : EndsLine ⟨rest, (Item.argumentList items).stop position⟩) :
    Runs (called context origin .variable) (grammar (size + 2) (depth + 1))
      (.reading ⟨(Item.argumentList items).chars ++ rest, position⟩ last [tree]) .value
      (.reading ⟨rest, (Item.argumentList items).stop position⟩
        ((Item.argumentList items).last position)
        [.branch .call ⟨origin.start, (Item.argumentList items).stop position⟩
          [tree.withRole .method,
            ((Item.argumentList items).tree position).withRole .arguments]]) := by
  let list := Item.argumentList items
  have hpeek : Runs (peek context.behindName) (grammar (size + 2) (depth + 1))
      (.reading ⟨list.chars ++ rest, position⟩ last [tree]) (list.token position false rest)
      (.reading ⟨list.chars ++ rest, position⟩ last [tree]) :=
    Runs.peek_punctuation (Stance.passes_nil _) rfl
  obtain ⟨next, hnext, hlexeme⟩ := hends.look context.behindCall hline
    (grammar (size + 2) (depth + 1)) (list.last position)
    [(list.tree position).withRole .arguments, tree.withRole .method]
  have hblock : next.isMark .openBrace = false ∧ next.isKeyword .do = false := by
    rcases hlexeme with h | h <;> simp [Token.isMark, Token.isKeyword, h]
  have hfinish : Runs (finishCall context origin) (grammar (size + 2) (depth + 1))
      (.reading ⟨rest, list.stop position⟩ (list.last position)
        [(list.tree position).withRole .arguments, tree.withRole .method]) .value
      (.reading ⟨rest, list.stop position⟩ (list.last position)
        [.branch .call ⟨origin.start, list.stop position⟩
          [tree.withRole .method, (list.tree position).withRole .arguments]]) := by
    have hblock? : Runs (block? context) (grammar (size + 2) (depth + 1))
        (.reading ⟨rest, list.stop position⟩ (list.last position)
          [(list.tree position).withRole .arguments, tree.withRole .method]) ()
        (.reading ⟨rest, list.stop position⟩ (list.last position)
          [(list.tree position).withRole .arguments, tree.withRole .method]) := by
      refine Runs.bind hnext ?_
      rw [hblock.1, hblock.2]
      exact Runs.pure ()
    exact Runs.bind hblock? (Runs.bind (Runs.wrap origin .call) (Runs.pure Form.value))
  have hstray : (context.command && decide ((list.token position false rest).lexeme = .stray)) =
      false := by
    have hlexeme : (list.token position false rest).lexeme ≠ .stray := by rintro ⟨⟩
    rw [decide_eq_false hlexeme, Bool.and_false]
  have hopen : ((list.token position false rest).isMark .openParen &&
      !(list.token position false rest).spaced) = true := by
    have hlexeme : (list.token position false rest).lexeme = .mark .openParen := rfl
    rw [Token.isMark, decide_eq_true hlexeme]
    rfl
  refine Runs.bind hpeek ?_
  rw [hstray, hopen]
  exact Runs.bind (Runs.asRole .method tree)
    (Runs.bind (argumentList_runs hitems hsize false _) hfinish)

/-- A name that parentheses follow is a call. -/
theorem expression_call
    (closers : List Keyword) (name : Name) (hitems : ∀ item ∈ items, item.IsValue size depth)
    (hsize : items.length < size + 2) (spaced : Bool)
    (hends : EndsLine ⟨rest, (Item.argumentList items).stop (position.past name.chars)⟩) :
    Runs
      (expression (Context.statement closers)
        (.over .word position spaced name.chars ((Item.argumentList items).chars ++ rest)))
      (grammar (size + 2) (depth + 3)) (.reading input last []) .value
      (.reading ⟨rest, (Item.argumentList items).stop (position.past name.chars)⟩
        ((Item.argumentList items).last (position.past name.chars))
        [Tree.callTree position ((Item.argumentList items).stop (position.past name.chars))
          name.chars ((Item.argumentList items).tree (position.past name.chars))]) := by
  have hname : Runs
      (leaf .identifier
        (.over .word position spaced name.chars ((Item.argumentList items).chars ++ rest)))
      (grammar (size + 2) (depth + 1)) (.reading input last []) ()
      (.reading ⟨(Item.argumentList items).chars ++ rest, position.past name.chars⟩
        ⟨position, position.past name.chars⟩
        [.leaf .identifier ⟨position, position.past name.chars⟩]) :=
    Runs.leaf .identifier (by rintro heredoc ⟨⟩)
  exact expression_of_simpleOperand [_] rfl (hends.endsAll _ rfl) (.inl rfl)
    (Runs.bind hname (called_argumentList rfl _ _ hitems hsize hends))

end Grammar

/-! Documents -/

namespace Document

/-- The characters of a call with its arguments between parentheses. -/
def callChars (name : Name) (items : List Item) : List Char :=
  name.chars ++ (Item.argumentList items).chars

/-- The tree of such a call. -/
def callTree (name : Name) (items : List Item) : Tree :=
  Tree.callTree .start (Position.start.past (callChars name items)) name.chars
    ((Item.argumentList items).tree (Position.start.past name.chars))

theorem tree_callChars
    {name : Name} (hname : Keyword.ofWord? name.chars = none) {items : List Item}
    (hitems : ∀ item ∈ items, item.IsLiteral) :
    tree (callChars name items) =
      .branch .program ⟨.start, Position.start.past (callChars name items)⟩
        [callTree name items] := by
  let size := (callChars name items).length
  let depth := 8 * size + 12
  let list := Item.argumentList items
  let stop := list.stop (Position.start.past name.chars)
  have hlength : size = name.chars.length + ((Item.allChars items).length + 2) :=
    List.length_append.trans (congrArg (name.chars.length + ·) (Item.length_enclosed _ _ _ _ _))
  obtain ⟨hcount, hlengths⟩ := Item.length_allChars items
  have hvalues : ∀ item ∈ items, item.IsValue size depth := by
    intro item hitem
    have hlength := hlengths item hitem
    exact (hitems item hitem).isValue (by omega) (by omega)
  have hpeek : Runs (Grammar.peek (.statement closers)) (grammar (size + 2) (depth + 4))
      (.reading ⟨callChars name items, .start⟩ ⟨.start, .start⟩ [])
      (.over .word .start false name.chars list.chars)
      (.reading ⟨callChars name items, .start⟩ ⟨.start, .start⟩ []) :=
    Runs.peek_word (Stance.passes_nil _) rfl name.isName hname rfl
  have hread : Runs
      (Grammar.expression (Context.statement closers)
        (.over .word .start false name.chars (list.chars ++ [])))
      (grammar (size + 2) (depth + 3))
      (.reading ⟨callChars name items, .start⟩ ⟨.start, .start⟩ []) .value
      (.reading ⟨[], stop⟩ (list.last (Position.start.past name.chars))
        [Tree.callTree .start stop name.chars (list.tree (Position.start.past name.chars))]) :=
    Grammar.expression_call closers name hvalues (by omega) false (EndsLine.finish stop)
  rw [List.append_nil] at hread
  obtain ⟨last', hstep⟩ := Grammar.statementStep_runs closers rfl (by decide) (EndsLine.finish stop)
    hpeek hread
  have htrees : statementTrees (grammar (size + 2) (nesting (callChars name items))) (size + 2)
      (.ofInput ⟨callChars name items, .start⟩) = [callTree name items] := by
    have hstop : Position.start.past (callChars name items) = stop := Position.past_append _ _ _
    have hnesting : nesting (callChars name items) = depth + 4 := rfl
    rw [hnesting, callTree, hstop]
    exact (statementTrees_of_last hpeek hstep).trans (ending_finish _ _ _)
  have hend := Input.skip_append (callChars name items) [] .start
  rw [List.append_nil] at hend
  rw [tree, callChars, textStart_name name.isName, ← callChars, htrees, hend]

end Document

/-- What is relied on of a parser: which trees it gives to lines of commands, and to a call whose
arguments are built from literals. -/
structure Parser.IsFaithful (parser : Parser) : Prop where
  commands (commands : List Command) :
    parser (Document.written commands) =
      .branch .program ⟨.start, Position.start.past (Document.written commands)⟩
        (Document.commandTrees commands)
  call {name : Name} (hname : Keyword.ofWord? name.chars = none) {items : List Item}
    (hitems : ∀ item ∈ items, item.IsLiteral) :
    parser (Document.callChars name items) =
      .branch .program ⟨.start, Position.start.past (Document.callChars name items)⟩
        [Document.callTree name items]

namespace Document

theorem tree_isFaithful : Parser.IsFaithful tree :=
  ⟨tree_written, tree_callChars⟩

/-! What faithful parsers read -/

variable {parser : Parser}

/-- A document with a command on each line is the list of the calls that were written. -/
theorem callsBy_written
    (hparser : parser.IsFaithful) (commands : List Command)
    (hlines : ∀ command ∈ commands, '\n' ∉ command.write) :
    callsBy parser (String.ofList (written commands)) =
      .ok (commands.mapIdx fun i command => command.call (i + 1)) := by
  rw [← callsOfAll_commandTrees commands hlines]
  refine callsBy_of_tree (hparser.commands commands) (fun tree htree => ?_)
    fun tree htree parent => ?_
  · obtain ⟨command, start, rfl⟩ := exists_of_mem_commandTrees htree
    exact Command.hasFault_tree
  · obtain ⟨command, start, rfl⟩ := exists_of_mem_commandTrees htree
    exact Command.firstStrayEnd?_tree parent

section

variable {document : Array Char} {position : Position} {entries : List (Item × Value)}

/-- Items that stand for values are positional arguments. -/
theorem argumentValues_argumentItems
    (hentries : ∀ entry ∈ entries, entry.1.Means entry.2)
    (h : Stands document position (Item.argumentList (entries.map Prod.fst)).chars) :
    Tree.argumentValues document ((Item.argumentList (entries.map Prod.fst)).tree position) =
      entries.map Prod.snd := by
  let trees := Item.trees (position.past ['(']) (entries.map Prod.fst)
  have htrees : ∀ tree ∈ trees,
      tree.tag.named = true ∧ tree.kind ≠ .comment ∧ tree.kind ≠ .pair := fun tree htree =>
    Item.isItem_of_mem_trees hentries htree
  have hpositional : positionalValues document trees = entries.map Prod.snd := by
    rw [← Item.values_trees hentries (Item.stands_inside h), positionalValues,
      List.filter_eq_self.2 fun tree htree => (htrees tree htree).1,
      List.filter_eq_self.2 fun tree htree => by simp [(htrees tree htree).2]]
  have hpairs : Tree.pairs document trees = [] :=
    Tree.pairs_positional fun tree htree => (htrees tree htree).2.2
  have hchildren : ((Item.argumentList (entries.map Prod.fst)).tree position).children = trees :=
    rfl
  rw [Tree.argumentValues_eq, hchildren, hpositional, hpairs, if_pos rfl, List.append_nil]

end

/-- A document of one call between whose parentheses items stand for values is that call. -/
theorem callsBy_callChars
    (hparser : parser.IsFaithful) {name : Name} (hname : Keyword.ofWord? name.chars = none)
    {entries : List (Item × Value)} (hentries : ∀ entry ∈ entries, entry.1.Denotes entry.2) :
    callsBy parser (String.ofList (callChars name (entries.map Prod.fst))) =
      .ok [⟨String.ofList name.chars, entries.map Prod.snd, 1, []⟩] := by
  let document := (callChars name (entries.map Prod.fst)).toArray
  have hmeans : ∀ entry ∈ entries, entry.1.Means entry.2 := fun entry hentry =>
    (hentries entry hentry).toMeans
  have hplain : ((Item.argumentList (entries.map Prod.fst)).tree
      (Position.start.past name.chars)).IsPlain document :=
    Item.isPlain_enclosedEntries hmeans rfl
  have hitems : ∀ item ∈ entries.map Prod.fst, item.IsLiteral := by
    intro item hitem
    obtain ⟨entry, hentry, rfl⟩ := List.mem_map.1 hitem
    exact (hentries entry hentry).isLiteral
  have hstands : Stands document .start (callChars name (entries.map Prod.fst)) :=
    ⟨[], [], by simp [document], rfl⟩
  have hcalls : Tree.callsOfAll document [callTree name (entries.map Prod.fst)] =
      [⟨String.ofList name.chars, entries.map Prod.snd, 1, []⟩] := by
    have hvalues := argumentValues_argumentItems hmeans hstands.right
    rw [Tree.callsOfAll, callTree, Tree.calls_callTree hplain hstands.left, hvalues]
    rfl
  rw [callsBy_of_tree (hparser.call hname hitems) (fun tree htree => ?_)
    fun tree htree parent => ?_, hcalls]
  · rw [List.mem_singleton.1 htree]
    exact Tree.hasFault_callTree hplain
  · rw [List.mem_singleton.1 htree]
    exact Tree.firstStrayEnd?_callTree hplain parent

/-- A call with its arguments between parentheses, as they are written. -/
def callOf (name : Name) (arguments : List (List Char)) : List Char :=
  name.chars ++ '(' :: ([',', ' '].intercalate arguments ++ [')'])

/-- A document of one call whose arguments are written as items is that call, with the values that
the items stand for. -/
theorem callsBy_callOf
    (hparser : parser.IsFaithful) {α : Type} {name : Name}
    (hname : Keyword.ofWord? name.chars = none) {item : α → Item} {written : α → List Char}
    {value : α → Value} (hwritten : ∀ source, (item source).chars = written source)
    (hvalue : ∀ source, (item source).Denotes (value source)) (sources : List α) :
    callsBy parser (String.ofList (callOf name (sources.map written))) =
      .ok [⟨String.ofList name.chars, sources.map value, 1, []⟩] := by
  let entries : List (Item × Value) := sources.map fun source => (item source, value source)
  have hentries : ∀ entry ∈ entries, entry.1.Denotes entry.2 := by
    intro entry hentry
    obtain ⟨source, -, rfl⟩ := List.mem_map.1 hentry
    exact hvalue source
  have hchars : (sources.map item).map Item.chars = sources.map written := by
    rw [List.map_map]
    exact List.map_congr_left fun source _ => hwritten source
  have hdocument : callChars name (sources.map item) = callOf name (sources.map written) := by
    rw [callChars, Item.argumentList, Item.chars_enclosed, Item.allChars_eq_intercalate, hchars]
    rfl
  have hcalls := callsBy_callChars hparser hname hentries
  rw [List.map_map, List.map_map] at hcalls
  rw [← hdocument]
  exact hcalls

end Document

end PuppetInventory.Syntax
