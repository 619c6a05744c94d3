import PuppetInventory.Proofs.Names.Frame
import PuppetInventory.Syntax.Grammar.Blocks

/-!
Literals, arguments, parameters, bodies and blocks leave no nameless methods. None of these rules
says what a method is.
-/

namespace PuppetInventory.Syntax

namespace Grammar

variable {token : Token} {stance : Stance} {form : LiteralForm} {heredoc : Heredoc}

/-! Literals -/

theorem keeps_escape : Keeps escape := by
  refine .cursor fun here _ => ?_
  split
  · exact .part
  · exact .fail

theorem keeps_interpolationOpening {length : Nat} : Keeps (interpolationOpening length) :=
  .cursor fun _ _ => .pure _

theorem keeps_bracedInterpolation : Keeps bracedInterpolation :=
  .bind keeps_interpolationOpening fun _ =>
    .node (.bind .take fun _ => .read fun _ hrules => .lift hrules.enclosed)

theorem keeps_bareInterpolation : Keeps bareInterpolation := by
  refine .bind keeps_interpolationOpening fun opening => .node (.bind .take fun _ => ?_)
  split
  · exact .leaf
  · exact .fail

theorem keeps_closeLiteral {start : Position} : Keeps (closeLiteral form start) :=
  .withCursor fun _ h => ⟨h.waiting, h.trees⟩

theorem keeps_literalStep {start : Position} {depth : Nat} :
    Keeps (literalStep form start depth) := by
  refine .cursor fun here _ => ?_
  dsimp only
  refine .ite (.returning .part) ?_
  split
  · exact .failWith
  · refine .ite (.returning (.withCursor fun _ h => ⟨h.waiting, h.trees⟩)) ?_
    refine .ite (.returning keeps_closeLiteral) ?_
    refine .ite (.returning keeps_escape) ?_
    split
    · exact .returning keeps_bracedInterpolation
    · exact .returning keeps_bareInterpolation

theorem keeps_literal : Keeps (literal form token) :=
  .node (.bind .take fun _ => .returning (.blaming (.iterate fun _ => keeps_literalStep)))

/-! What stands between tokens -/

theorem keeps_heredocStep : Keeps (heredocStep heredoc) := by
  refine .cursor fun here _ => .read fun rules _ => ?_
  split
  · exact .returning .part
  · exact .returning (.withCursor fun _ h => ⟨h.waiting, h.trees⟩)
  · exact .returning keeps_escape
  · exact .returning (.blaming keeps_bracedInterpolation)
  · exact .returning keeps_bareInterpolation
  · exact .returning .part
  · exact .fail

theorem keeps_heredocBody : Keeps heredocBody := by
  refine .cursor fun around haround => ?_
  split
  · exact .pure _
  · have hempty (cursor : Cursor) (_ : cursor.NamesMethods) :
        ({ cursor with inBody := true, waiting := [], trees := [] } : Cursor).NamesMethods :=
      ⟨fun _ htree => absurd htree List.not_mem_nil, fun _ htree => absurd htree List.not_mem_nil⟩
    refine .bind (.withCursor hempty) fun _ => .bind (.repeating keeps_heredocStep) fun _ => ?_
    refine .withCursor fun cursor h => ⟨List.forall_mem_cons.2 ⟨?_, haround.waiting⟩, haround.trees⟩
    exact .branch fun tree htree => h.trees tree (List.mem_reverse.1 htree)

theorem keeps_extra : Keeps (extra stance) := by
  refine .cursor fun here _ => ?_
  split
  · exact .bind (.withCursor fun _ h => ⟨h.waiting, h.trees⟩) fun _ => .returning keeps_heredocBody
  · split
    · exact .returning (.withCursor fun _ h => ⟨List.forall_mem_cons.2 ⟨.leaf, h.waiting⟩, h.trees⟩)
    · exact .pure _

theorem keeps_peek : Keeps (peek stance) :=
  .bind (.repeating keeps_extra) fun _ => .cursor fun _ _ => .pure _

/-! Comments and heredoc bodies become no part of what is being read before the next token is. -/

section

variable {trees : List Tree}

theorem heredocBody_keeps_trees :
    Leads (fun cursor => cursor.trees = trees) heredocBody fun cursor => cursor.trees = trees := by
  refine .cursor fun around haround => ?_
  split
  · exact .pure _
  · exact .bind (.anywhere _ _) fun _ => .bind (.anywhere _ _) fun _ =>
      .withCursor fun _ _ => haround

theorem extra_keeps_trees :
    Leads (fun cursor => cursor.trees = trees) (extra stance) fun cursor =>
      cursor.trees = trees := by
  refine .cursor fun here _ => ?_
  split
  · exact .bind (.withCursor fun _ h => h) fun _ => .returning heredocBody_keeps_trees
  · split
    · exact .returning (.withCursor fun _ h => h)
    · exact .pure _

theorem peek_keeps_trees :
    Leads (fun cursor => cursor.trees = trees) (peek stance) fun cursor => cursor.trees = trees :=
  .bind (.repeating extra_keeps_trees) fun _ => .cursor fun _ _ => .pure _

end

theorem peek_keeps_name : Leads Cursor.EndsInName (peek stance) Cursor.EndsInName := by
  intro rules cursor token next hrules hbefore hruns
  have htrees : next.trees = cursor.trees := peek_keeps_trees hrules rfl hruns
  refine ⟨keeps_peek hrules hbefore.toNamesMethods hruns, ?_⟩
  rw [htrees]
  exact hbefore.last

end Grammar

/-! The next token -/

namespace Leads

variable {α : Type} {before behind : Cursor → Prop} {continuation : Token → Parse α}
  {stance : Stance}

theorem peek_of (hpeek : Leads before (Grammar.peek stance) before)
    (hrest : ∀ token : Token, token.CoversName → Leads before (continuation token) behind) :
    Leads before (Grammar.peek stance >>= continuation) behind := by
  intro rules cursor answer last hrules hbefore hruns
  obtain ⟨token, next, htoken, hsecond⟩ := hruns.exists_of_bind
  have hcovers : token.CoversName := by
    obtain ⟨_, _, -, hlook⟩ := htoken.exists_of_bind
    cases hlook
    exact stance.coversName_token _
  exact hrest token hcovers hrules (hpeek hrules hbefore htoken) hsecond

theorem peek
    (hrest : ∀ token : Token, token.CoversName →
      Leads Cursor.NamesMethods (continuation token) behind) :
    Leads Cursor.NamesMethods (Grammar.peek stance >>= continuation) behind :=
  peek_of Grammar.keeps_peek hrest

theorem peek_behind_name
    (hrest : ∀ token : Token, token.CoversName →
      Leads Cursor.EndsInName (continuation token) behind) :
    Leads Cursor.EndsInName (Grammar.peek stance >>= continuation) behind :=
  peek_of Grammar.peek_keeps_name hrest

end Leads

namespace Grammar

variable {context : Context} {token : Token} {stance : Stance} {form : LiteralForm} {kind : Kind}
  {mark closing : Mark} {keyword : Keyword} {closers : List Keyword} {origin : Origin}

/-! Tokens that have to come -/

theorem keeps_expect : Keeps (expect stance mark) :=
  .peek fun _ _ => .ite .take .fail

theorem keeps_expectKeyword : Keeps (expectKeyword stance keyword) :=
  .peek fun _ _ => .ite .take .fail

theorem keeps_expectEnd : Keeps expectEnd :=
  .peek fun _ _ => .ite (.withCursor fun _ h => h.pass.push .endLeaf) .fail

theorem keeps_terminator? : Keeps (terminator? stance) :=
  .peek fun _ _ => .ite (.returning .take) (.pure _)

/-! Numbers and text literals -/

theorem keeps_number : Keeps (number closers token) :=
  .leaf

theorem keeps_more (several : Bool) : Keeps (textLiteral.more stance several) := by
  refine .peek fun next _ => ?_
  split
  · exact .ite (.returning keeps_literal) (.pure _)
  · exact .fail
  · exact .fail
  · exact .pure _

theorem keeps_textLiteral : Keeps (textLiteral context form token) := by
  refine .start fun origin horigin => .bind keeps_literal fun _ => .bind (.iterate keeps_more) ?_
  intro several
  have hrest : Keeps (do
      finish origin
      return several) := .returning (.finish horigin)
  exact .ite (.bind .wrap fun _ => hrest) hrest

/-! Arguments -/

theorem keeps_value (htoken : token.CoversName) : Keeps (value context token) :=
  .read fun _ hrules => .returning (.lift (hrules.expression _ _ htoken))

theorem keeps_isKey {rule : Parse Unit} : Keeps (isKey stance rule) :=
  .foresees _

theorem keeps_startsPair : Keeps (startsPair context token) := by
  unfold startsPair
  split
  · exact .pure _
  · exact keeps_isKey
  · exact .ite keeps_isKey (.pure _)
  · exact .pure _

theorem keeps_pairValue : Keeps (pairValue context) :=
  .peek fun _ hnext => .ite (.bind (keeps_value hnext) fun _ => .asRole (by decide))
    (.withCursor fun _ h => ⟨h.waiting, h.trees⟩)

theorem keeps_colonPair : Keeps (colonPair context token) := by
  refine .node ?_
  have hrest : Keeps (do
      asRole .key
      expect {} .colon
      pairValue context) :=
    .bind (.asRole (by decide)) fun _ => .bind keeps_expect fun _ => keeps_pairValue
  split
  · exact .bind keeps_literal fun _ => hrest
  · exact .bind .leaf fun _ => hrest

theorem keeps_markedOperand : Keeps (markedOperand context kind token) :=
  .node (.bind .take fun _ => .peek fun _ hnext => .ite (keeps_value hnext) (.pure _))

theorem keeps_matchedPattern : Keeps (matchedPattern context origin token) :=
  .read fun _ hrules => .bind (.lift (hrules.patterns _ _)) fun _ => .wrap

theorem keeps_arrowArgument : Keeps (arrowArgument context origin) := by
  refine .peek fun next hnext => .read fun _ hrules => .bind (.lift (hrules.prefersPattern _ _)) ?_
  intro isPattern
  exact .ite keeps_matchedPattern
    (.bind (keeps_value hnext) fun _ => .bind (.asRole (by decide)) fun _ => .wrap)

theorem keeps_plainArgument (htoken : token.CoversName) : Keeps (plainArgument context token) := by
  refine .start fun origin horigin => .read fun _ hrules => ?_
  refine .bind (.lift (hrules.expression _ _ htoken)) fun form => ?_
  have hrest : Keeps (finish origin) := .finish horigin
  refine .ite (.peek fun next _ => .ite ?_ hrest) hrest
  exact .bind (.asRole (by decide)) fun _ => .bind .take fun _ => .bind keeps_arrowArgument fun _ =>
    hrest

theorem keeps_argument (htoken : token.CoversName) : Keeps (argument context token) := by
  unfold argument
  split
  · exact keeps_markedOperand
  · exact keeps_markedOperand
  · exact keeps_markedOperand
  · exact .bind (.foresees _) fun _ => .ite .leaf (keeps_plainArgument htoken)
  · exact .bind keeps_startsPair fun _ => .ite keeps_colonPair (keeps_plainArgument htoken)

theorem keeps_items {item : Token → Parse Unit}
    (hitem : ∀ token : Token, token.CoversName → Keeps (item token)) :
    Keeps (items stance closing item) := by
  refine .repeating (.peek fun next hnext => .ite (.returning .take) ?_)
  refine .bind (hitem next hnext) fun _ => .peek fun comma _ => ?_
  exact .ite (.returning .take) (.ite (.returning .take) .fail)

theorem keeps_bracketed : Keeps (bracketed closing token) :=
  .bind .take fun _ => keeps_items fun _ htoken => keeps_argument htoken

theorem keeps_argumentList : Keeps (argumentList token) :=
  .bind (.node keeps_bracketed) fun _ => .asRole (by decide)

theorem keeps_commandArguments (htoken : token.CoversName) :
    Keeps (commandArguments context token) := by
  refine .bind (.node (.bind (keeps_argument htoken) fun _ => .repeating ?_)) fun _ =>
    .asRole (by decide)
  refine .peek fun comma _ => .ite ?_ (.pure _)
  exact .bind .take fun _ => .peek fun _ hnext => .returning (keeps_argument hnext)

/-! Arrays and hashes -/

theorem keeps_array : Keeps (array token) :=
  .node keeps_bracketed

theorem keeps_arrowPair (htoken : token.CoversName) : Keeps (arrowPair token) :=
  .node (.bind (keeps_value htoken) fun _ => .bind (.asRole (by decide)) fun _ =>
    .bind keeps_expect fun _ => .peek fun _ hnext => .bind (keeps_value hnext) fun _ =>
      .asRole (by decide))

theorem keeps_hashItem (htoken : token.CoversName) : Keeps (hashItem token) := by
  unfold hashItem
  split
  · exact keeps_markedOperand
  · exact .bind keeps_startsPair fun _ => .ite keeps_colonPair (keeps_arrowPair htoken)

theorem keeps_hash : Keeps (hash token) :=
  .node (.bind .take fun _ => keeps_items fun _ htoken => keeps_hashItem htoken)

/-! Parameters -/

theorem keeps_namedParameter : Keeps (namedParameter context token) := by
  refine .bind .leaf fun _ => .peek fun next _ => .ite ?_ (.ite ?_ (.pure _))
  · exact .bind .take fun _ => .peek fun _ hvalue => .ite (keeps_value hvalue) (.pure _)
  · exact .bind .take fun _ => .peek fun _ hvalue => keeps_value hvalue

theorem keeps_markedParameter : Keeps (markedParameter context token) :=
  .bind .take fun _ => .peek fun _ _ => .ite .leaf (.pure _)

theorem keeps_otherParameters :
    Keeps (repeating do
      let next ← peek (behindParameter context)
      if next.isMark .comma then
        take next
        (← read).parameter context (← peek .plainName)
        return true
      else return false) := by
  refine .repeating (.peek fun next _ => .ite (.bind .take fun _ => ?_) (.pure _))
  exact .read fun _ hrules => .peek fun _ _ => .returning (.lift (hrules.parameter _ _))

theorem keeps_enclosedParameters : Keeps (enclosedParameters token) := by
  refine .node (.bind .take fun _ => .peek fun first _ => .ite .take ?_)
  exact .read fun _ hrules => .bind (.lift (hrules.parameter _ _)) fun _ =>
    .bind keeps_otherParameters fun _ => keeps_expect

theorem keeps_parameter : Keeps (parameter context token) := by
  refine .node ?_
  split
  · exact keeps_namedParameter
  · exact keeps_enclosedParameters
  · exact keeps_markedParameter
  · exact keeps_markedParameter
  · exact keeps_markedParameter
  · exact .take
  · exact .fail

theorem keeps_openParameters : Keeps (openParameters context token) := by
  refine .node ?_
  have hrest : Keeps (do
      (← read).parameter context token
      repeating do
        let next ← peek (behindParameter context)
        if next.isMark .comma then
          take next
          (← read).parameter context (← peek .plainName)
          return true
        else return false) :=
    .read fun _ hrules => .bind (.lift (hrules.parameter _ _)) fun _ => keeps_otherParameters
  exact .ite (.bind .fail fun _ => hrest) hrest

theorem keeps_blockVariables : Keeps blockVariables := by
  refine .peek fun name _ => .ite (.bind .leaf fun _ => .repeating ?_) .fail
  refine .peek fun next _ => .ite (.bind .take fun _ => .peek fun other _ => ?_) (.pure _)
  exact .ite (.returning .leaf) .fail

theorem keeps_blockParameters : Keeps (blockParameters token) := by
  refine .node (.bind .take fun _ => .bind (.repeating ?_) fun _ => .peek fun next _ => ?_)
  · refine .peek fun next _ => .ite (.pure _) (.ite (.returning .take) ?_)
    refine .read fun _ hrules => .bind (.lift (hrules.parameter _ _)) fun _ => .peek fun _ _ => ?_
    exact .ite (.returning .take) (.pure _)
  · exact .ite (.bind .take fun _ => .bind keeps_blockVariables fun _ => keeps_expect) keeps_expect

/-! Bodies -/

theorem keeps_body : Keeps (body kind closers) :=
  .peek fun _ _ => .ite
    (.node (.read fun _ hrules => .returning (.lift (hrules.statements _ _)))) (.pure _)

theorem keeps_branchBody : Keeps (branchBody stance closers) :=
  .bind keeps_terminator? fun _ => .peek fun _ _ =>
    .ite (.bind .take fun _ => keeps_body) (.ite keeps_body .fail)

theorem keeps_exception (htoken : token.CoversName) : Keeps (exception token) :=
  .ite keeps_markedOperand (keeps_value htoken)

theorem keeps_exceptions : Keeps exceptions := by
  refine .peek fun first hfirst => .ite (.bind (keeps_exception hfirst) fun _ => ?_) (.pure _)
  refine .repeating (.peek fun comma _ => .ite (.bind .take fun _ => ?_) (.pure _))
  exact .peek fun _ hnext => .returning (keeps_exception hnext)

theorem keeps_exceptionTarget : Keeps exceptionTarget := by
  refine .peek fun arrow _ => .ite (.bind .take fun _ => ?_) (.pure _)
  exact .read fun _ hrules => .peek fun _ hnext =>
    .bind (.lift (hrules.primary _ _ hnext)) fun _ => .ite .fail (.pure _)

theorem keeps_rescueClause : Keeps (rescueClause token) :=
  .node (.bind .take fun _ => .bind keeps_exceptions fun _ => .bind keeps_exceptionTarget fun _ =>
    keeps_branchBody)

theorem keeps_plainClause : Keeps (plainClause kind token) :=
  .node (.bind .take fun _ => .read fun _ hrules => .returning (.lift (hrules.statements _ _)))

theorem keeps_rescuableStatements : Keeps rescuableStatements := by
  refine .read fun _ hrules => .bind (.lift (hrules.statements _ _)) fun _ => .repeating ?_
  refine .peek fun next _ => ?_
  split
  · exact .returning keeps_rescueClause
  · exact .returning keeps_plainClause
  · exact .returning keeps_plainClause
  · exact .pure _

theorem keeps_rescuableBody : Keeps rescuableBody :=
  .peek fun _ _ => .ite (.bind (.node keeps_rescuableStatements) fun _ => keeps_expectEnd)
    keeps_expectEnd

/-! Blocks -/

theorem keeps_optionalBlockParameters : Keeps (optionalBlockParameters stance) :=
  .peek fun _ _ => .ite keeps_blockParameters (.pure _)

theorem keeps_braceBlock : Keeps (braceBlock token) :=
  .bind
    (.node (.bind .take fun _ => .bind keeps_optionalBlockParameters fun _ =>
      .bind keeps_body fun _ => keeps_expect))
    fun _ => .asRole (by decide)

theorem keeps_doBlock : Keeps (doBlock token) :=
  .bind
    (.node (.bind .take fun _ => .bind keeps_terminator? fun _ =>
      .bind keeps_optionalBlockParameters fun _ => keeps_rescuableBody))
    fun _ => .asRole (by decide)

theorem keeps_block? : Keeps (block? context) :=
  .peek fun _ _ => .ite keeps_braceBlock (.ite keeps_doBlock (.pure _))

end Grammar

end PuppetInventory.Syntax
