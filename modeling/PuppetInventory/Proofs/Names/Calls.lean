import PuppetInventory.Proofs.Names.Arguments
import PuppetInventory.Syntax.Grammar.Patterns

/-!
Calls name their methods: what becomes a method is the last token that has been read, and this is
one that can name a method. Definitions and patterns hold no other methods than those of the calls
in them.
-/

namespace PuppetInventory.Syntax

namespace Grammar

variable {context : Context} {token : Token} {stance : Stance} {form : Form} {kind : Kind}
  {mark closing : Mark} {closers : List Keyword} {origin : Origin} {callee : Callee}

/-! Calls -/

theorem keeps_blockUnlessHash : Keeps (blockUnlessHash context token) := by
  refine .bind (.foresees _) fun _ => .ite (.pure _) (.cursor fun before hbefore => ?_)
  refine .bind (.node (.bind .take fun _ => .peek fun first _ => ?_)) fun _ => ?_
  · have hrest (isBlock : Bool) : Keeps (do
        if isBlock then expect {} .closeBrace
        return isBlock) :=
      .ite (.returning keeps_expect) (.pure _)
    exact .ite
      (.bind keeps_blockParameters fun _ => .bind keeps_body fun _ => .bind (.pure _) hrest)
      (.read fun _ hrules => .bind (.lift hrules.blockStatements) hrest)
  · exact .ite (.returning (.asRole (by decide)))
      (.returning (.withCursor fun _ _ => hbefore))

theorem keeps_finishCall : Keeps (finishCall context origin) :=
  .bind keeps_block? fun _ => .returning .wrap

theorem keeps_commandCall (htoken : token.CoversName) :
    Keeps (commandCall context origin token) := by
  refine .bind (keeps_commandArguments htoken) fun _ => .peek fun _ _ => .ite ?_ (.ite ?_ ?_)
  · exact .bind keeps_braceBlock fun _ => .returning .wrap
  · exact .bind keeps_doBlock fun _ => .returning .wrap
  · exact .returning .wrap

/-- A name behind which no arguments come is no method, or it has been read last. -/
theorem bareName_keeps_name :
    Leads Cursor.EndsInName (bareName origin callee) Cursor.NamesMethods := by
  have hnames (cursor : Cursor) (h : cursor.EndsInName) : cursor.NamesMethods := h.toNamesMethods
  unfold bareName
  split
  · exact .weaken (.pure _) hnames
  · exact .bind .asMethod fun _ => .returning .wrap
  · exact .weaken (.returning .wrap) hnames

/-- Whatever follows a name, no other tree becomes a method than the name. -/
theorem called_keeps_name :
    Leads Cursor.EndsInName (called context origin callee) Cursor.NamesMethods := by
  refine .peek_behind_name fun next hnext => .ite .fail (.ite ?_ (.ite ?_ (.ite ?_ (.ite ?_ ?_))))
  · exact .bind .asMethod fun _ => .bind keeps_argumentList fun _ => keeps_finishCall
  · refine .bind .asMethod fun _ => .ite ?_ (.bind keeps_blockUnlessHash fun _ => .ite ?_ ?_)
    · exact .bind keeps_braceBlock fun _ => .returning .wrap
    · exact .returning .wrap
    · exact keeps_commandCall hnext
  · exact .bind .asMethod fun _ => .bind keeps_doBlock fun _ => .returning .wrap
  · exact .bind .asMethod fun _ => keeps_commandCall hnext
  · exact bareName_keeps_name

theorem keeps_methodCall : Keeps (methodCall context origin mark) := by
  refine .peek fun name hname => ?_
  have hnamed (h : name.lexeme.isName = true) : Keeps (methodCall.named context origin name) :=
    .bind (.leaf_name (hname h)) fun _ => .bind .asMethod_keeps_name fun _ => called_keeps_name
  split
  · next hlexeme =>
    refine .ite (.bind .leaf fun _ => .returning .wrap) (hnamed ?_)
    rw [hlexeme]
    rfl
  · next hlexeme =>
    exact hnamed (by rw [hlexeme]; rfl)
  · next hlexeme =>
    exact hnamed (by rw [hlexeme]; rfl)
  · next hlexeme =>
    exact hnamed (by rw [hlexeme]; rfl)
  · exact .ite .fail (.bind keeps_argumentList fun _ => keeps_finishCall)
  · exact .fail

theorem keeps_elementReference : Keeps (elementReference context origin token) := by
  refine .bind keeps_bracketed fun _ => .peek fun next _ => ?_
  have hrest : Keeps (do
      wrap origin .elementReference
      return Form.target) := .returning .wrap
  exact .ite (.bind keeps_braceBlock fun _ => hrest)
    (.ite (.bind keeps_doBlock fun _ => hrest) hrest)

theorem keeps_chainStep : Keeps (chainStep context origin form) := by
  refine .ite (.pure _) (.peek fun next _ => .ite ?_ (.ite ?_ (.pure _)))
  · exact .bind (.asRole (by decide)) fun _ => .bind .take fun _ => .returning keeps_methodCall
  · exact .returning keeps_elementReference

theorem keeps_chained : Keeps (chained context origin form) :=
  .iterate fun _ => keeps_chainStep

theorem keeps_commandSelector? : Keeps (commandSelector? context) :=
  .peek fun _ _ => .ite (.pure _)
    (.ite (.cursor fun _ _ => .cursor fun _ _ => .pure _) (.pure _))

theorem keeps_commandChain : Keeps (commandChain context origin) := by
  refine .bind keeps_commandSelector? fun selector => ?_
  split
  · exact .pure _
  · refine .bind (.asRole (by decide)) fun _ => .bind .take fun _ => .peek fun name hname => ?_
    split
    · next hlexeme =>
      have hnonempty : name.span.isEmpty = false := by
        apply hname
        simp only [Bool.or_eq_true, decide_eq_true_eq] at hlexeme
        rcases hlexeme with ((hlexeme | hlexeme) | hlexeme) | hlexeme <;> rw [hlexeme] <;> rfl
      refine .bind (.leaf_name hnonempty) fun _ => .bind .asMethod fun _ => .peek fun _ hnext => ?_
      have hrest : Keeps (do
          wrap origin .call
          return Form.command) := .returning .wrap
      exact .ite (.bind (keeps_commandArguments hnext) fun _ => hrest) hrest
    · exact .fail

/-! Definitions of methods -/

theorem keeps_assignmentSign? : Keeps (assignmentSign? stance) :=
  .peek fun _ _ => .ite (.returning .take) (.pure _)

theorem keeps_definedName : Keeps (definedName stance token) := by
  unfold definedName
  split
  · exact .bind .leaf fun _ => .returning keeps_assignmentSign?
  · exact .leaf
  · exact .leaf
  · exact .leaf
  · exact .leaf
  · exact .leaf
  · exact .ite keeps_literal .fail
  · exact .fail

theorem keeps_singletonMark? : Keeps (singletonMark? stance) :=
  .peek fun _ _ => .ite (.returning .take) (.pure _)

theorem keeps_singletonName : Keeps singletonName :=
  .bind keeps_singletonMark? fun _ => .ite (.peek fun _ _ => keeps_definedName) .fail

theorem keeps_optionalName : Keeps methodHead.optionalName :=
  .bind keeps_singletonMark? fun _ => .ite (.peek fun _ _ => .returning keeps_definedName) (.pure _)

theorem keeps_methodHead : Keeps methodHead := by
  refine .peek fun first _ => ?_
  split
  · exact .bind .take fun _ => .peek fun _ hnext => .bind (keeps_value hnext) fun _ =>
      .bind keeps_expect fun _ => .returning keeps_singletonName
  · exact .bind .take fun _ => .returning keeps_singletonName
  · exact .bind .leaf fun _ => .bind keeps_assignmentSign? fun _ =>
      .ite (.pure _) keeps_optionalName
  · exact .bind .leaf fun _ => keeps_optionalName
  · exact .bind .leaf fun _ => keeps_optionalName
  · exact .returning keeps_definedName

theorem keeps_methodValue : Keeps (methodValue context) := by
  refine .peek fun first hfirst => .start fun outer houter => .bind (keeps_value hfirst) fun _ => ?_
  have hrest : Keeps (finish outer) := .finish houter
  refine .peek fun next _ => .ite (.bind .take fun _ => .peek fun _ hvalue => ?_) hrest
  exact .bind (keeps_value hvalue) fun _ => .bind .wrap fun _ => hrest

theorem keeps_methodRest : Keeps (methodRest context) := by
  refine .peek fun next _ => .ite ?_ (.ite ?_ (.ite ?_ ?_))
  · exact .bind .take fun _ => keeps_methodValue
  · exact .bind keeps_enclosedParameters fun _ => .peek fun _ _ =>
      .ite (.bind .take fun _ => keeps_methodValue) keeps_rescuableBody
  · exact .bind .take fun _ => keeps_rescuableBody
  · exact .bind keeps_openParameters fun _ => .bind keeps_terminator? fun _ =>
      .ite keeps_rescuableBody .fail

theorem keeps_method : Keeps (method context token) :=
  .start fun _ horigin => .bind .take fun _ => .bind keeps_methodHead fun _ =>
    .bind keeps_methodRest fun _ => .bind .wrap fun _ => .finish horigin

/-! Classes, modules and lambdas -/

theorem keeps_constant : Keeps (constants.constant token) :=
  .ite .leaf .fail

theorem keeps_constants : Keeps (constants token) := by
  refine .start fun outer houter => ?_
  have hmore : Keeps (do
      repeating do
        let next ← peek headContext.behind
        if next.isMark .scope then
          take next
          constants.constant (← peek .plainName)
          wrap outer .scopeResolution
          return true
        else return false
      finish outer) := by
    refine .bind (.repeating (.peek fun next _ => .ite (.bind .take fun _ => ?_) (.pure _)))
      fun _ => .finish houter
    exact .peek fun _ _ => .bind keeps_constant fun _ => .returning .wrap
  refine .ite (.bind .take fun _ => .peek fun _ _ => ?_) (.bind keeps_constant fun _ => hmore)
  exact .bind keeps_constant fun _ => .bind .wrap fun _ => hmore

theorem keeps_className (htoken : token.CoversName) : Keeps (className token) := by
  refine .bind (.foresees _) fun _ => .ite keeps_constants (.read fun _ hrules => ?_)
  exact .bind (.lift (hrules.primary _ _ htoken)) fun _ => .cursor fun _ _ => .ite .fail (.pure _)

theorem keeps_superclass? : Keeps superclass? := by
  refine .peek fun next _ => .ite (.bind (.node (.bind .take fun _ => ?_)) fun _ => ?_) (.pure _)
  · exact .read fun _ hrules => .peek fun _ hnext =>
      .returning (.lift (hrules.expression _ _ hnext))
  · exact .bind keeps_terminator? fun _ => .ite (.pure _) .fail

theorem keeps_classBody : Keeps (classBody token) := by
  refine .start fun outer houter => .bind .take fun _ => .peek fun next hnext => ?_
  have hrest : Keeps (finish outer) := .finish houter
  refine .ite (.bind .take fun _ => .peek fun _ hvalue => ?_) ?_
  · refine .bind (keeps_value hvalue) fun _ => .bind keeps_terminator? fun _ => .ite ?_ ?_
    · exact .bind keeps_rescuableBody fun _ => .bind .wrap fun _ => hrest
    · exact .bind .fail fun _ => hrest
  · exact .bind (keeps_className hnext) fun _ => .bind keeps_superclass? fun _ =>
      .bind keeps_rescuableBody fun _ => .bind .wrap fun _ => hrest

theorem keeps_moduleBody : Keeps (moduleBody token) :=
  .node (.bind .take fun _ => .peek fun _ hnext => .bind (keeps_className hnext) fun _ =>
    keeps_rescuableBody)

theorem keeps_lambda : Keeps (lambda token) := by
  refine .node (.bind .take fun _ => .peek fun next _ => ?_)
  have hrest : Keeps (do
      let next ← peek { words := [.do] }
      if next.isMark .openBrace then braceBlock next
      else if next.isKeyword .do then doBlock next
      else fail) :=
    .peek fun _ _ => .ite keeps_braceBlock (.ite keeps_doBlock .fail)
  split
  · exact hrest
  · exact hrest
  · exact .bind keeps_enclosedParameters fun _ => hrest
  · exact .bind keeps_openParameters fun _ => hrest

/-! Values as patterns -/

theorem keeps_signed : Keeps (primitive.signed context token) :=
  .node (.bind .take fun _ => .peek fun _ _ => .ite keeps_number .fail)

theorem keeps_primitive : Keeps (primitive context token) := by
  unfold primitive
  split
  · exact keeps_number
  · exact .leaf
  · exact .leaf
  · exact .ite (.returning keeps_textLiteral) keeps_literal
  · exact .leaf
  · exact .leaf
  · exact .leaf
  · exact .leaf
  · exact keeps_signed
  · exact keeps_signed
  · exact keeps_lambda
  · exact .fail

theorem keeps_primitiveRange : Keeps (primitiveRange context token) := by
  refine .start fun outer houter => .bind keeps_primitive fun _ => .peek fun next _ => ?_
  have hrest : Keeps (finish outer) := .finish houter
  have hwrapped : Keeps (do
      wrap outer .range
      finish outer) := .bind .wrap fun _ => hrest
  refine .ite (.bind .take fun _ => .peek fun stop _ => ?_) hrest
  exact .ite (.bind keeps_primitive fun _ => hwrapped) hwrapped

theorem keeps_boundValue : Keeps (boundValue token) := by
  refine .node (.bind .take fun _ => .peek fun next _ => ?_)
  split
  · exact .leaf
  · exact .leaf
  · refine .bind .take fun _ => .read fun _ hrules => .peek fun _ hvalue => ?_
    exact .bind (.lift (hrules.expression _ _ hvalue)) fun _ => keeps_expect
  · exact .fail

/-! Lists of patterns -/

theorem keeps_starName : Keeps (starName context) :=
  .peek fun _ _ => .ite .leaf (.pure _)

theorem keeps_keyedPattern : Keeps (keyedPattern context token) := by
  refine .node ?_
  have hrest : Keeps (do
      asRole .key
      expect {} .colon
      let next ← peek { Stance.shape context.follows with lineBreak := context.lineEnds }
      if startsShape next then (← read).pattern context next) := by
    refine .bind (.asRole (by decide)) fun _ => .bind keeps_expect fun _ => .peek fun next _ => ?_
    exact .ite (.read fun _ hrules => .lift (hrules.pattern _ _)) (.pure _)
  split
  · exact .bind keeps_literal fun _ => hrest
  · exact .bind .leaf fun _ => hrest

theorem keeps_patternItem {list : PatternList} : Keeps (patternItem context list token) := by
  have hstar (kind : Kind) (longer : PatternList) : Keeps (do
      node kind token do
        take token
        starName context
      return longer) :=
    .returning (.node (.bind .take fun _ => keeps_starName))
  unfold patternItem
  split
  · exact .ite (hstar _ _) .fail
  · exact .ite (hstar _ _) .fail
  · refine .bind keeps_startsPair fun _ => .ite ?_ (.ite (.read fun _ hrules => ?_) .fail)
    · exact .returning keeps_keyedPattern
    · exact .returning (.lift (hrules.pattern _ _))

theorem keeps_patternList : Keeps (patternList context token) := by
  refine .bind keeps_patternItem fun _ => .iterate fun list => .peek fun comma _ => ?_
  refine .ite (.bind .take fun _ => .peek fun _ _ => .ite ?_ (.ite (.pure _) .fail)) (.pure _)
  exact .returning keeps_patternItem

theorem keeps_patterns : Keeps (patterns context token) :=
  .returning keeps_patternList

theorem keeps_enclosedPatterns : Keeps (enclosedPatterns closing token) := by
  refine .bind .take fun _ => .peek fun next _ => .ite (.returning .take) ?_
  exact .bind keeps_patternList fun _ => .returning keeps_expect

/-! Patterns -/

theorem keeps_constantName : Keeps constantPattern.constantName :=
  .peek fun _ _ => .ite .leaf .fail

theorem keeps_constantPattern : Keeps (constantPattern context token) := by
  refine .node ?_
  have hmore : Keeps (do
      repeating do
        let next ← peek (behindPattern context)
        if next.isMark .scope then
          take next
          constantPattern.constantName
          return true
        else return false
      let next ← peek (behindPattern context)
      if !next.spaced then
        if next.isMark .openParen then
          let _ ← enclosedPatterns .closeParen next
        else if next.isMark .openBracket then
          let _ ← enclosedPatterns .closeBracket next) := by
    refine .bind (.repeating (.peek fun _ _ => .ite (.bind .take fun _ => ?_) (.pure _)))
      fun _ => ?_
    · exact .returning keeps_constantName
    · have hparts (closing : Mark) (next : Token) : Keeps (do
          let _ ← enclosedPatterns closing next) := .returning keeps_enclosedPatterns
      exact .peek fun _ _ => .ite (.ite (hparts _ _) (.ite (hparts _ _) (.pure _))) (.pure _)
  exact .ite (.bind .take fun _ => .bind keeps_constantName fun _ => hmore)
    (.bind .leaf fun _ => hmore)

theorem keeps_beginlessPattern : Keeps (simplePattern.beginless context token) :=
  .node (.bind .take fun _ => .peek fun _ _ => keeps_primitive)

theorem keeps_simplePattern : Keeps (simplePattern context token) := by
  unfold simplePattern
  split
  · exact .leaf
  · exact keeps_constantPattern
  · split
    · exact .node (.bind keeps_enclosedPatterns fun _ => .ite .fail (.pure _))
    · exact .node (.bind keeps_enclosedPatterns fun _ => .ite .fail (.pure _))
    · exact .node (.bind .take fun _ => .read fun _ hrules => .peek fun _ _ =>
        .bind (.lift (hrules.pattern _ _)) fun _ => keeps_expect)
    · exact keeps_boundValue
    · exact keeps_constantPattern
    · exact keeps_beginlessPattern
    · exact keeps_beginlessPattern
    · exact keeps_primitiveRange
  · exact keeps_primitiveRange

theorem keeps_pattern : Keeps (pattern context token) := by
  refine .start fun outer houter => .bind keeps_simplePattern fun _ => .bind (.repeating ?_)
    fun _ => .bind (.repeating ?_) fun _ => .finish houter
  · refine .peek fun _ _ => .ite (.bind .take fun _ => .peek fun _ _ => ?_) (.pure _)
    exact .bind keeps_simplePattern fun _ => .returning .wrap
  · refine .peek fun _ _ => .ite (.bind .take fun _ => .peek fun name _ => ?_) (.pure _)
    exact .ite (.bind .leaf fun _ => .returning .wrap) .fail

theorem keeps_prefersPattern : Keeps (prefersPattern context token) := by
  refine .bind (.foresees _) fun _ => .ite (.pure _) ?_
  split
  · exact .pure _
  · exact .foresees _
  · exact .foresees _
  · exact .bind keeps_startsPair fun _ => .ite (.pure _) (.foresees _)

end Grammar

end PuppetInventory.Syntax
