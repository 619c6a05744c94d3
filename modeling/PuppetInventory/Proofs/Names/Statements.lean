import PuppetInventory.Proofs.Names.Calls
import PuppetInventory.Syntax.Document

/-!
No statement leaves a nameless method, and so no document does: in the tree of a document every node
that plays the part of a method stands over some characters.
-/

namespace PuppetInventory.Syntax

namespace Grammar

variable {context : Context} {token : Token} {stance : Stance} {form : Form} {kind : Kind}
  {keyword : Keyword} {closers : List Keyword} {origin : Origin} {callee : Callee}

/-! Constructs -/

theorem keeps_listedStatements {targets : Bool} : Keeps (do
    let _ ← (← read).statements closers targets) :=
  .read fun _ hrules => .returning (.lift (hrules.statements _ _))

theorem keeps_headStatement : Keeps (headStatement closers) :=
  .peek fun _ hnext => .read fun _ hrules => .returning (.lift (hrules.statement _ _ hnext))

theorem keeps_branch : Keeps branch :=
  .bind keeps_headStatement fun _ => keeps_branchBody

theorem keeps_elseBody : Keeps (otherBranches.elseBody token) :=
  .node (.bind .take fun _ => keeps_listedStatements)

theorem keeps_otherBranches : Keeps otherBranches := by
  refine .bind (.repeating (.peek fun _ _ => .ite ?_ (.pure _))) fun _ => .peek fun _ _ => ?_
  · exact .returning (.node (.bind .take fun _ => keeps_branch))
  · exact .ite keeps_elseBody (.pure _)

theorem keeps_conditional : Keeps (conditional kind token) :=
  .node (.bind .take fun _ => .bind keeps_branch fun _ => .bind keeps_otherBranches fun _ =>
    keeps_expectEnd)

theorem keeps_loopBody : Keeps (loopBody stance) :=
  .peek fun _ _ => .ite
    (.node (.bind .take fun _ => .read fun _ hrules =>
      .bind (.lift (hrules.statements _ _)) fun _ => keeps_expectEnd))
    .fail

theorem keeps_loop : Keeps (loop kind token) :=
  .node (.bind .take fun _ => .bind keeps_headStatement fun _ => keeps_loopBody)

theorem keeps_selector (htoken : token.CoversName) : Keeps (selector token) :=
  .ite keeps_markedOperand (keeps_value htoken)

theorem keeps_whenClause : Keeps (whenClause token) := by
  refine .node (.bind .take fun _ => .peek fun _ hfirst =>
    .bind (keeps_selector hfirst) fun _ => ?_)
  refine .bind (.repeating (.peek fun _ _ => .ite ?_ (.pure _))) fun _ => keeps_branchBody
  exact .bind .take fun _ => .peek fun _ hnext => .returning (keeps_selector hnext)

theorem keeps_guard : Keeps guard := by
  refine .peek fun _ _ => .ite (.bind .take fun _ => .read fun _ hrules => ?_) keeps_branchBody
  exact .peek fun _ hnext => .bind (.lift (hrules.expression _ _ hnext)) fun _ => keeps_branchBody

theorem keeps_inClause : Keeps (inClause token) :=
  .node (.bind .take fun _ => .peek fun _ _ => .bind keeps_patterns fun _ => keeps_guard)

theorem keeps_clauses {clause : Token → Parse Unit} (h : ∀ token, Keeps (clause token)) :
    Keeps (clauses keyword clause) :=
  .repeating (.peek fun next _ => .ite (.returning (h next)) (.pure _))

theorem keeps_subject : Keeps subject := by
  refine .peek fun _ hnext => .ite (.read fun _ hrules => ?_) ?_
  · exact .bind (.lift (hrules.statement _ _ hnext)) fun _ => .bind keeps_terminator? fun _ =>
      .pure _
  · exact .returning keeps_terminator?

theorem keeps_selection : Keeps (selection token) := by
  refine .start fun outer houter => .bind .take fun _ => .bind keeps_subject fun hasSubject => ?_
  refine .peek fun next _ => ?_
  have hrest : Keeps (do
      let last ← peek { words := clauseWords }
      if last.isKeyword .else then
        node .elseBody last do
          take last
          let _ ← (← read).statements [.end] false
      expectEnd
      wrap outer (if hasSubject && next.isKeyword .in then .caseMatch else .caseSelection)
      finish outer) := by
    have hend : Keeps (do
        expectEnd
        wrap outer (if hasSubject && next.isKeyword .in then .caseMatch else .caseSelection)
        finish outer) := .bind keeps_expectEnd fun _ => .bind .wrap fun _ => .finish houter
    exact .peek fun _ _ => .ite
      (.bind (.node (.bind .take fun _ => keeps_listedStatements)) fun _ => hend) hend
  exact .ite (.bind (keeps_clauses fun _ => keeps_inClause) fun _ => hrest)
    (.bind (keeps_clauses fun _ => keeps_whenClause) fun _ => hrest)

theorem keeps_beginBody : Keeps (beginBody token) :=
  .node (.bind .take fun _ => .bind keeps_rescuableStatements fun _ => keeps_expectEnd)

theorem keeps_jump : Keeps (jump context kind token) := by
  refine .start fun outer houter => .bind .take fun _ => .peek fun next hnext => ?_
  have hrest (form : Form) : Keeps (do
      wrap outer kind
      finish outer
      return form) := .bind .wrap fun _ => .returning (.finish houter)
  refine .ite (.bind .fail hrest) (.ite ?_ (.ite ?_ (.bind (.pure _) hrest)))
  · exact .bind keeps_argumentList fun _ => .bind (.pure _) hrest
  · exact .bind (keeps_commandArguments hnext) fun _ => .bind (.pure _) hrest

theorem keeps_repetition : Keeps (repetition context token) :=
  .node (.bind .take fun _ => .peek fun _ _ => .ite keeps_argumentList (.pure _))

/-! Assignments -/

theorem keeps_single (htoken : token.CoversName) : Keeps (target.single context token) :=
  .read fun _ hrules => .bind (.lift (hrules.primary _ _ htoken)) fun _ => .ite .fail (.pure _)

theorem keeps_target (htoken : token.CoversName) : Keeps (target context token) :=
  .ite (.node (.bind .take fun _ => .peek fun _ hnext => .ite (keeps_single hnext) (.pure _)))
    (keeps_single htoken)

theorem keeps_otherTargets : Keeps (otherTargets context) := by
  refine .repeating (.peek fun _ _ => .ite (.bind .take fun _ => .peek fun _ hnext => ?_) (.pure _))
  exact .ite (.returning (keeps_target hnext)) (.pure _)

theorem keeps_assignedSplat : Keeps (assignedSplat context token) :=
  .node (.bind .take fun _ => .peek fun _ hnext => .ite (keeps_value hnext) (.pure _))

theorem keeps_listedValue (htoken : token.CoversName) : Keeps (listedValue context token) :=
  .ite keeps_assignedSplat (keeps_value htoken)

theorem keeps_otherValues : Keeps (otherValues context) := by
  refine .iterate fun _ => .peek fun _ _ => .ite (.bind .take fun _ => ?_) (.pure _)
  exact .peek fun _ hnext => .returning (keeps_listedValue hnext)

theorem keeps_rescuedValue : Keeps (rescuedValue context origin) := by
  refine .peek fun _ _ => .ite (.bind .take fun _ => .peek fun _ hnext => ?_) (.pure _)
  exact .bind (keeps_value hnext) fun _ => .wrap

theorem keeps_assigned {several : Bool} : Keeps (assigned context several) := by
  refine .peek fun first hfirst => .start fun outer houter => .ite ?_ ?_
  · have hrest (isList : Bool) : Keeps (do
        if isList then wrap outer .assignmentList
        finish outer
        return Form.value) := by
      have hfinish : Keeps (do
          finish outer
          return Form.value) := .returning (.finish houter)
      exact .ite (.bind .wrap fun _ => hfinish) hfinish
    exact .bind keeps_assignedSplat fun _ =>
      .ite (.bind keeps_otherValues hrest) (.bind (.pure _) hrest)
  · refine .read fun _ hrules => .bind (.lift (hrules.expression _ _ hfirst)) fun form => ?_
    have hrest (isList : Bool) : Keeps (do
        if isList then wrap outer .assignmentList
        else rescuedValue { assignedContext context several with comma := context.comma } outer
        finish outer
        return form.operated) := by
      have hfinish : Keeps (do
          finish outer
          return form.operated) := .returning (.finish houter)
      exact .ite (.bind .wrap fun _ => hfinish) (.bind keeps_rescuedValue fun _ => hfinish)
    exact .ite (.bind keeps_otherValues hrest) (.bind (.pure _) hrest)

theorem keeps_assignment {several : Bool} : Keeps (assignment context origin token several) :=
  .bind .take fun _ => .bind keeps_assigned fun _ => .returning .wrap

theorem keeps_multipleAssignment : Keeps (multipleAssignment context origin) := by
  refine .bind keeps_otherTargets fun _ => .peek fun _ _ => .ite ?_ (.ite ?_ .fail)
  · exact .bind .wrap fun _ => keeps_assignment
  · exact .returning .wrap

theorem keeps_assignable : Keeps (assignable context origin form) := by
  refine .ite (.peek fun _ _ => .ite keeps_assignment (.ite keeps_multipleAssignment ?_)) (.pure _)
  exact .ite (.ite keeps_assignment (.pure _)) (.ite (.pure _) .fail)

theorem keeps_forLoop : Keeps (forLoop token) :=
  .node (.bind .take fun _ => .peek fun _ hnext => .bind (keeps_target hnext) fun _ =>
    .bind keeps_otherTargets fun _ => .bind keeps_expectKeyword fun _ => .peek fun _ hvalue =>
      .bind (keeps_value hvalue) fun _ => keeps_loopBody)

/-! Operands -/

theorem keeps_name (h : token.span.isEmpty = false) :
    Keeps (name context origin kind callee token) :=
  .bind (.leaf_name h) fun _ => called_keeps_name

theorem keeps_parenthesized : Keeps (parenthesized origin token) := by
  refine .bind .take fun _ => .read fun _ hrules => .bind (.lift (hrules.statements _ _)) ?_
  exact fun _ => .bind keeps_expect fun _ => .ite (.returning .wrap) (.returning .wrap)

theorem keeps_topConstant : Keeps (topConstant origin token) :=
  .bind .take fun _ => .peek fun _ _ => .ite (.bind .leaf fun _ => .returning .wrap) .fail

theorem keeps_qualifiedStatements : Keeps (qualifiedStatements origin token) := by
  refine .bind .take fun _ => .peek fun _ _ => .ite (.start fun inner hinner => ?_) .fail
  exact .bind keeps_parenthesized fun _ => .bind (.finish hinner) fun _ => .bind .wrap fun _ =>
    .ite .fail (.pure _)

theorem keeps_construct (h : token.span.isEmpty = false) :
    Keeps (construct context origin keyword token) := by
  have hconstant (kind : Kind) : Keeps (construct.constantOf token kind) :=
    .returning .leaf
  have hfinished {rule : Parse Unit} (hrule : Keeps rule) : Keeps (construct.finished rule) :=
    .returning hrule
  unfold construct
  split
  · exact keeps_name h
  · exact keeps_name h
  · exact hconstant _
  · exact hconstant _
  · exact hconstant _
  · exact keeps_jump
  · exact keeps_jump
  · exact keeps_jump
  · exact keeps_jump
  · exact keeps_qualifiedStatements
  · exact keeps_qualifiedStatements
  · exact hfinished keeps_repetition
  · exact hfinished keeps_repetition
  · exact hfinished keeps_conditional
  · exact hfinished keeps_conditional
  · exact hfinished keeps_loop
  · exact hfinished keeps_loop
  · exact hfinished keeps_forLoop
  · exact hfinished keeps_selection
  · exact hfinished keeps_beginBody
  · exact hfinished keeps_method
  · exact hfinished keeps_classBody
  · exact hfinished keeps_moduleBody
  · exact .fail

theorem keeps_simpleOperand (htoken : token.CoversName) :
    Keeps (simpleOperand context origin token) := by
  have hfinished {rule : Parse Unit} (hrule : Keeps rule) : Keeps (simpleOperand.finished rule) :=
    .returning hrule
  have hnonempty {lexeme : Lexeme} (hlexeme : token.lexeme = lexeme)
      (hname : lexeme.isName = true) : token.span.isEmpty = false :=
    htoken (hlexeme ▸ hname)
  unfold simpleOperand
  split
  · next h => exact keeps_name (hnonempty h rfl)
  · next h => exact keeps_name (hnonempty h rfl)
  · next h => exact keeps_name (hnonempty h rfl)
  · next h => exact keeps_name (hnonempty h rfl)
  · next h => exact keeps_construct (hnonempty h rfl)
  · exact hfinished keeps_number
  · exact hfinished .leaf
  · exact hfinished .leaf
  · exact hfinished .leaf
  · exact .ite (.returning keeps_textLiteral) (hfinished keeps_literal)
  · exact keeps_parenthesized
  · exact hfinished keeps_array
  · exact hfinished keeps_hash
  · exact hfinished keeps_lambda
  · exact keeps_topConstant
  · exact .fail

theorem keeps_linked : Keeps (linked context origin form) :=
  .bind keeps_chained fun _ => .ite keeps_commandChain (.pure _)

theorem keeps_primary (htoken : token.CoversName) : Keeps (primary context token) :=
  .start fun _ horigin => .bind (keeps_simpleOperand htoken) fun _ => .bind keeps_linked fun _ =>
    .returning (.finish horigin)

/-! Operators -/

theorem keeps_choices : Keeps (choices context) := by
  refine .peek fun _ hchosen => .bind (keeps_value hchosen) fun _ => .bind keeps_expect fun _ => ?_
  exact .read fun _ hrules => .peek fun _ hother => .returning (.lift (hrules.operand _ _ hother))

theorem keeps_rangeEnd : Keeps (rangeEnd context) :=
  .peek fun _ hnext => .ite
    (.read fun _ hrules => .returning (.lift (hrules.operand _ _ hnext))) (.pure _)

theorem keeps_range : Keeps (operation.range context origin token) :=
  .bind .take fun _ => .bind keeps_rangeEnd fun _ => .returning .wrap

theorem keeps_operation : Keeps (operation context origin form) := by
  refine .ite (.pure _) (.peek fun operator _ => ?_)
  split
  · exact .bind .take fun _ => .bind keeps_choices fun _ => .returning .wrap
  · exact keeps_range
  · exact keeps_range
  · refine .ite (.bind .take fun _ => .read fun _ hrules => .peek fun _ hnext => ?_) (.pure _)
    exact .bind (.lift (hrules.operand _ _ hnext)) fun _ => .returning .wrap
  · exact .pure _

theorem keeps_joined (htoken : token.CoversName) : Keeps (joined context origin token) :=
  .read fun _ hrules => .bind (.lift (hrules.operand _ _ htoken)) fun _ =>
    .iterate fun _ => keeps_operation

theorem keeps_held : Keeps (held context origin form) := by
  refine .ite (.peek fun _ _ => .ite (.bind .take fun _ => ?_) (.pure _)) (.pure _)
  exact .peek fun _ _ => .returning keeps_matchedPattern

theorem keeps_matched (htoken : token.CoversName) : Keeps (matched context token) :=
  .start fun _ horigin => .bind (keeps_joined htoken) fun _ => .bind keeps_held fun _ =>
    .returning (.finish horigin)

theorem keeps_signedOperand : Keeps (signed context token) := by
  refine .node (.bind .take fun _ => .peek fun first hfirst => .start fun outer houter => ?_)
  refine .read fun _ hrules => .bind (.lift (hrules.operand _ _ hfirst)) fun form => ?_
  have hrest (form : Form) : Keeps (do
      finish outer
      return form.operated) := .returning (.finish houter)
  exact .peek fun _ _ => .ite (.bind keeps_held hrest) (.bind (.pure _) hrest)

theorem keeps_qualified : Keeps (qualified context token) := by
  refine .start fun outer houter => .bind .take fun _ => .peek fun next hnext => ?_
  have hrest (form : Form) : Keeps (do
      finish outer
      return form) := .returning (.finish houter)
  refine .ite (.start fun inner hinner => .bind keeps_parenthesized fun form => .ite ?_ ?_) ?_
  · exact .bind keeps_assignable fun _ => .bind (.finish hinner) fun _ => .bind .wrap fun _ =>
      .bind (.pure _) hrest
  · exact .bind (.finish hinner) fun _ => .bind .wrap fun _ => .bind keeps_linked fun _ =>
      .bind keeps_assignable hrest
  · exact .bind (keeps_matched hnext) fun _ => .bind .wrap fun _ => .bind (.pure _) hrest

theorem keeps_beginless : Keeps (beginless context token) :=
  .node (.bind .take fun _ => .read fun _ hrules => .peek fun _ hnext =>
    .returning (.lift (hrules.operand _ _ hnext)))

theorem keeps_operand (htoken : token.CoversName) : Keeps (operand context token) := by
  unfold operand
  split
  · exact keeps_signedOperand
  · exact keeps_signedOperand
  · exact keeps_signedOperand
  · exact keeps_signedOperand
  · exact keeps_qualified
  · exact keeps_qualified
  · exact keeps_beginless
  · exact keeps_beginless
  · exact .start fun _ houter => .bind (keeps_target htoken) fun _ =>
      .bind keeps_multipleAssignment fun _ => .returning (.finish houter)
  · exact .start fun _ houter => .read fun _ hrules =>
      .bind (.lift (hrules.primary _ _ htoken)) fun _ => .bind keeps_assignable fun _ =>
        .returning (.finish houter)

/-! Expressions -/

theorem keeps_conjunction : Keeps (conjunction context origin form) := by
  refine .ite (.pure _) (.peek fun _ _ => .ite (.bind .take fun _ => .peek fun _ hnext => ?_)
    (.pure _))
  exact .bind (keeps_matched hnext) fun _ => .returning .wrap

theorem keeps_conjoined : Keeps (conjoined context origin form) :=
  .iterate fun _ => keeps_conjunction

theorem keeps_expression (htoken : token.CoversName) : Keeps (expression context token) :=
  .start fun _ horigin => .bind (keeps_matched htoken) fun _ => .bind keeps_conjoined fun _ =>
    .returning (.finish horigin)

/-! Statements -/

theorem keeps_aliasStatement : Keeps (aliasStatement token) :=
  .node (.bind .take fun _ => .peek fun _ _ => .bind keeps_definedName fun _ =>
    .peek fun _ _ => keeps_definedName)

theorem keeps_undefStatement : Keeps (undefStatement token) := by
  refine .node (.bind .take fun _ => .peek fun _ _ => .bind keeps_definedName fun _ => ?_)
  refine .repeating (.peek fun _ _ => .ite (.bind .take fun _ => .peek fun _ _ => ?_) (.pure _))
  exact .returning keeps_definedName

theorem keeps_hookBlock : Keeps (hookBlock token) :=
  .node (.bind .take fun _ => .bind keeps_expect fun _ => .read fun _ hrules =>
    .bind (.lift (hrules.statements _ _)) fun _ => keeps_expect)

theorem keeps_modifier : Keeps (modifier context origin form) := by
  refine .ite (.pure _) (.peek fun next _ => ?_)
  split
  · refine .ite (.bind .take fun _ => .read fun _ hrules => .peek fun _ hnext => ?_) (.pure _)
    exact .bind (.lift (hrules.expression _ _ hnext)) fun _ => .returning .wrap
  · exact .pure _

theorem keeps_modified : Keeps (modified context origin form) :=
  .iterate fun _ => keeps_modifier

theorem keeps_statement (htoken : token.CoversName) : Keeps (statement context token) := by
  refine .start fun outer houter => ?_
  have hrest (form : Form) : Keeps (do
      let form ← modified context outer form
      finish outer
      return form) := .bind keeps_modified fun _ => .returning (.finish houter)
  have hfinished {rule : Parse Unit} (hrule : Keeps rule) : Keeps (statement.finished rule) :=
    .returning hrule
  split
  · exact .bind (hfinished keeps_aliasStatement) hrest
  · exact .bind (hfinished keeps_undefStatement) hrest
  · exact .bind (hfinished keeps_hookBlock) hrest
  · exact .bind (hfinished keeps_hookBlock) hrest
  · exact .read fun _ hrules => .bind (.lift (hrules.expression _ _ htoken)) hrest

theorem keeps_statementEnd : Keeps (statementEnd context) :=
  keeps_terminator?

theorem keeps_statementStep : Keeps (statementStep closers) := by
  refine .peek fun next hnext => .ite (.returning .take) (.ite ?_ (.pure _))
  exact .bind (keeps_statement hnext) fun _ =>
    .ite (.bind .fail fun _ => keeps_statementEnd) keeps_statementEnd

theorem keeps_statements {targets : Bool} : Keeps (statements closers targets) := by
  have hsteps : Keeps (do
      repeating (statementStep closers)
      return Form.value) := .returning (.repeating keeps_statementStep)
  refine .peek fun next hnext => .ite (.bind (keeps_statement hnext) fun _ => ?_) hsteps
  exact .ite (.pure _) (.bind keeps_statementEnd fun _ => .ite hsteps (.pure _))

theorem keeps_firstBlockStatement (htoken : token.CoversName) :
    Keeps (firstBlockStatement token) := by
  refine .start fun outer houter => .bind (keeps_joined htoken) fun form => .peek fun next _ => ?_
  have hsteps (more : Bool) : Keeps (do
      if more then repeating (statementStep [])
      return true) := .ite (.returning (.repeating keeps_statementStep)) (.pure _)
  have hrest (isKey : Bool) : Keeps (do
      if isKey then return false
      else
        let form ← conjoined (Context.statement []) outer
          (← held (Context.statement []) outer form)
        let _ ← modified (Context.statement []) outer form
        finish outer
        if ← statementEnd (Context.statement []) then repeating (statementStep [])
        return true) :=
    .ite (.pure _) (.bind keeps_held fun _ => .bind keeps_conjoined fun _ =>
      .bind keeps_modified fun _ => .bind (.finish houter) fun _ =>
        .bind keeps_statementEnd hsteps)
  exact .ite (.bind (.foresees _) hrest) (.bind (.pure _) hrest)

theorem keeps_blockStatements : Keeps blockStatements := by
  refine .peek fun next hnext => .ite (.node (keeps_firstBlockStatement hnext)) ?_
  exact .ite (.node (.returning (.repeating keeps_statementStep))) (.pure _)

theorem keeps_enclosed : Keeps enclosed :=
  .bind (.repeating keeps_statementStep) fun _ => keeps_expect

end Grammar

/-! The grammar -/

theorem Leads.step {α : Type} {rule : Parse α} {rules : Rules} (h : Keeps rule)
    (hrules : rules.KeepNames) : Step.KeepsNames (rule rules) :=
  fun _ _ _ hcursor hruns => h hrules hcursor hruns

theorem Step.keepsNames_fault {α : Type} :
    Step.KeepsNames (Except.error ∘ Cursor.fault : Step α) := by
  rintro cursor answer next - ⟨⟩

/-- However deeply they nest, the rules of the grammar leave no nameless methods. -/
theorem grammar_keepNames (size depth : Nat) : (grammar size depth).KeepNames := by
  induction depth with
  | zero =>
    exact {
      statements := fun _ _ => Step.keepsNames_fault
      blockStatements := Step.keepsNames_fault
      enclosed := Step.keepsNames_fault
      statement := fun _ _ _ => Step.keepsNames_fault
      expression := fun _ _ _ => Step.keepsNames_fault
      operand := fun _ _ _ => Step.keepsNames_fault
      primary := fun _ _ _ => Step.keepsNames_fault
      parameter := fun _ _ => Step.keepsNames_fault
      pattern := fun _ _ => Step.keepsNames_fault
      patterns := fun _ _ => Step.keepsNames_fault
      prefersPattern := fun _ _ => Step.keepsNames_fault }
  | succ depth ih =>
    exact {
      statements := fun _ _ => Grammar.keeps_statements.step ih
      blockStatements := Grammar.keeps_blockStatements.step ih
      enclosed := Grammar.keeps_enclosed.step ih
      statement := fun _ _ htoken => (Grammar.keeps_statement htoken).step ih
      expression := fun _ _ htoken => (Grammar.keeps_expression htoken).step ih
      operand := fun _ _ htoken => (Grammar.keeps_operand htoken).step ih
      primary := fun _ _ htoken => (Grammar.keeps_primary htoken).step ih
      parameter := fun _ _ => Grammar.keeps_parameter.step ih
      pattern := fun _ _ => Grammar.keeps_pattern.step ih
      patterns := fun _ _ => Grammar.keeps_patterns.step ih
      prefersPattern := fun _ _ => Grammar.keeps_prefersPattern.step ih }

/-! Documents -/

namespace Document

variable {rules : Rules} {cursor : Cursor}

theorem namesMethods_faultTree (position : Position) (fault : Fault) :
    ∀ tree ∈ [faultTree position fault], tree.NamesMethods := by
  refine List.forall_mem_singleton.2 ?_
  cases fault <;> exact .leaf

theorem namesMethods_ending (hrules : rules.KeepNames) (hcursor : cursor.NamesMethods) :
    ∀ tree ∈ statementTrees.ending rules cursor, tree.NamesMethods := by
  unfold statementTrees.ending
  split
  · exact namesMethods_faultTree _ _
  · next token next hpeek =>
    have hnext := (Grammar.keeps_peek hrules hcursor hpeek).settle
    have htrees : ∀ tree ∈ next.settle.trees.reverse, tree.NamesMethods := fun tree htree =>
      hnext.trees tree (List.mem_reverse.1 htree)
    split
    · exact htrees
    · exact htrees
    · exact namesMethods_faultTree _ _

theorem namesMethods_statementTrees (hrules : rules.KeepNames) (fuel : Nat)
    (hcursor : cursor.NamesMethods) :
    ∀ tree ∈ statementTrees rules fuel cursor, tree.NamesMethods := by
  induction fuel generalizing cursor with
  | zero => exact namesMethods_faultTree _ _
  | succ fuel ih =>
    have hstart : ({ cursor with trees := [] } : Cursor).NamesMethods :=
      ⟨hcursor.waiting, fun _ htree => absurd htree List.not_mem_nil⟩
    rw [statementTrees]
    split
    · exact namesMethods_faultTree _ _
    · next token next hpeek =>
      have hnext := Grammar.keeps_peek hrules hstart hpeek
      split
      · exact namesMethods_faultTree _ _
      · next last hstep =>
        have hlast := Grammar.keeps_statementStep hrules hnext hstep
        intro tree htree
        rcases List.mem_append.1 htree with htree | htree
        · exact hlast.trees tree (List.mem_reverse.1 htree)
        · exact ih hlast tree htree
      · next last hstep =>
        exact namesMethods_ending hrules (Grammar.keeps_statementStep hrules hnext hstep)

/-- Every method in the tree of a document has a name. -/
theorem namesMethods_tree (document : List Char) : (tree document).NamesMethods :=
  .branch (namesMethods_statementTrees (grammar_keepNames _ _) _ (.ofInput _))

end Document

end PuppetInventory.Syntax
