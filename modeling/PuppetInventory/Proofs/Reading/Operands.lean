import PuppetInventory.Proofs.Reading.Quoted

/-!
Operands that stand alone. Where the end of an expression comes behind an operand, no rule for
expressions goes on, and the operand is the whole expression.
-/

namespace PuppetInventory.Syntax

/-! The end of an expression -/

/-- Whether no rule for expressions goes on with a token, whatever surrounds the expression. -/
def Lexeme.endsItem : Lexeme → Bool
  | .lineBreak => true
  | .finish => true
  | .mark .comma => true
  | .mark .closeParen => true
  | .mark .closeBracket => true
  | .mark .closeBrace => true
  | _ => false

/-- Whether no rule for expressions goes on with a token. An arrow makes a key of the expression, or
it starts a pattern. -/
def Lexeme.endsExpression (context : Context) (lexeme : Lexeme) : Bool :=
  lexeme.endsItem || lexeme = .mark .arrow && (context.arrow || !context.command)

/-- The stances in which rules for expressions look for more. -/
def Context.looks (context : Context) : List Stance :=
  [context.behind, { context.behind with text := true }, context.behindTarget,
    context.behindCommand]

/-- Whether the end of an expression comes next. -/
structure EndsExpression (context : Context) (input : Input) : Prop where
  look : ∀ stance ∈ context.looks, ∀ rules last trees, ∃ token,
    Runs (Grammar.peek stance) rules (.reading input last trees) token
      (.reading input last trees) ∧
    token.lexeme.endsExpression context = true
  /-- No colon comes right behind the expression, which would make it a key. -/
  noColon : ∀ rules last trees, ∃ token,
    Runs (Grammar.peek {}) rules (.reading input last trees) token (.reading input last trees) ∧
    (token.isMark .colon && !token.spaced) = false

section

variable {context : Context} {lexeme : Lexeme} {rest : List Char} {position : Position}

theorem Lexeme.cases_of_endsItem (h : lexeme.endsItem = true) :
    lexeme = .lineBreak ∨ lexeme = .finish ∨ lexeme = .mark .comma ∨
      lexeme = .mark .closeParen ∨ lexeme = .mark .closeBracket ∨ lexeme = .mark .closeBrace := by
  unfold endsItem at h
  split at h <;> first
    | (cases h; done)
    | simp

theorem Lexeme.endsExpression_of_endsItem (h : lexeme.endsItem = true) :
    lexeme.endsExpression context = true := by
  rw [endsExpression, h, Bool.true_or]

theorem Lexeme.cases_of_endsExpression (h : lexeme.endsExpression context = true) :
    (lexeme = .lineBreak ∨ lexeme = .finish ∨ lexeme = .mark .comma ∨
      lexeme = .mark .closeParen ∨ lexeme = .mark .closeBracket ∨ lexeme = .mark .closeBrace) ∨
    lexeme = .mark .arrow ∧ (context.arrow || !context.command) = true := by
  rw [endsExpression, Bool.or_eq_true, Bool.and_eq_true, decide_eq_true_eq] at h
  exact h.imp_left cases_of_endsItem

theorem Context.lineBreak_of_mem_looks {stance : Stance} (h : stance ∈ context.looks) :
    stance.lineBreak = context.lineEnds := by
  simp only [looks, List.mem_cons, List.not_mem_nil, or_false] at h
  rcases h with rfl | rfl | rfl | rfl <;> rfl

theorem Context.name_of_mem_looks {stance : Stance} (h : stance ∈ context.looks) :
    stance.name = false := by
  simp only [looks, List.mem_cons, List.not_mem_nil, or_false] at h
  rcases h with rfl | rfl | rfl | rfl <;> rfl

namespace EndsExpression

theorem finish : EndsExpression context ⟨[], position⟩ where
  look _ _ _ _ _ := ⟨_, Runs.peek_finish, rfl⟩
  noColon _ _ _ := ⟨_, Runs.peek_finish, rfl⟩

theorem lineBreak {c : Char} (hline : context.lineEnds = true) (hc : isPlainWordChar c = true) :
    EndsExpression context ⟨'\n' :: c :: rest, position⟩ where
  look _ hstance _ _ _ :=
    ⟨_, Runs.peek_lineBreak ((Context.lineBreak_of_mem_looks hstance).trans hline) hc, rfl⟩
  noColon _ _ _ := ⟨_, Runs.peek_stray (.inr (.inr rfl)) hc, rfl⟩

theorem punctuation {c : Char} {mark : Mark} (hmark : punctuation? c = some mark)
    (hends : (Lexeme.mark mark).endsItem = true) :
    EndsExpression context ⟨c :: rest, position⟩ where
  look stance _ _ _ _ :=
    ⟨_, Runs.peek_punctuation stance.passes_nil hmark, Lexeme.endsExpression_of_endsItem hends⟩
  noColon _ _ _ := by
    refine ⟨_, Runs.peek_punctuation (Stance.passes_nil {}) hmark, ?_⟩
    have hcolon : mark ≠ .colon := by
      rintro rfl
      cases hends
    simp [Token.isMark, Token.over, hcolon]

theorem arrow (harrow : (context.arrow || !context.command) = true) :
    EndsExpression context ⟨' ' :: '=' :: '>' :: rest, position⟩ where
  look stance hstance _ _ _ :=
    ⟨_, Runs.peek_arrow stance.passes_space (Context.name_of_mem_looks hstance), harrow⟩
  noColon _ _ _ := ⟨_, Runs.peek_arrow (Stance.passes_space {}) rfl, rfl⟩

end EndsExpression

end

/-- Whether no expression goes on, whatever surrounds it, if lines end it as told. -/
def EndsAll (lineEnds : Bool) (input : Input) : Prop :=
  ∀ context : Context, context.lineEnds = lineEnds → EndsExpression context input

theorem EndsAll.look
    {context : Context} {input : Input} (h : EndsAll context.lineEnds input) (rules : Rules)
    (last : Span) (trees : List Tree) :
    ∃ token,
      Runs (Grammar.peek context.behind) rules (.reading input last trees) token
        (.reading input last trees) ∧
      token.lexeme.endsItem = true := by
  -- A context in which an arrow starts a pattern looks for the same tokens.
  obtain ⟨token, hpeek, htoken⟩ :=
    (h { context with arrow := false, command := true } rfl).look context.behind
      List.mem_cons_self rules last trees
  have harrow : (false || !true) = false := rfl
  rw [Lexeme.endsExpression, harrow, Bool.and_false, Bool.or_false] at htoken
  exact ⟨token, hpeek, htoken⟩

/-! Rules that stop -/

/-- Whether an operand that starts with a token is no sign and no word that applies to another. -/
def Lexeme.startsPrimary : Lexeme → Bool
  | .mark .openBracket => true
  | .mark .openBrace => true
  | .mark _ => false
  | .keyword .nil => true
  | .keyword _ => false
  | _ => true

/-- Whether an operand is a value that nothing is assigned to, or a call without parentheses.
Between commas, no value is assigned to a single target either. -/
def Form.standsAlone (context : Context) (form : Form) : Prop :=
  form = .value ∨ form = .command ∨ form = .target ∧ context.comma = true

namespace Grammar

variable {context : Context} {origin : Origin} {form : Form} {rules : Rules} {after : Input}
  {final : Span} {parts trees : List Tree}

theorem chainStep_stop
    (hends : EndsExpression context after) (hform : form.standsAlone context) :
    Runs (chainStep context origin form) rules (.reading after final parts) none
      (.reading after final parts) := by
  have hstop (stance : Stance) (hstance : stance ∈ context.looks) :
      Runs (do
        let token ← peek stance
        if selects token then
          asRole .receiver
          take token
          return some (← methodCall context origin
            (if token.isMark .scope then .scope else .dot))
        else if token.isMark .openIndex then
          return some (← elementReference context origin token)
        else return none) rules (.reading after final parts) none
        (.reading after final parts) := by
    obtain ⟨token, hpeek, htoken⟩ := hends.look stance hstance rules final parts
    refine Runs.bind hpeek ?_
    have hselects : selects token = false ∧ token.isMark .openIndex = false := by
      rcases Lexeme.cases_of_endsExpression htoken with (h | h | h | h | h | h) | ⟨h, -⟩ <;>
        simp [selects, Token.isMark, h]
    rw [hselects.1, hselects.2]
    exact Runs.pure none
  rcases hform with rfl | rfl | ⟨rfl, -⟩
  · exact hstop context.behind (by simp [Context.looks])
  · exact Runs.pure none
  · exact hstop context.behindTarget (by simp [Context.looks])

theorem operation_stop (hends : EndsExpression context after) :
    Runs (operation context origin form) rules (.reading after final parts) none
      (.reading after final parts) := by
  unfold operation
  split
  · exact Runs.pure none
  · obtain ⟨token, hpeek, htoken⟩ :=
      hends.look context.behind List.mem_cons_self rules final parts
    refine Runs.bind hpeek ?_
    rcases Lexeme.cases_of_endsExpression htoken with (h | h | h | h | h | h) | ⟨h, -⟩ <;>
      rw [h] <;> exact Runs.pure none

theorem held_stop (hends : EndsExpression context after) :
    Runs (held context origin form) rules (.reading after final parts) form
      (.reading after final parts) := by
  unfold held
  split
  · next hcommand =>
    obtain ⟨token, hpeek, htoken⟩ :=
      hends.look context.behind List.mem_cons_self rules final parts
    refine Runs.bind hpeek ?_
    have hgoes : (token.isMark .arrow && !context.arrow || token.isKeyword .in) = false := by
      rw [Bool.and_eq_true] at hcommand
      rcases Lexeme.cases_of_endsExpression htoken with (h | h | h | h | h | h) | ⟨h, harrow⟩ <;>
        simp_all [Token.isMark, Token.isKeyword]
    rw [hgoes]
    exact Runs.pure form
  · exact Runs.pure form

theorem conjunction_stop (hends : EndsExpression context after) :
    Runs (conjunction context origin form) rules (.reading after final parts) none
      (.reading after final parts) := by
  unfold conjunction
  split
  · exact Runs.pure none
  · obtain ⟨token, hpeek, htoken⟩ :=
      hends.look (if form.isValue then context.behind else context.behindCommand)
        (by split <;> simp [Context.looks]) rules final parts
    refine Runs.bind hpeek ?_
    have hgoes : (token.isKeyword .and || token.isKeyword .or) = false := by
      rcases Lexeme.cases_of_endsExpression htoken with (h | h | h | h | h | h) | ⟨h, -⟩ <;>
        simp [Token.isKeyword, h]
    rw [hgoes]
    exact Runs.pure none

theorem more_stop (hends : EndsExpression context after) (several : Bool) :
    Runs (textLiteral.more { context.behind with text := true } several) rules
      (.reading after final parts) none (.reading after final parts) := by
  obtain ⟨token, hpeek, htoken⟩ :=
    hends.look { context.behind with text := true } (by simp [Context.looks]) rules final parts
  refine Runs.bind hpeek ?_
  rcases Lexeme.cases_of_endsExpression htoken with (h | h | h | h | h | h) | ⟨h, -⟩ <;>
    rw [h] <;> exact Runs.pure none

theorem assignable_stop
    (hends : EndsExpression context after) (hform : form.standsAlone context) :
    Runs (assignable context origin form) rules (.reading after final parts) form
      (.reading after final parts) := by
  rcases hform with rfl | rfl | ⟨rfl, hcomma⟩
  · exact Runs.pure Form.value
  · exact Runs.pure Form.command
  · obtain ⟨token, hpeek, htoken⟩ :=
      hends.look context.behindTarget (by simp [Context.looks]) rules final parts
    refine Runs.bind hpeek ?_
    have hgoes : token.isMark .assign = false ∧ token.isMark .operatorAssign = false := by
      rcases Lexeme.cases_of_endsExpression htoken with (h | h | h | h | h | h) | ⟨h, -⟩ <;>
        simp [Token.isMark, h]
    rw [hgoes.1, hgoes.2, hcomma, Bool.not_true, Bool.and_false]
    exact Runs.pure Form.target

/-! Operands as expressions -/

variable {size depth : Nat} {token : Token} {input : Input} {last : Span}

theorem primary_of_simpleOperand
    (hsize : rules.size = size + 1) (hends : EndsExpression context after)
    (hform : form.standsAlone context)
    (h : Runs (simpleOperand context ⟨token.span.start, trees⟩ token) rules
      (.reading input last []) form (.reading after final parts)) :
    Runs (primary context token) rules (.reading input last trees) form
      (.reading after final (parts ++ trees)) := by
  have hchain : Runs (chained context ⟨token.span.start, trees⟩ form) rules
      (.reading after final parts) form (.reading after final parts) :=
    Runs.iterate_stop hsize (chainStep_stop hends hform)
  have hlinked : Runs (linked context ⟨token.span.start, trees⟩ form) rules
      (.reading after final parts) form (.reading after final parts) := by
    refine Runs.bind hchain ?_
    rcases hform with rfl | rfl | ⟨rfl, -⟩ <;> exact Runs.pure _
  exact Runs.bind (Runs.start token)
    (Runs.bind h (Runs.bind hlinked (Runs.bind (Runs.finish _) (Runs.pure form))))

theorem operand_of_primary
    (hlexeme : token.lexeme.startsPrimary = true) (hends : EndsExpression context after)
    (hform : form.standsAlone context)
    (h : Runs (primary context token) (grammar size depth) (.reading input last []) form
      (.reading after final parts)) :
    Runs (operand context token) (grammar size (depth + 1)) (.reading input last trees) form
      (.reading after final (parts ++ trees)) := by
  have hrule : Runs
      (do
        let origin ← start token
        let form ← (← read).primary context token
        let form ← assignable context origin form
        finish origin
        return form)
      (grammar size (depth + 1)) (.reading input last trees) form
      (.reading after final (parts ++ trees)) :=
    Runs.bind (Runs.start token) (Runs.bind Runs.read (Runs.bind (Runs.lift h)
      (Runs.bind (assignable_stop hends hform) (Runs.bind (Runs.finish _) (Runs.pure form)))))
  unfold operand
  split <;> first
    | exact hrule
    | (next hmark => rw [hmark] at hlexeme; cases hlexeme)

theorem joined_of_operand
    (hends : EndsExpression context after)
    (h : Runs (operand context token) (grammar (size + 1) depth) (.reading input last []) form
      (.reading after final parts)) :
    Runs (joined context origin token) (grammar (size + 1) (depth + 1)) (.reading input last [])
      form (.reading after final parts) :=
  Runs.bind Runs.read (Runs.bind (Runs.lift h)
    (Runs.iterate_stop rfl (operation_stop hends)))

theorem expression_of_operand
    (hends : EndsExpression context after)
    (h : Runs (operand context token) (grammar (size + 1) depth) (.reading input last []) form
      (.reading after final parts)) :
    Runs (expression context token) (grammar (size + 1) (depth + 1)) (.reading input last trees)
      form (.reading after final (parts ++ trees)) := by
  have hmatched : Runs (matched context token) (grammar (size + 1) (depth + 1))
      (.reading input last []) form (.reading after final (parts ++ [])) :=
    Runs.bind (Runs.start token) (Runs.bind (joined_of_operand hends h)
      (Runs.bind (held_stop hends) (Runs.bind (Runs.finish _) (Runs.pure form))))
  rw [List.append_nil] at hmatched
  exact Runs.bind (Runs.start token) (Runs.bind hmatched
    (Runs.bind (Runs.iterate_stop rfl (conjunction_stop hends))
      (Runs.bind (Runs.finish _) (Runs.pure form))))

/-- An operand that stands alone is the whole expression. -/
theorem expression_of_simpleOperand
    (parts : List Tree) (hlexeme : token.lexeme.startsPrimary = true)
    (hends : EndsExpression context after) (hform : form.standsAlone context)
    (h : Runs (simpleOperand context ⟨token.span.start, []⟩ token) (grammar (size + 1) depth)
      (.reading input last []) form (.reading after final parts)) :
    Runs (expression context token) (grammar (size + 1) (depth + 2)) (.reading input last trees)
      form (.reading after final (parts ++ trees)) := by
  have hprimary := primary_of_simpleOperand (grammar_size _ _) hends hform h
  have hoperand : Runs (operand context token) (grammar (size + 1) (depth + 1))
      (.reading input last []) form (.reading after final ((parts ++ []) ++ [])) :=
    operand_of_primary hlexeme hends hform hprimary
  rw [List.append_nil, List.append_nil] at hoperand
  exact expression_of_operand hends hoperand

/-! Texts and symbols -/

variable {rest : List Char} {position : Position}

theorem textLiteral_quoted
    (hsize : rules.size = size + 2) (spaced : Bool) (text : List Char)
    (hends : EndsExpression context ⟨rest, position.past (quoted text)⟩) :
    Runs (textLiteral context .singleQuoted (.quote position spaced text rest)) rules
      (.reading input last trees) false (.behindText position text rest trees) :=
  Runs.bind (Runs.start _) (Runs.bind (literal_quoted hsize spaced text)
    (Runs.bind (Runs.iterate_stop hsize (more_stop hends false))
      (Runs.bind (Runs.finish _) (Runs.pure false))))

theorem expression_quoted
    (spaced : Bool) (text : List Char)
    (hends : EndsExpression context ⟨rest, position.past (quoted text)⟩) :
    Runs (expression context (.quote position spaced text rest)) (grammar (size + 2) (depth + 2))
      (.reading input last trees) .value (.behindText position text rest trees) :=
  expression_of_simpleOperand [textTree position text] rfl hends (.inl rfl)
    (Runs.bind (textLiteral_quoted (grammar_size _ _) spaced text hends) (Runs.pure Form.value))

theorem expression_symbol
    (spaced : Bool) (chars : List Char)
    (hends : EndsExpression context ⟨rest, position.past chars⟩) :
    Runs (expression context (.over .symbol position spaced chars rest))
      (grammar (size + 2) (depth + 2)) (.reading input last trees) .value
      (.reading ⟨rest, position.past chars⟩ ⟨position, position.past chars⟩
        (.leaf .simpleSymbol ⟨position, position.past chars⟩ :: trees)) :=
  expression_of_simpleOperand [.leaf .simpleSymbol ⟨position, position.past chars⟩] rfl hends
    (.inl rfl)
    (Runs.bind (Runs.leaf .simpleSymbol (by rintro heredoc ⟨⟩)) (Runs.pure Form.value))

end Grammar

end PuppetInventory.Syntax
