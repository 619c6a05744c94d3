import PuppetInventory.Proofs.Reading.Commands
import PuppetInventory.Syntax.Document

/-!
Documents with a call without parentheses on each line.
-/

namespace PuppetInventory.Syntax

namespace Grammar

variable {size depth : Nat} {command : Command} {position : Position} {rest : List Char}
  {input : Input} {last : Span} {trees : List Tree}

/-! Statements -/

theorem expression_command
    (closers : List Keyword) (hsize : command.others.length < size + 2) (spaced : Bool)
    (hends : EndsLine ⟨rest, command.stop position⟩) :
    Runs (expression (Context.statement closers) (command.token position spaced rest))
      (grammar (size + 2) (depth + 5)) (.reading input last trees) .command
      (.reading ⟨rest, command.stop position⟩ (command.last position)
        (command.tree position :: trees)) := by
  have hname : Runs (leaf .identifier (command.token position spaced rest))
      (grammar (size + 2) (depth + 3)) (.reading input last []) ()
      (.reading ⟨command.behindName rest, position.past command.name.chars⟩
        ⟨position, position.past command.name.chars⟩
        [.leaf .identifier ⟨position, position.past command.name.chars⟩]) :=
    Runs.leaf .identifier (by rintro heredoc ⟨⟩)
  exact expression_of_simpleOperand [command.tree position] rfl (hends.endsAll _ rfl)
    (.inr (.inl rfl)) (Runs.bind hname (called_runs rfl rfl hsize _ _ hends))

theorem modifier_stop
    (closers : List Keyword) {rules : Rules} {origin : Origin} {after : Input} {form : Form}
    (hform : form ≠ .targets) (hends : EndsLine after) :
    Runs (modifier (Context.statement closers) origin form) rules (.reading after last trees)
      none (.reading after last trees) := by
  let context := Context.statement closers
  obtain ⟨token, hpeek, htoken⟩ :=
    hends.look (if form.isValue then context.behind else context.behindCommand)
      (by split <;> rfl) rules last trees
  unfold modifier
  rw [if_neg hform]
  refine Runs.bind hpeek ?_
  rcases htoken with h | h <;> rw [h] <;> exact Runs.pure none

/-- A statement that starts with a name and is one expression. -/
theorem statement_runs
    (closers : List Keyword) {token : Token} {form : Form} {stop : Position} {final : Span}
    {parts : List Tree} (hlexeme : token.lexeme = .word) (hform : form ≠ .targets)
    (hends : EndsLine ⟨rest, stop⟩)
    (h : Runs (expression (Context.statement closers) token) (grammar (size + 2) depth)
      (.reading input last []) form (.reading ⟨rest, stop⟩ final parts)) :
    Runs (statement (Context.statement closers) token) (grammar (size + 2) (depth + 1))
      (.reading input last []) form (.reading ⟨rest, stop⟩ final parts) := by
  have hmodified : Runs (modified (Context.statement closers) ⟨token.span.start, []⟩ form)
      (grammar (size + 2) (depth + 1)) (.reading ⟨rest, stop⟩ final parts) form
      (.reading ⟨rest, stop⟩ final parts) :=
    Runs.iterate_stop rfl (modifier_stop closers hform hends)
  have hfinish : Runs (finish ⟨token.span.start, []⟩) (grammar (size + 2) (depth + 1))
      (.reading ⟨rest, stop⟩ final parts) () (.reading ⟨rest, stop⟩ final parts) := by
    have hparts : Runs (finish ⟨token.span.start, []⟩) (grammar (size + 2) (depth + 1))
        (.reading ⟨rest, stop⟩ final parts) () (.reading ⟨rest, stop⟩ final (parts ++ [])) :=
      Runs.finish ⟨token.span.start, []⟩
    rwa [List.append_nil] at hparts
  unfold statement
  refine Runs.bind (Runs.start token) ?_
  rw [hlexeme]
  exact Runs.bind Runs.read (Runs.bind (Runs.lift h) (Runs.bind hmodified
    (Runs.bind hfinish (Runs.pure form))))

/-! Lists of statements -/

theorem peek_command
    (closers : List Keyword) {rules : Rules} {blanks : List Char} (hblanks : AreBlanks blanks) :
    Runs (peek (.statement closers)) rules
      (.reading ⟨blanks ++ (command.write ++ rest), position⟩ last trees)
      (command.token (position.past blanks) (!blanks.isEmpty) rest)
      (.reading ⟨blanks ++ (command.write ++ rest), position⟩ last trees) := by
  have hwrite : command.write ++ rest = command.name.chars ++ command.behindName rest := by
    simp [Command.write, Command.behindName]
  rw [hwrite]
  exact Runs.peek_word ⟨hblanks, fun h => by cases h⟩ rfl command.name.isName command.notKeyword rfl

theorem statementEnd_runs
    (closers : List Keyword) (hends : EndsLine ⟨rest, position⟩) (rules : Rules) (last : Span)
    (trees : List Tree) :
    ∃ last', Runs (statementEnd (Context.statement closers)) rules
      (.reading ⟨rest, position⟩ last trees) (!rest.isEmpty)
      (.reading ⟨rest, position⟩ last' trees) := by
  cases hends with
  | finish => exact ⟨last, Runs.bind Runs.peek_finish (Runs.pure false)⟩
  | lineBreak rest position hc =>
    exact ⟨⟨position, position⟩, Runs.bind (Runs.peek_lineBreak rfl hc)
      (Runs.bind (Runs.take (by rintro heredoc ⟨⟩)) (Runs.pure true))⟩

theorem statementStep_runs
    (closers : List Keyword) {token : Token} {form : Form} {stop : Position} {final : Span}
    {parts : List Tree} (hlexeme : token.lexeme = .word) (hform : form ≠ .targets)
    (hends : EndsLine ⟨rest, stop⟩)
    (hpeek : Runs (peek (.statement closers)) (grammar (size + 2) (depth + 1))
      (.reading input last []) token (.reading input last []))
    (h : Runs (expression (Context.statement closers) token) (grammar (size + 2) depth)
      (.reading input last []) form (.reading ⟨rest, stop⟩ final parts)) :
    ∃ last', Runs (statementStep closers) (grammar (size + 2) (depth + 1))
      (.reading input last []) (!rest.isEmpty) (.reading ⟨rest, stop⟩ last' parts) := by
  obtain ⟨last', hend⟩ :=
    statementEnd_runs closers hends (grammar (size + 2) (depth + 1)) final parts
  have hsemicolon : token.isMark .semicolon = false := by simp [Token.isMark, hlexeme]
  have hstarts : startsStatement closers token = true := by
    simp [startsStatement, Token.startsOperand, hlexeme]
  refine ⟨last', Runs.bind hpeek ?_⟩
  rw [hsemicolon, hstarts]
  refine Runs.bind (statement_runs closers hlexeme hform hends h) ?_
  rw [if_neg hform]
  exact hend

end Grammar

/-! Lines -/

/-- Commands on lines of their own, behind another line. -/
def linesWritten (commands : List Command) : List Char :=
  commands.flatMap fun command => '\n' :: command.write

/-- The trees of commands on lines of their own, behind a line that ends at a place. -/
def lineTrees (position : Position) : List Command → List Tree
  | [] => []
  | command :: rest =>
    command.tree (position.past ['\n']) :: lineTrees (command.stop (position.past ['\n'])) rest

theorem linesWritten_cons (command : Command) (commands : List Command) :
    linesWritten (command :: commands) = '\n' :: (command.write ++ linesWritten commands) := by
  rw [linesWritten, List.flatMap_cons, List.cons_append]
  rfl

theorem endsLine_lines (commands : List Command) (position : Position) :
    EndsLine ⟨linesWritten commands, position⟩ := by
  cases commands with
  | nil => exact .finish position
  | cons command commands =>
    obtain ⟨c, chars, hchars, hc⟩ := exists_cons_of_isName command.name.isName
    rw [linesWritten_cons, Command.write, hchars]
    exact .lineBreak _ position hc

namespace Document

variable {rules : Rules} {fuel : Nat} {cursor next after : Cursor} {token : Token}

theorem statementTrees_of_more
    (hpeek : Runs (Grammar.peek (.statement closers)) rules { cursor with trees := [] } token next)
    (hstep : Runs (Grammar.statementStep closers) rules next true after) :
    statementTrees rules (fuel + 1) cursor =
      after.trees.reverse ++ statementTrees rules fuel after := by
  rw [Runs] at hpeek hstep
  simp only [statementTrees, hpeek, hstep]

theorem statementTrees_of_last
    (hpeek : Runs (Grammar.peek (.statement closers)) rules { cursor with trees := [] } token next)
    (hstep : Runs (Grammar.statementStep closers) rules next false after) :
    statementTrees rules (fuel + 1) cursor = statementTrees.ending rules after := by
  rw [Runs] at hpeek hstep
  simp only [statementTrees, hpeek, hstep]

theorem ending_finish (position : Position) (last : Span) (trees : List Tree) :
    statementTrees.ending rules (.reading ⟨[], position⟩ last trees) = trees.reverse := by
  have hpeek : Grammar.peek { words := closers } rules (.reading ⟨[], position⟩ last trees) =
      .ok (.over .finish position false [] [], .reading ⟨[], position⟩ last trees) :=
    Runs.peek_finish
  rw [statementTrees.ending, hpeek]
  rfl

theorem statementTrees_command
    {size depth : Nat} {command : Command} {blanks rest : List Char} {position : Position}
    (hsize : command.others.length < size + 2) (hblanks : AreBlanks blanks)
    (hends : EndsLine ⟨rest, command.stop (position.past blanks)⟩) (fuel : Nat) (last : Span)
    (trees : List Tree) :
    ∃ final,
      statementTrees (grammar (size + 2) (depth + 6)) (fuel + 1)
          (.reading ⟨blanks ++ (command.write ++ rest), position⟩ last trees) =
        command.tree (position.past blanks) ::
          if rest.isEmpty then []
          else statementTrees (grammar (size + 2) (depth + 6)) fuel
            (.reading ⟨rest, command.stop (position.past blanks)⟩ final
              [command.tree (position.past blanks)]) := by
  have hpeek : Runs (Grammar.peek (.statement closers)) (grammar (size + 2) (depth + 6))
      (.reading ⟨blanks ++ (command.write ++ rest), position⟩ last []) _ _ :=
    Grammar.peek_command closers hblanks
  obtain ⟨final, hstep⟩ : ∃ final, Runs (Grammar.statementStep closers)
      (grammar (size + 2) (depth + 6))
      (.reading ⟨blanks ++ (command.write ++ rest), position⟩ last []) (!rest.isEmpty)
      (.reading ⟨rest, command.stop (position.past blanks)⟩ final
        [command.tree (position.past blanks)]) :=
    Grammar.statementStep_runs closers rfl (by decide) hends (Grammar.peek_command closers hblanks)
      (Grammar.expression_command closers hsize _ hends)
  refine ⟨final, ?_⟩
  cases rest with
  | nil => exact (statementTrees_of_last hpeek hstep).trans (ending_finish _ _ _)
  | cons c rest => exact statementTrees_of_more hpeek hstep

theorem statementTrees_lines
    {size depth : Nat} (command : Command) (commands : List Command)
    (hsize : ∀ other ∈ command :: commands, other.others.length < size + 2)
    {fuel : Nat} (hfuel : commands.length < fuel) {blanks : List Char} (hblanks : AreBlanks blanks)
    (position : Position) (last : Span) (trees : List Tree) :
    statementTrees (grammar (size + 2) (depth + 6)) fuel
        (.reading ⟨blanks ++ (command.write ++ linesWritten commands), position⟩ last trees) =
      command.tree (position.past blanks) ::
        lineTrees (command.stop (position.past blanks)) commands := by
  -- Along the lines: each but the last is read up to the next one.
  induction commands generalizing command fuel blanks position last trees with
  | nil =>
    obtain ⟨fuel, rfl⟩ := Nat.exists_eq_succ_of_ne_zero (Nat.ne_zero_of_lt hfuel)
    obtain ⟨final, hcommand⟩ := statementTrees_command (hsize command List.mem_cons_self) hblanks
      (endsLine_lines [] (command.stop (position.past blanks))) fuel last trees
    exact hcommand
  | cons other commands ih =>
    obtain ⟨fuel, rfl⟩ := Nat.exists_eq_succ_of_ne_zero (Nat.ne_zero_of_lt hfuel)
    obtain ⟨final, hcommand⟩ := statementTrees_command (hsize command List.mem_cons_self) hblanks
      (endsLine_lines (other :: commands) (command.stop (position.past blanks))) fuel last trees
    have hrest := ih other (fun _ hother => hsize _ (List.mem_cons_of_mem command hother))
      (Nat.lt_of_succ_lt_succ hfuel) (.inr (.inr rfl)) (command.stop (position.past blanks)) final
      [command.tree (position.past blanks)]
    rw [hcommand, linesWritten_cons]
    exact congrArg _ hrest

/-! Documents -/

/-- Commands on lines of their own. -/
def written : List Command → List Char
  | [] => []
  | command :: commands => command.write ++ linesWritten commands

def commandTrees : List Command → List Tree
  | [] => []
  | command :: commands => command.tree .start :: lineTrees (command.stop .start) commands

theorem length_moreWritten (arguments : List Argument) :
    arguments.length ≤ (moreWritten arguments).length := by
  induction arguments with
  | nil => exact Nat.le_refl 0
  | cons argument arguments ih =>
    rw [moreWritten_cons]
    simp only [List.length_cons, List.length_append]
    omega

theorem length_others (command : Command) : command.others.length ≤ command.write.length := by
  have hmore := length_moreWritten command.others
  simp only [Command.write, List.length_append, List.length_cons]
  omega

theorem length_linesWritten (commands : List Command) :
    commands.length ≤ (linesWritten commands).length ∧
      ∀ command ∈ commands, command.others.length ≤ (linesWritten commands).length := by
  induction commands with
  | nil => exact ⟨Nat.le_refl 0, fun _ h => by cases h⟩
  | cons first commands ih =>
    rw [linesWritten_cons]
    simp only [List.length_cons, List.length_append]
    refine ⟨by omega, fun command hcommand => ?_⟩
    rcases List.mem_cons.1 hcommand with rfl | hcommand
    · have hfirst := length_others command
      omega
    · have hrest := ih.2 command hcommand
      omega

/-- No byte order mark comes before a name. -/
theorem textStart_name {word : List Char} (h : isName word = true) (rest : List Char) :
    textStart (word ++ rest) = ⟨word ++ rest, .start⟩ := by
  obtain ⟨c, chars, rfl, hc⟩ := exists_cons_of_isName h
  have hascii := toNat_lt_of_isPlainWordChar hc
  exact if_neg (by omega)

theorem textStart_written (commands : List Command) :
    textStart (written commands) = ⟨written commands, .start⟩ := by
  cases commands with
  | nil => rfl
  | cons command commands =>
    rw [written, Command.write, List.append_assoc]
    exact textStart_name command.name.isName _

/-- A document of commands is read as the trees of the commands. -/
theorem tree_written (commands : List Command) :
    tree (written commands) =
      .branch .program ⟨.start, Position.start.past (written commands)⟩
        (commandTrees commands) := by
  -- A command needs six levels of the bound on nesting.
  have hnesting : nesting (written commands) = (8 * (written commands).length + 10) + 6 := rfl
  have htrees : statementTrees
      (grammar ((written commands).length + 2) (nesting (written commands)))
      ((written commands).length + 2) (.ofInput ⟨written commands, .start⟩) =
        commandTrees commands := by
    rw [hnesting]
    cases commands with
    | nil =>
      have hstep : Runs (Grammar.statementStep closers)
          (grammar ((written []).length + 2) (8 * (written []).length + 10 + 6))
          (.reading ⟨[], .start⟩ ⟨.start, .start⟩ []) false
          (.reading ⟨[], .start⟩ ⟨.start, .start⟩ []) :=
        Runs.bind Runs.peek_finish (Runs.pure false)
      exact (statementTrees_of_last Runs.peek_finish hstep).trans (ending_finish _ _ _)
    | cons command commands =>
      have hlines := length_linesWritten commands
      have hfirst := length_others command
      have hlength : (written (command :: commands)).length =
          command.write.length + (linesWritten commands).length := List.length_append
      have hsize : ∀ other ∈ command :: commands,
          other.others.length < (written (command :: commands)).length + 2 := by
        intro other hother
        rcases List.mem_cons.1 hother with rfl | hother
        · omega
        · have hother := hlines.2 other hother
          omega
      exact statementTrees_lines command commands hsize (by omega) (.inl rfl) .start
        ⟨.start, .start⟩ []
  have hend := Input.skip_append (written commands) [] .start
  rw [List.append_nil] at hend
  rw [tree, textStart_written, htrees, hend]

end Document

end PuppetInventory.Syntax
