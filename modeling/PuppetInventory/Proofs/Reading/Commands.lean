import PuppetInventory.Proofs.Reading.Arguments

/-!
Calls without parentheses, and documents with one of them on each line.
-/

namespace PuppetInventory.Syntax

/-- Whether the end of a statement comes next. -/
inductive EndsLine : Input → Prop where
  | finish (position : Position) : EndsLine ⟨[], position⟩
  | lineBreak {c : Char} (rest : List Char) (position : Position) (hc : isPlainWordChar c = true) :
    EndsLine ⟨'\n' :: c :: rest, position⟩

namespace EndsLine

variable {input : Input}

theorem endsAll (h : EndsLine input) : EndsAll true input := by
  intro context hline
  cases h with
  | finish position => exact EndsExpression.finish
  | lineBreak rest position hc => exact EndsExpression.lineBreak hline hc

theorem look
    (h : EndsLine input) (stance : Stance) (hline : stance.lineBreak = true) (rules : Rules)
    (last : Span) (trees : List Tree) :
    ∃ token,
      Runs (Grammar.peek stance) rules (.reading input last trees) token
        (.reading input last trees) ∧
      (token.lexeme = .lineBreak ∨ token.lexeme = .finish) := by
  cases h with
  | finish position => exact ⟨_, Runs.peek_finish, .inr rfl⟩
  | lineBreak rest position hc => exact ⟨_, Runs.peek_lineBreak hline hc, .inl rfl⟩

end EndsLine

/-! Lists of arguments -/

/-- Arguments with a comma before each. -/
def moreWritten (arguments : List Argument) : List Char :=
  arguments.flatMap fun argument => ',' :: ' ' :: argument.write

/-- The trees of arguments behind an argument that ends at a place. -/
def moreTrees (position : Position) : List Argument → List Tree
  | [] => []
  | argument :: rest =>
    argument.tree (position.past [',', ' ']) ::
      moreTrees (argument.stop (position.past [',', ' '])) rest

/-- Where the text of the last argument starts. The argument that ends at `stop` has its text at
`start`. -/
def lastStart (start stop : Position) : List Argument → Position
  | [] => start
  | argument :: rest =>
    let position := stop.past [',', ' ']
    lastStart (argument.start position) (argument.stop position) rest

theorem moreWritten_cons (argument : Argument) (arguments : List Argument) :
    moreWritten (argument :: arguments) =
      ',' :: ' ' :: (argument.write ++ moreWritten arguments) := by
  rw [moreWritten, List.flatMap_cons, List.cons_append, List.cons_append]
  rfl

theorem endsAll_more
    {rest : List Char} {position : Position} (arguments : List Argument)
    (hends : EndsLine ⟨rest, position.past (moreWritten arguments)⟩) :
    EndsAll true ⟨moreWritten arguments ++ rest, position⟩ := by
  cases arguments with
  | nil => exact hends.endsAll
  | cons argument arguments =>
    intro context _
    rw [moreWritten_cons]
    exact EndsExpression.punctuation rfl rfl

namespace Grammar

variable {context : Context} {size depth : Nat} {rest : List Char} {input : Input} {last : Span}
  {trees : List Tree}

theorem repeats_arguments
    (hline : context.lineEnds = true) (harrow : context.arrow = true) (arguments : List Argument)
    {fuel : Nat} (hfuel : arguments.length < fuel) {position : Position} (start : Position)
    (trees : List Tree) (hends : EndsLine ⟨rest, position.past (moreWritten arguments)⟩) :
    Repeats
      (do
        let next ← peek context.behind
        if next.isMark .comma then
          take next
          argument context (← peek (.argument []))
          return true
        else return false)
      fuel (grammar (size + 2) (depth + 3))
      (.reading ⟨moreWritten arguments ++ rest, position⟩ ⟨start, position⟩ trees)
      (.reading ⟨rest, position.past (moreWritten arguments)⟩
        ⟨lastStart start position arguments, position.past (moreWritten arguments)⟩
        ((moreTrees position arguments).reverse ++ trees)) := by
  -- Along the arguments that are left, each of which is read behind a comma.
  induction arguments generalizing position start trees fuel with
  | nil =>
    obtain ⟨fuel, rfl⟩ := Nat.exists_eq_succ_of_ne_zero (Nat.ne_zero_of_lt hfuel)
    obtain ⟨token, hpeek, htoken⟩ :=
      hends.look context.behind hline (grammar (size + 2) (depth + 3)) ⟨start, position⟩ trees
    have hcomma : token.isMark .comma = false := by
      rcases htoken with h | h <;> simp [Token.isMark, h]
    refine Repeats.stop fuel (Runs.bind hpeek ?_)
    rw [hcomma]
    exact Runs.pure false
  | cons argument arguments ih =>
    obtain ⟨fuel, rfl⟩ := Nat.exists_eq_succ_of_ne_zero (Nat.ne_zero_of_lt hfuel)
    let behind := argument.stop (position.past [',', ' '])
    have hbehind : behind = (position.past [',', ' ']).past argument.write :=
      (Argument.past_write _ _).symm
    have hstop : position.past (moreWritten (argument :: arguments)) =
        behind.past (moreWritten arguments) := by
      rw [moreWritten_cons, hbehind]
      simp
    have htrees : (moreTrees position (argument :: arguments)).reverse ++ trees =
        (moreTrees behind arguments).reverse ++
          argument.tree (position.past [',', ' ']) :: trees := by
      simp [moreTrees, behind]
    have hargument : EndsAll context.lineEnds ⟨moreWritten arguments ++ rest, behind⟩ := by
      rw [hline]
      exact endsAll_more arguments (hstop ▸ hends)
    rw [hstop] at hends ⊢
    rw [htrees, moreWritten_cons, List.cons_append, List.cons_append, List.append_assoc]
    refine Repeats.again ?_ (ih (Nat.lt_of_succ_lt_succ hfuel) _ _ hends)
    refine Runs.bind (Runs.peek_comma (Stance.passes_nil _)) ?_
    refine Runs.bind (Runs.take (by rintro heredoc ⟨⟩)) ?_
    refine Runs.bind (Runs.peek_argument argument (Stance.passes_space _) rfl rfl) ?_
    exact Runs.bind (argument_runs harrow _ argument hargument) (Runs.pure true)

end Grammar

/-! Commands -/

/-- A call of a method that is no keyword, with arguments and without parentheses. -/
structure Command where
  name : Name
  notKeyword : Keyword.ofWord? name.chars = none
  first : Argument
  others : List Argument

namespace Command

def write (command : Command) : List Char :=
  command.name.chars ++ ' ' :: (command.first.write ++ moreWritten command.others)

/-- The characters behind the name of a command, with what follows the command. -/
def behindName (command : Command) (rest : List Char) : List Char :=
  ' ' :: (command.first.write ++ (moreWritten command.others ++ rest))

/-- The word that a command starts with, with what follows the command. -/
def token (command : Command) (position : Position) (spaced : Bool) (rest : List Char) : Token :=
  .over .word position spaced command.name.chars (command.behindName rest)

/-- Where the arguments of a command start. -/
def start (command : Command) (position : Position) : Position :=
  (position.past command.name.chars).past [' ']

def stop (command : Command) (position : Position) : Position :=
  (command.first.stop (command.start position)).past (moreWritten command.others)

/-- The last token of a command. -/
def last (command : Command) (position : Position) : Span where
  start := lastStart (command.first.start (command.start position))
    (command.first.stop (command.start position)) command.others
  stop := command.stop position

def argumentList (command : Command) (position : Position) : Tree :=
  .branch .argumentList ⟨command.start position, command.stop position⟩
    (command.first.tree (command.start position) ::
      moreTrees (command.first.stop (command.start position)) command.others)

def tree (command : Command) (position : Position) : Tree :=
  .branch .call ⟨position, command.stop position⟩
    [(Tree.leaf .identifier ⟨position, position.past command.name.chars⟩).withRole .method,
      (command.argumentList position).withRole .arguments]

/-- The first token of its arguments. -/
def opening (command : Command) (position : Position) (rest : List Char) : Token :=
  command.first.token (command.start position) true (moreWritten command.others ++ rest)

theorem past_write (command : Command) (position : Position) :
    position.past command.write = command.stop position := by
  rw [write, stop, start, ← Argument.past_write]
  simp

end Command

namespace Grammar

variable {command : Command} {position : Position}

theorem commandArguments_runs
    (hline : context.lineEnds = true) (harrow : context.arrow = true)
    (hsize : command.others.length < size + 2) (hends : EndsLine ⟨rest, command.stop position⟩) :
    Runs (commandArguments context (command.opening position rest))
      (grammar (size + 2) (depth + 3)) (.reading input last trees) ()
      (.reading ⟨rest, command.stop position⟩ (command.last position)
        ((command.argumentList position).withRole .arguments :: trees)) := by
  have hfirst : EndsAll context.lineEnds
      ⟨moreWritten command.others ++ rest, command.first.stop (command.start position)⟩ := by
    rw [hline]
    exact endsAll_more command.others hends
  have hlist : command.argumentList position =
      .branch .argumentList ⟨command.start position, command.stop position⟩
        ((moreTrees (command.first.stop (command.start position)) command.others).reverse ++
          [command.first.tree (command.start position)]).reverse := by
    simp [Command.argumentList]
  rw [hlist]
  exact Runs.bind
    (Runs.node _ (Runs.bind (argument_runs harrow true command.first hfirst)
      (repeats_arguments hline harrow command.others hsize _ _ hends).repeating))
    (Runs.asRole .arguments _)

theorem commandCall_runs
    (hline : context.lineEnds = true) (hsize : command.others.length < size + 2)
    (origin : Origin) (hends : EndsLine ⟨rest, command.stop position⟩) :
    Runs (commandCall context origin (command.opening position rest))
      (grammar (size + 2) (depth + 3)) (.reading input last trees) .command
      (.reading ⟨rest, command.stop position⟩ (command.last position)
        [.branch .call ⟨origin.start, command.stop position⟩
          ((command.argumentList position).withRole .arguments :: trees).reverse]) := by
  obtain ⟨token, hpeek, htoken⟩ := hends.look (commandContext context true).behind hline
    (grammar (size + 2) (depth + 3)) (command.last position)
    ((command.argumentList position).withRole .arguments :: trees)
  have hblock : token.isMark .openBrace = false ∧ token.isKeyword .do = false := by
    rcases htoken with h | h <;> simp [Token.isMark, Token.isKeyword, h]
  refine Runs.bind (commandArguments_runs hline rfl hsize hends) (Runs.bind hpeek ?_)
  rw [hblock.1, hblock.2]
  exact Runs.bind (Runs.wrap origin .call) (Runs.pure Form.command)

theorem called_runs
    (hcommand : context.command = true) (hline : context.lineEnds = true)
    (hsize : command.others.length < size + 2) (origin : Origin) (tree : Tree)
    (hends : EndsLine ⟨rest, command.stop position⟩) :
    Runs (called context origin .variable) (grammar (size + 2) (depth + 3))
      (.reading ⟨command.behindName rest, position.past command.name.chars⟩ last [tree])
      .command
      (.reading ⟨rest, command.stop position⟩ (command.last position)
        [.branch .call ⟨origin.start, command.stop position⟩
          [tree.withRole .method, (command.argumentList position).withRole .arguments]]) := by
  have hpeek : Runs (peek context.behindName) (grammar (size + 2) (depth + 3))
      (.reading ⟨command.behindName rest, position.past command.name.chars⟩ last [tree])
      (command.opening position rest) _ :=
    Runs.peek_argument command.first (Stance.passes_space _)
      (by simp [Context.behindName, Context.orArgument, hcommand])
      (by simp [Context.behindName, Context.orArgument, hcommand])
  refine Runs.bind hpeek ?_
  have hopening : (command.opening position rest).lexeme = command.first.lexeme := rfl
  have hstray : (command.opening position rest).lexeme ≠ .stray := by
    rcases command.first.lexeme_cases with h | h | h <;> simp [hopening, h]
  have hmark (mark : Mark) : (command.opening position rest).isMark mark = false := by
    rcases command.first.lexeme_cases with h | h | h <;> simp [Token.isMark, hopening, h]
  have hkeyword : (command.opening position rest).isKeyword .do = false := by
    rcases command.first.lexeme_cases with h | h | h <;> simp [Token.isKeyword, hopening, h]
  have hstarts : startsArgument context (command.opening position rest) = true := by
    rcases command.first.lexeme_cases with h | h | h <;>
      simp [startsArgument, Token.startsOperand, hopening, h]
  simp only [hstray, hmark, hkeyword, hcommand, hstarts, decide_false, Bool.and_false,
    Bool.false_and, Bool.and_true, Bool.false_eq_true, if_false, if_true]
  exact Runs.bind (Runs.asRole .method tree) (commandCall_runs hline hsize origin hends)

end Grammar

end PuppetInventory.Syntax
