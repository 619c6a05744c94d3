import PuppetInventory.Syntax.Grammar.Statements

/-!
Runs of rules. What the frame of the grammar does at a cursor that announces nothing is said once
here; the rules themselves are followed with these steps.
-/

namespace PuppetInventory.Syntax

variable {α β : Type} {rules : Rules} {cursor next : Cursor} {answer : α}

@[simp]
theorem grammar_size (size depth : Nat) : (grammar size depth).size = size := by
  cases depth <;> rfl

/-- A rule succeeds at a cursor with an answer and leaves another cursor. -/
def Runs (rule : Parse α) (rules : Rules) (cursor : Cursor) (answer : α) (next : Cursor) : Prop :=
  rule rules cursor = .ok (answer, next)

namespace Runs

theorem pure (answer : α) : Runs (Pure.pure answer) rules cursor answer cursor :=
  rfl

theorem pure_of_eq {found : α} (h : found = answer) :
    Runs (Pure.pure found) rules cursor answer cursor := by
  rw [h]
  exact pure answer

theorem bind
    {rule : Parse α} {continuation : α → Parse β} {result : β} {last : Cursor}
    (hrule : Runs rule rules cursor answer next)
    (hrest : Runs (continuation answer) rules next result last) :
    Runs (rule >>= continuation) rules cursor result last := by
  have hbind : (rule >>= continuation) rules cursor =
      Except.bind (rule rules cursor) fun found => continuation found.1 rules found.2 := rfl
  rw [Runs, hbind, hrule]
  exact hrest

theorem getCursor : Runs Syntax.cursor rules cursor cursor cursor :=
  rfl

theorem withCursor (change : Cursor → Cursor) :
    Runs (Syntax.withCursor change) rules cursor () (change cursor) :=
  rfl

theorem read : Runs (MonadReader.read : Parse Rules) rules cursor rules cursor :=
  rfl

/-- A rule that is taken from the rules as they stand. -/
theorem lift {step : Step α} (h : step cursor = .ok (answer, next)) :
    Runs (liftM step) rules cursor answer next :=
  h

theorem foresees {rule : Parse Bool} {answer : Bool} (h : Runs rule rules cursor answer next) :
    Runs (Syntax.foresees rule) rules cursor answer cursor := by
  rw [Runs, Syntax.foresees, h]

theorem blaming {rule : Parse α} (position : Position) (h : Runs rule rules cursor answer next) :
    Runs (Syntax.blaming position rule) rules cursor answer next := by
  rw [Runs, Syntax.blaming, h]

/-! Repetition -/

theorem iterateBy_stop
    {step : α → Parse (Option α)} {found : α} (fuel : Nat)
    (hstep : Runs (step found) rules cursor none next) :
    Runs (iterateBy step (fuel + 1) found) rules cursor found next :=
  bind hstep (pure found)

theorem iterateBy_step
    {step : α → Parse (Option α)} {found more : α} {fuel : Nat} {last : Cursor}
    (hstep : Runs (step found) rules cursor (some more) next)
    (hrest : Runs (iterateBy step fuel more) rules next answer last) :
    Runs (iterateBy step (fuel + 1) found) rules cursor answer last :=
  bind hstep hrest

theorem iterate
    {step : α → Parse (Option α)} {found : α}
    (h : Runs (iterateBy step rules.size found) rules cursor answer next) :
    Runs (Syntax.iterate step found) rules cursor answer next :=
  bind read h

theorem iterate_stop
    {step : α → Parse (Option α)} {found : α} {size : Nat} (hsize : rules.size = size + 1)
    (hstep : Runs (step found) rules cursor none next) :
    Runs (Syntax.iterate step found) rules cursor found next :=
  iterate (hsize ▸ iterateBy_stop size hstep)

end Runs

/-- A rule that is repeated as long as it says so stops before a bound is reached. -/
def Repeats (rule : Parse Bool) (fuel : Nat) (rules : Rules) (cursor next : Cursor) : Prop :=
  Runs (iterateBy (fun _ => do if ← rule then return some () else return none) fuel ()) rules
    cursor () next

namespace Repeats

variable {rule : Parse Bool}

theorem stop (fuel : Nat) (hrule : Runs rule rules cursor false next) :
    Repeats rule (fuel + 1) rules cursor next :=
  Runs.iterateBy_stop fuel (Runs.bind hrule (Runs.pure none))

theorem again
    {fuel : Nat} {last : Cursor} (hrule : Runs rule rules cursor true next)
    (hrest : Repeats rule fuel rules next last) : Repeats rule (fuel + 1) rules cursor last :=
  Runs.iterateBy_step (Runs.bind hrule (Runs.pure (some ()))) hrest

theorem repeating (h : Repeats rule rules.size rules cursor next) :
    Runs (Syntax.repeating rule) rules cursor () next :=
  Runs.iterate h

end Repeats

/-! Cursors that announce nothing -/

/-- A cursor with no heredoc ahead of it and nothing that waits. -/
def Cursor.reading (input : Input) (last : Span) (trees : List Tree) : Cursor where
  input := input
  last := last
  heredocs := []
  inBody := false
  waiting := []
  trees := trees

namespace Runs

variable {input stop : Input} {last final : Span} {trees parts : List Tree} {token : Token}

theorem pass_reading
    (input : Input) (last : Span) (trees : List Tree)
    (h : ∀ heredoc, token.lexeme ≠ .heredoc heredoc) :
    (Cursor.reading input last trees).pass token = .reading token.next token.span trees := by
  unfold Cursor.pass
  split
  · next heredoc heq => exact absurd heq (h heredoc)
  · rfl

theorem take (h : ∀ heredoc, token.lexeme ≠ .heredoc heredoc) :
    Runs (Syntax.take token) rules (.reading input last trees) ()
      (.reading token.next token.span trees) := by
  rw [← pass_reading input last trees h]
  exact withCursor _

theorem leaf (kind : Kind) (h : ∀ heredoc, token.lexeme ≠ .heredoc heredoc) :
    Runs (Syntax.leaf kind token) rules (.reading input last trees) ()
      (.reading token.next token.span (.leaf kind token.span :: trees)) := by
  have hpass := pass_reading input last trees h
  have hpush : Cursor.reading token.next token.span (.leaf kind token.span :: trees) =
      ((Cursor.reading input last trees).pass token).push (.leaf kind token.span) := by
    rw [hpass]
    rfl
  rw [hpush]
  exact withCursor _

theorem part (kind : Kind) (stop : Input) :
    Runs (Syntax.part kind stop) rules (.reading input last trees) ()
      (.reading stop last (.leaf kind ⟨input.position, stop.position⟩ :: trees)) :=
  rfl

theorem start (token : Token) :
    Runs (Syntax.start token) rules (.reading input last trees) ⟨token.span.start, trees⟩
      (.reading input last []) :=
  rfl

theorem wrap (origin : Origin) (kind : Kind) :
    Runs (Syntax.wrap origin kind) rules (.reading input last trees) ()
      (.reading input last [.branch kind ⟨origin.start, last.stop⟩ trees.reverse]) :=
  rfl

theorem finish (origin : Origin) :
    Runs (Syntax.finish origin) rules (.reading input last trees) ()
      (.reading input last (trees ++ origin.around)) :=
  rfl

theorem asRole (role : Role) (tree : Tree) :
    Runs (Syntax.asRole role) rules (.reading input last (tree :: trees)) ()
      (.reading input last (tree.withRole role :: trees)) :=
  rfl

theorem node
    {kind : Kind} {rule : Parse α} (parts : List Tree)
    (h : Runs rule rules (.reading input last []) answer (.reading stop final parts)) :
    Runs (Syntax.node kind token rule) rules (.reading input last trees) answer
      (.reading stop final
        (.branch kind ⟨token.span.start, final.stop⟩ parts.reverse :: trees)) :=
  bind (start token) (bind h (bind (wrap _ kind) (bind (finish _) (pure answer))))

end Runs

end PuppetInventory.Syntax
