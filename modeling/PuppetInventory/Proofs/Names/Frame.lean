import PuppetInventory.Proofs.Names.Tokens
import PuppetInventory.Proofs.Reading.Frame

/-!
Trees in which every method has a name, and rules that build no others. A rule is judged by what
holds of a cursor before it and behind it; the judgement is followed here through all that rules are
built from.
-/

namespace PuppetInventory.Syntax

/-- No node of a tree that plays the part of a method is empty. -/
inductive Tree.NamesMethods : Tree → Prop
  | node {tag : Tag} {children : List Tree}
    (hmethod : tag.role = .method → tag.span.isEmpty = false)
    (hchildren : ∀ child ∈ children, child.NamesMethods) : NamesMethods (.node tag children)

namespace Tree.NamesMethods

variable {kind : Kind} {span : Span} {role : Role} {tree : Tree} {children : List Tree}

theorem of_child {named : Bool} (h : ∀ child ∈ children, child.NamesMethods) :
    (Tree.node ⟨kind, .child, named, span⟩ children).NamesMethods := by
  refine .node (fun hrole => ?_) h
  cases hrole

theorem branch (h : ∀ child ∈ children, child.NamesMethods) :
    (Tree.branch kind span children).NamesMethods :=
  of_child h

theorem leaf : (Tree.leaf kind span).NamesMethods :=
  branch fun _ hchild => absurd hchild List.not_mem_nil

theorem endLeaf : (Tree.endLeaf span).NamesMethods :=
  of_child fun _ hchild => absurd hchild List.not_mem_nil

theorem withRole (h : tree.NamesMethods) (hrole : role = .method → tree.span.isEmpty = false) :
    (tree.withRole role).NamesMethods := by
  cases h with
  | node hmethod hchildren => exact .node hrole hchildren

end Tree.NamesMethods

/-- What has been read and what waits names its methods. -/
structure Cursor.NamesMethods (cursor : Cursor) : Prop where
  waiting : ∀ tree ∈ cursor.waiting, tree.NamesMethods
  trees : ∀ tree ∈ cursor.trees, tree.NamesMethods

/-- What has been read names its methods, and its last tree can be the name of one. -/
structure Cursor.EndsInName (cursor : Cursor) : Prop extends cursor.NamesMethods where
  last : ∀ tree ∈ cursor.trees.head?, tree.span.isEmpty = false

namespace Cursor.NamesMethods

variable {cursor : Cursor} {token : Token} {tree : Tree}

theorem settle (h : cursor.NamesMethods) : cursor.settle.NamesMethods where
  waiting := fun _ htree => absurd htree List.not_mem_nil
  trees := fun tree htree => (List.mem_append.1 htree).elim (h.waiting tree) (h.trees tree)

theorem pass (h : cursor.NamesMethods) : (cursor.pass token).NamesMethods :=
  ⟨h.settle.waiting, h.settle.trees⟩

theorem push (h : cursor.NamesMethods) (htree : tree.NamesMethods) :
    (cursor.push tree).NamesMethods where
  waiting := h.waiting
  trees := List.forall_mem_cons.2 ⟨htree, h.trees⟩

theorem ofInput (input : Input) : (Cursor.ofInput input).NamesMethods where
  waiting := fun _ htree => absurd htree List.not_mem_nil
  trees := fun _ htree => absurd htree List.not_mem_nil

end Cursor.NamesMethods

/-- The tree around a place names its methods. -/
def Origin.NamesMethods (origin : Origin) : Prop :=
  ∀ tree ∈ origin.around, tree.NamesMethods

/-! Judging rules -/

/-- A step that leaves no nameless methods where there were none. -/
def Step.KeepsNames {α : Type} (step : Step α) : Prop :=
  ∀ ⦃cursor answer next⦄, cursor.NamesMethods → step cursor = .ok (answer, next) →
    next.NamesMethods

/-- The rules that other rules are built from leave no nameless methods. Those for values have to be
given the token that comes next. -/
structure Rules.KeepNames (rules : Rules) : Prop where
  statements : ∀ closers targets, (rules.statements closers targets).KeepsNames
  blockStatements : rules.blockStatements.KeepsNames
  enclosed : rules.enclosed.KeepsNames
  statement : ∀ context token, token.CoversName → (rules.statement context token).KeepsNames
  expression : ∀ context token, token.CoversName → (rules.expression context token).KeepsNames
  operand : ∀ context token, token.CoversName → (rules.operand context token).KeepsNames
  primary : ∀ context token, token.CoversName → (rules.primary context token).KeepsNames
  parameter : ∀ context token, (rules.parameter context token).KeepsNames
  pattern : ∀ context token, (rules.pattern context token).KeepsNames
  patterns : ∀ context token, (rules.patterns context token).KeepsNames
  prefersPattern : ∀ context token, (rules.prefersPattern context token).KeepsNames

/-- Where one thing holds of a cursor, another holds behind a rule. -/
def Leads {α : Type} (before : Cursor → Prop) (rule : Parse α) (behind : Cursor → Prop) : Prop :=
  ∀ ⦃rules cursor answer next⦄, rules.KeepNames → before cursor →
    Runs rule rules cursor answer next → behind next

/-- A rule that leaves no nameless methods where there were none. -/
abbrev Keeps {α : Type} (rule : Parse α) : Prop :=
  Leads Cursor.NamesMethods rule Cursor.NamesMethods

theorem Runs.exists_of_bind
    {α β : Type} {rule : Parse α} {continuation : α → Parse β} {rules : Rules}
    {cursor last : Cursor} {result : β}
    (h : Runs (rule >>= continuation) rules cursor result last) :
    ∃ answer next, Runs rule rules cursor answer next ∧
      Runs (continuation answer) rules next result last := by
  have hbind : (rule >>= continuation) rules cursor =
      Except.bind (rule rules cursor) fun found => continuation found.1 rules found.2 := rfl
  rw [Runs, hbind] at h
  unfold Runs
  cases hrule : rule rules cursor with
  | error fault =>
    rw [hrule] at h
    cases h
  | ok found =>
    rw [hrule] at h
    exact ⟨found.1, found.2, rfl, h⟩

namespace Leads

variable {α β : Type} {before middle behind : Cursor → Prop} {rule : Parse α}
  {continuation : α → Parse β} {token : Token} {origin : Origin} {kind : Kind}

/-! Sequences and choices -/

theorem pure (answer : α) : Leads before (Pure.pure answer) before := by
  rintro rules cursor answer next - hbefore ⟨⟩
  exact hbefore

theorem bind
    (hrule : Leads before rule middle)
    (hrest : ∀ answer, Leads middle (continuation answer) behind) :
    Leads before (rule >>= continuation) behind := by
  intro rules cursor result last hrules hbefore hruns
  obtain ⟨answer, next, hfirst, hsecond⟩ := hruns.exists_of_bind
  exact hrest answer hrules (hrule hrules hbefore hfirst) hsecond

theorem returning {answer : α → β} (hrule : Leads before rule behind) :
    Leads before (rule >>= fun found => Pure.pure (answer found)) behind :=
  bind hrule fun _ => pure _

theorem ite
    {condition : Prop} [Decidable condition] {other : Parse α} (hrule : Leads before rule behind)
    (hother : Leads before other behind) :
    Leads before (if condition then rule else other) behind := by
  split
  · exact hrule
  · exact hother

theorem weaken {strong : Cursor → Prop} (hrule : Leads before rule behind)
    (h : ∀ cursor, strong cursor → before cursor) : Leads strong rule behind :=
  fun _ cursor _ _ hrules hstrong hruns => hrule hrules (h cursor hstrong) hruns

theorem anywhere (before : Cursor → Prop) (rule : Parse α) : Leads before rule fun _ => True :=
  fun _ _ _ _ _ _ _ => trivial

theorem failWith {fault : Fault} : Leads before (Syntax.failWith fault : Parse α) behind := by
  rintro rules cursor answer next - - ⟨⟩

theorem fail : Leads before (Syntax.fail : Parse α) behind := by
  rintro rules cursor answer next - - ⟨⟩

/-! Reading what is known -/

theorem cursor {continuation : Cursor → Parse β}
    (hrest : ∀ cursor, before cursor → Leads before (continuation cursor) behind) :
    Leads before (Syntax.cursor >>= continuation) behind := by
  intro rules cursor result last hrules hbefore hruns
  obtain ⟨answer, next, hcursor, hsecond⟩ := hruns.exists_of_bind
  cases hcursor
  exact hrest cursor hbefore hrules hbefore hsecond

theorem read {continuation : Rules → Parse β}
    (hrest : ∀ rules, rules.KeepNames → Leads before (continuation rules) behind) :
    Leads before ((MonadReader.read : Parse Rules) >>= continuation) behind := by
  intro rules cursor result last hrules hbefore hruns
  obtain ⟨answer, next, hread, hsecond⟩ := hruns.exists_of_bind
  cases hread
  exact hrest rules hrules hrules hbefore hsecond

theorem lift {step : Step α} (h : step.KeepsNames) : Keeps (liftM step : Parse α) :=
  fun _ _ _ _ _ hbefore hruns => h hbefore hruns

theorem withCursor
    {change : Cursor → Cursor} (h : ∀ cursor, before cursor → behind (change cursor)) :
    Leads before (Syntax.withCursor change) behind := by
  rintro rules cursor answer next - hbefore ⟨⟩
  exact h cursor hbefore

/-- Nothing is read by a rule that only looks ahead. -/
theorem foresees (rule : Parse Bool) : Leads before (Syntax.foresees rule) before := by
  intro rules cursor answer next hrules hbefore hruns
  unfold Runs Syntax.foresees at hruns
  split at hruns
  · cases hruns
    exact hbefore
  · cases hruns
    exact hbefore

theorem blaming {position : Position} (h : Leads before rule behind) :
    Leads before (Syntax.blaming position rule) behind := by
  intro rules cursor answer next hrules hbefore hruns
  unfold Runs Syntax.blaming at hruns
  split at hruns
  · cases hruns
  · exact h hrules hbefore hruns

/-! Repetition -/

theorem iterate {step : α → Parse (Option α)} {found : α}
    (h : ∀ found, Leads before (step found) before) :
    Leads before (Syntax.iterate step found) before := by
  have hsteps (fuel : Nat) : ∀ found, Leads before (iterateBy step fuel found) before := by
    induction fuel with
    | zero => exact fun found => pure found
    | succ fuel ih =>
      intro found
      refine bind (h found) fun more => ?_
      cases more with
      | none => exact pure found
      | some next => exact ih next
  exact read fun rules _ => hsteps rules.size found

theorem repeating {rule : Parse Bool} (h : Leads before rule before) :
    Leads before (Syntax.repeating rule) before :=
  iterate fun _ => bind h fun _ => ite (pure _) (pure _)

/-! Trees -/

theorem take : Keeps (Syntax.take token) :=
  withCursor fun _ h => h.pass

theorem leaf : Keeps (Syntax.leaf kind token) :=
  withCursor fun _ h => h.pass.push .leaf

theorem part {stop : Input} : Keeps (Syntax.part kind stop) :=
  withCursor fun _ h => ⟨h.waiting, (h.push .leaf).trees⟩

theorem start {continuation : Origin → Parse β}
    (hrest : ∀ origin, origin.NamesMethods → Keeps (continuation origin)) :
    Keeps (Syntax.start token >>= continuation) := by
  intro rules cursor result last hrules hbefore hruns
  obtain ⟨origin, next, hstart, hsecond⟩ := hruns.exists_of_bind
  cases hstart
  have hempty : ({ cursor.settle with trees := [] } : Cursor).NamesMethods :=
    ⟨hbefore.settle.waiting, fun tree htree => absurd htree List.not_mem_nil⟩
  exact hrest ⟨token.span.start, cursor.settle.trees⟩ hbefore.settle.trees hrules hempty hsecond

theorem wrap : Keeps (Syntax.wrap origin kind) :=
  withCursor fun _ h => ⟨h.waiting, List.forall_mem_singleton.2
    (.branch fun tree htree => h.trees tree (List.mem_reverse.1 htree))⟩

theorem finish (horigin : origin.NamesMethods) : Keeps (Syntax.finish origin) :=
  withCursor fun _ h => ⟨h.waiting, fun tree htree =>
    (List.mem_append.1 htree).elim (h.trees tree) (horigin tree)⟩

theorem node (h : Keeps rule) : Keeps (Syntax.node kind token rule) :=
  start fun _ horigin => bind h fun _ => bind wrap fun _ => returning (finish horigin)

/-! Roles -/

theorem asRole_of {role : Role}
    (h : ∀ cursor, before cursor → cursor.NamesMethods ∧
      ∀ tree ∈ cursor.trees.head?, role = .method → tree.span.isEmpty = false) :
    Leads before (Syntax.asRole role) Cursor.NamesMethods := by
  refine withCursor fun cursor hbefore => ?_
  obtain ⟨hnames, hlast⟩ := h cursor hbefore
  split
  · exact hnames
  · next tree rest htrees =>
    rw [htrees] at hlast
    have hall := hnames.trees
    rw [htrees] at hall
    obtain ⟨htree, hrest⟩ := List.forall_mem_cons.1 hall
    exact ⟨hnames.waiting, List.forall_mem_cons.2 ⟨htree.withRole (hlast tree rfl), hrest⟩⟩

/-- A role that needs no name. -/
theorem asRole {role : Role} (hrole : role ≠ .method) : Keeps (Syntax.asRole role) :=
  asRole_of fun _ h => ⟨h, fun _ _ hmethod => absurd hmethod hrole⟩

/-- What has been read last can name a method if it is not empty. -/
theorem asMethod : Leads Cursor.EndsInName (Syntax.asRole .method) Cursor.NamesMethods :=
  asRole_of fun _ h => ⟨h.toNamesMethods, fun tree htree _ => h.last tree htree⟩

/-- What has been made a method can still be the name of one. -/
theorem asMethod_keeps_name :
    Leads Cursor.EndsInName (Syntax.asRole .method) Cursor.EndsInName := by
  intro rules cursor answer next hrules hname hruns
  refine ⟨asMethod hrules hname hruns, ?_⟩
  cases hruns
  have hlast := hname.last
  dsimp only
  split
  · exact hlast
  · next tree rest htrees =>
    rw [htrees] at hlast
    rintro named ⟨⟩
    have hspan : (tree.withRole .method).span = tree.span := by
      cases tree
      rfl
    rw [hspan]
    exact hlast tree rfl

theorem leaf_name (h : token.span.isEmpty = false) :
    Leads Cursor.NamesMethods (Syntax.leaf kind token) Cursor.EndsInName := by
  refine withCursor fun cursor hnames => ⟨hnames.pass.push .leaf, ?_⟩
  rintro tree ⟨⟩
  exact h

end Leads

end PuppetInventory.Syntax
