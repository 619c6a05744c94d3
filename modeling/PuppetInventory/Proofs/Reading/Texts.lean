import PuppetInventory.Proofs.Reading.Delimited
import PuppetInventory.Proofs.Reading.Values

/-!
Literals as values: a text or a symbol between delimiters, and texts that follow each other.
-/

namespace PuppetInventory.Syntax

/-- Whether a text between delimiters can start with a character. -/
def startsText (c : Char) : Bool :=
  c = '\'' || c = '"' || c = '%'

/-- What comes before a text that follows another. -/
def gap (spaced : Bool) : List Char :=
  if spaced then [' '] else []

theorem passes_gap (stance : Stance) (spaced : Bool) : stance.Passes (gap spaced) := by
  cases spaced with
  | false => exact stance.passes_nil
  | true => exact stance.passes_space

namespace Literal

/-- Whether a literal is found where it can come, and ends at its own closing delimiter. -/
structure IsWritten (literal : Literal) : Prop where
  textual : literal.form.isTextual = true
  opening_ne : literal.opening ≠ []
  starts : literal.form.kind = .text → literal.opening.head?.any startsText = true
  opens {stance : Stance} (hstance : stance.takesLiteral literal.form.kind = true)
    {blanks : List Char} (hblanks : stance.Passes blanks) (rest : List Char) (rules : Rules)
    (position : Position) (last : Span) (trees : List Tree) :
    Runs (Grammar.peek stance) rules
      (.reading ⟨blanks ++ (literal.chars ++ rest), position⟩ last trees)
      (literal.token (position.past blanks) (!blanks.isEmpty) rest)
      (.reading ⟨blanks ++ (literal.chars ++ rest), position⟩ last trees)
  divides (rest : List Char) : literal.form.Divides rest 0 literal.parts

/-- Every literal has a closing delimiter. -/
theorem length_pos (literal : Literal) : 0 < literal.chars.length := by
  simp only [chars, behind, List.length_append, List.length_singleton]
  omega

/-- A literal as an item. -/
def item (literal : Literal) : Item where
  lexeme := .literal literal.form
  opening := literal.opening
  behind := literal.behind
  tree := literal.tree
  lastStart position := position

end Literal

theorem LiteralForm.Divides.length_le
    {form : LiteralForm} {behind : List Char} {depth : Nat} {parts : List LiteralPart}
    (h : form.Divides behind depth parts) : parts.length ≤ (LiteralPart.content parts).length := by
  induction h with
  | closing => exact Nat.le_refl 0
  | run hchars hrun hparts ih =>
    have hlength := List.length_pos_iff.2 hchars
    simp only [List.length_cons, LiteralPart.content_cons, LiteralPart.chars, List.length_append]
    omega
  | escape hstop hescape hparts ih =>
    simp only [List.length_cons, LiteralPart.content_cons, LiteralPart.chars, List.length_append]
    omega

theorem Literal.IsWritten.length_le {literal : Literal} (h : literal.IsWritten) :
    literal.parts.length ≤ literal.chars.length := by
  have hparts := (h.divides []).length_le
  simp only [Literal.chars, Literal.behind, List.length_append]
  omega

theorem SpellsQuoted.isWritten {text content : List Char} (h : SpellsQuoted text content) :
    (Literal.singleQuoted content).IsWritten where
  textual := rfl
  opening_ne := List.cons_ne_nil _ _
  starts _ := rfl
  opens hstance _ hblanks _ _ _ _ _ := Runs.peek_quote hblanks hstance
  divides rest := h.divides rest

section

variable {literal : Literal} {rules : Rules} {size : Nat} {context : Context} {rest : List Char}
  {position : Position}

/-- A text that starts where nothing can come is no token. -/
theorem Runs.peek_strayText
    {blanks : List Char} {c : Char} {last : Span} {trees : List Tree}
    (hblanks : AreBlanks blanks) (hc : startsText c = true) :
    Runs (Grammar.peek {}) rules (.reading ⟨blanks ++ c :: rest, position⟩ last trees)
      ⟨.stray, ⟨position.past blanks, position.past blanks⟩, !blanks.isEmpty,
        ⟨c :: rest, position.past blanks⟩⟩
      (.reading ⟨blanks ++ c :: rest, position⟩ last trees) := by
  have hnothing : endsBlanks c = true ∧ startsNoComment (c :: rest) = true ∧
      (∀ newline, contextual? {}
        ⟨⟨c :: rest, position.past blanks⟩, !blanks.isEmpty, newline⟩ = none) ∧
      plain? {} (!blanks.isEmpty) ⟨c :: rest, position.past blanks⟩ = none := by
    simp only [startsText, Bool.or_eq_true, decide_eq_true_eq, or_assoc] at hc
    rcases hc with rfl | rfl | rfl <;> exact ⟨by decide, rfl, fun _ => rfl, rfl⟩
  obtain ⟨hends, hcomment, hcontextual, hplain⟩ := hnothing
  have htoken : Stance.token {} ⟨blanks ++ c :: rest, position⟩ =
      ⟨.stray, ⟨position.past blanks, position.past blanks⟩, !blanks.isEmpty,
        ⟨c :: rest, position.past blanks⟩⟩ := by
    rw [Stance.token_of_plain ⟨hblanks, fun h => by cases h⟩ hends hcontextual, hplain]
  rw [← htoken]
  exact peek (comment?_eq_none hblanks hends hcomment)

namespace Grammar

theorem literal_of_isWritten
    (h : literal.IsWritten) (hsize : rules.size = size + 2) (hlength : literal.chars.length ≤ size)
    (position : Position) (spaced : Bool) (rest : List Char) (input : Input) (last : Span)
    (trees : List Tree) :
    Runs (Grammar.literal literal.form (literal.token position spaced rest)) rules
      (.reading input last trees) () (literal.cursorBehind position rest trees) := by
  have hparts := h.length_le
  exact literal_runs h.textual (h.divides rest) (by omega) spaced

/-- One more text behind others. -/
theorem more_text
    (context : Context) (h : literal.IsWritten) (hkind : literal.form.kind = .text)
    (hsize : rules.size = size + 2) (hlength : literal.chars.length ≤ size)
    (spaced several : Bool) (position : Position) (rest : List Char) (last : Span)
    (trees : List Tree) :
    Runs (textLiteral.more { context.behind with text := true } several) rules
      (.reading ⟨gap spaced ++ (literal.chars ++ rest), position⟩ last trees) (some true)
      (literal.cursorBehind (position.past (gap spaced)) rest trees) := by
  have htakes : Stance.takesLiteral { context.behind with text := true } literal.form.kind =
      true := by
    rw [hkind]
    rfl
  have hread := literal_of_isWritten h hsize hlength (position.past (gap spaced))
    (!(gap spaced).isEmpty) rest (.mk (gap spaced ++ (literal.chars ++ rest)) position) last trees
  refine Runs.bind (h.opens htakes (passes_gap _ spaced) rest rules position last trees) ?_
  simp only [Literal.token, Token.over, hkind, if_true]
  exact Runs.bind hread (Runs.pure (some true))

end Grammar

end

/-! Texts that follow each other -/

/-- Texts that follow each other. -/
structure Chain where
  first : Literal
  /-- The other texts, each with whether a space comes before it. -/
  others : List (Bool × Literal)

namespace Chain

/-- The characters of texts behind another. -/
def moreChars (others : List (Bool × Literal)) : List Char :=
  others.flatMap fun other => gap other.1 ++ other.2.chars

/-- The trees of texts behind another, which ends at a place. -/
def moreTrees (position : Position) : List (Bool × Literal) → List Tree
  | [] => []
  | (spaced, literal) :: others =>
    let start := position.past (gap spaced)
    literal.tree start :: moreTrees (start.past literal.chars) others

/-- Where the last text starts. Before the others, a text stands between two places. -/
def lastStart (start stop : Position) : List (Bool × Literal) → Position
  | [] => start
  | (spaced, literal) :: others =>
    let start := stop.past (gap spaced)
    lastStart start (start.past literal.chars) others

def chars (chain : Chain) : List Char :=
  chain.first.chars ++ moreChars chain.others

def tree (chain : Chain) (position : Position) : Tree :=
  if chain.others.isEmpty then chain.first.tree position
  else
    .branch .chainedString ⟨position, position.past chain.chars⟩
      (chain.first.tree position ::
        moreTrees (position.past chain.first.chars) chain.others)

/-- Texts that follow each other, as an item. -/
def item (chain : Chain) : Item where
  lexeme := .literal chain.first.form
  opening := chain.first.opening
  behind := chain.first.behind ++ moreChars chain.others
  tree := chain.tree
  lastStart position := lastStart position (position.past chain.first.chars) chain.others

def literals (chain : Chain) : List Literal :=
  chain.first :: chain.others.map Prod.snd

/-- Whether texts are found where they can come, and end at their own closing delimiters. -/
structure IsWritten (chain : Chain) : Prop where
  literals : ∀ literal ∈ chain.literals, literal.IsWritten
  texts : ∀ literal ∈ chain.literals, literal.form.kind = .text

theorem chars_item (chain : Chain) : chain.item.chars = chain.chars := by
  rw [Item.chars, item, chars, Literal.chars, List.append_assoc]

theorem moreChars_cons (other : Bool × Literal) (others : List (Bool × Literal)) :
    moreChars (other :: others) = gap other.1 ++ (other.2.chars ++ moreChars others) := by
  rw [moreChars, List.flatMap_cons, List.append_assoc]
  rfl

theorem length_moreChars (others : List (Bool × Literal)) :
    others.length ≤ (moreChars others).length ∧
      ∀ other ∈ others, other.2.chars.length ≤ (moreChars others).length := by
  induction others with
  | nil => exact ⟨Nat.le_refl 0, fun _ h => by cases h⟩
  | cons first others ih =>
    have hfirst := first.2.length_pos
    rw [moreChars_cons]
    simp only [List.length_append, List.length_cons]
    refine ⟨by omega, fun other hother => ?_⟩
    rcases List.mem_cons.1 hother with rfl | hother
    · omega
    · have hrest := ih.2 other hother
      omega

end Chain

section

variable {rules : Rules} {size : Nat} {context : Context} {rest : List Char}

namespace Grammar

/-- The texts behind another are read one by one. -/
theorem iterateBy_more
    (hsize : rules.size = size + 2) (others : List (Bool × Literal))
    (hothers : ∀ other ∈ others, other.2.IsWritten ∧ other.2.form.kind = .text ∧
      other.2.chars.length ≤ size)
    {fuel : Nat} (hfuel : others.length < fuel) (several : Bool) (start position : Position)
    (trees : List Tree)
    (hends : EndsExpression context ⟨rest, position.past (Chain.moreChars others)⟩) :
    Runs (iterateBy (textLiteral.more { context.behind with text := true }) fuel several) rules
      (.reading ⟨Chain.moreChars others ++ rest, position⟩ ⟨start, position⟩ trees)
      (several || !others.isEmpty)
      (.reading ⟨rest, position.past (Chain.moreChars others)⟩
        ⟨Chain.lastStart start position others, position.past (Chain.moreChars others)⟩
        ((Chain.moreTrees position others).reverse ++ trees)) := by
  induction others generalizing fuel several start position trees with
  | nil =>
    obtain ⟨fuel, rfl⟩ := Nat.exists_eq_succ_of_ne_zero (Nat.ne_zero_of_lt hfuel)
    rw [List.isEmpty_nil, Bool.not_true, Bool.or_false]
    exact Runs.iterateBy_stop fuel (more_stop hends several)
  | cons other others ih =>
    obtain ⟨fuel, rfl⟩ := Nat.exists_eq_succ_of_ne_zero (Nat.ne_zero_of_lt hfuel)
    obtain ⟨spaced, literal⟩ := other
    obtain ⟨hwritten, hkind, hlength⟩ := hothers _ List.mem_cons_self
    let begun := position.past (gap spaced)
    let behind := begun.past literal.chars
    have hplace : position.past (Chain.moreChars ((spaced, literal) :: others)) =
        behind.past (Chain.moreChars others) := by
      rw [Chain.moreChars_cons, Position.past_append, Position.past_append]
    rw [hplace] at hends ⊢
    have hstep := more_text context hwritten hkind hsize hlength spaced several
      position (Chain.moreChars others ++ rest) ⟨start, position⟩ trees
    have hrest := ih (fun another hanother => hothers another (List.mem_cons_of_mem _ hanother))
      (Nat.lt_of_succ_lt_succ hfuel) true begun behind (literal.tree begun :: trees) hends
    have hchars : Chain.moreChars ((spaced, literal) :: others) ++ rest =
        gap spaced ++ (literal.chars ++ (Chain.moreChars others ++ rest)) := by
      rw [Chain.moreChars_cons, List.append_assoc, List.append_assoc]
    have htrees : (Chain.moreTrees position ((spaced, literal) :: others)).reverse ++ trees =
        (Chain.moreTrees behind others).reverse ++ literal.tree begun :: trees := by
      rw [Chain.moreTrees, List.reverse_cons, List.append_assoc]
      rfl
    rw [hchars, htrees, List.isEmpty_cons, Bool.not_false, Bool.or_true]
    exact Runs.iterateBy_step hstep hrest

theorem textLiteral_chain
    {chain : Chain} (h : chain.IsWritten) (hsize : rules.size = size + 2)
    (hlength : chain.chars.length ≤ size) (position : Position) (spaced : Bool)
    (hends : EndsExpression context ⟨rest, position.past chain.chars⟩) (input : Input)
    (last : Span) (trees : List Tree) :
    Runs (textLiteral context chain.first.form (chain.item.token position spaced rest)) rules
      (.reading input last trees) (!chain.others.isEmpty)
      (chain.item.cursorBehind position rest trees) := by
  obtain ⟨first, others⟩ := chain
  let behind := position.past first.chars
  have hplace : position.past (Chain.chars ⟨first, others⟩) =
      behind.past (Chain.moreChars others) := Position.past_append _ _ _
  have hstop : (Chain.item ⟨first, others⟩).stop position =
      behind.past (Chain.moreChars others) := by
    rw [← hplace, Item.stop, Chain.chars_item]
  have htoken : (Chain.item ⟨first, others⟩).token position spaced rest =
      first.token position spaced (Chain.moreChars others ++ rest) := by
    rw [Item.token, Literal.token, Chain.item, List.append_assoc]
  have hlengths : (Chain.chars ⟨first, others⟩).length =
      first.chars.length + (Chain.moreChars others).length := List.length_append
  have hmore := Chain.length_moreChars others
  have hfirst := literal_of_isWritten (h.literals first List.mem_cons_self) hsize (by omega)
    position spaced (Chain.moreChars others ++ rest) input last []
  have hothers : ∀ other ∈ others, other.2.IsWritten ∧ other.2.form.kind = .text ∧
      other.2.chars.length ≤ size := by
    intro other hother
    have hmem : other.2 ∈ Chain.literals ⟨first, others⟩ :=
      List.mem_cons_of_mem first (List.mem_map_of_mem hother)
    have hother := hmore.2 other hother
    exact ⟨h.literals _ hmem, h.texts _ hmem, by omega⟩
  rw [hplace] at hends
  have hrest : Runs (iterate (textLiteral.more { context.behind with text := true }) false) rules
      (first.cursorBehind position (Chain.moreChars others ++ rest) []) (!others.isEmpty) _ :=
    Runs.iterate (iterateBy_more hsize others hothers (by omega) false position behind
      [first.tree position] hends)
  rw [htoken, Item.cursorBehind, Item.last, hstop]
  refine Runs.bind (Runs.start _) (Runs.bind hfirst (Runs.bind hrest ?_))
  cases others with
  | nil => exact Runs.bind (Runs.finish _) (Runs.pure false)
  | cons other others =>
    have htree : (Chain.item ⟨first, other :: others⟩).tree position =
        .branch .chainedString ⟨position, behind.past (Chain.moreChars (other :: others))⟩
          ((Chain.moreTrees behind (other :: others)).reverse ++ [first.tree position]).reverse := by
      rw [List.reverse_append, List.reverse_reverse, ← hplace]
      rfl
    rw [htree]
    exact Runs.bind (Runs.wrap _ .chainedString) (Runs.bind (Runs.finish _) (Runs.pure true))

/-- No colon comes right behind the first text. -/
theorem isKey_chain
    {chain : Chain} (h : chain.IsWritten) (hsize : rules.size = size + 2)
    (hlength : chain.chars.length ≤ size) (hrest : EndsItem rest) (position : Position)
    (spaced : Bool) (input : Input) (last : Span) (trees : List Tree) :
    Runs (isKey {} (literal chain.first.form (chain.item.token position spaced rest))) rules
      (.reading input last trees) false (.reading input last trees) := by
  obtain ⟨first, others⟩ := chain
  have htoken : (Chain.item ⟨first, others⟩).token position spaced rest =
      first.token position spaced (Chain.moreChars others ++ rest) := by
    rw [Item.token, Literal.token, Chain.item, List.append_assoc]
  have hlengths : (Chain.chars ⟨first, others⟩).length =
      first.chars.length + (Chain.moreChars others).length := List.length_append
  have hfirst := literal_of_isWritten (h.literals first List.mem_cons_self) hsize (by omega)
    position spaced (Chain.moreChars others ++ rest) input last trees
  have hnext : ∃ token, Runs (peek {}) rules
      (first.cursorBehind position (Chain.moreChars others ++ rest) trees) token
      (first.cursorBehind position (Chain.moreChars others ++ rest) trees) ∧
      (token.isMark .colon && !token.spaced) = false := by
    cases others with
    | nil => exact (hrest.endsExpression .item _).noColon rules _ _
    | cons other others =>
      have hmem : other.2 ∈ Chain.literals ⟨first, other :: others⟩ :=
        List.mem_cons_of_mem first List.mem_cons_self
      obtain ⟨c, chars, hopening, hc⟩ : ∃ c chars, other.2.opening = c :: chars ∧
          startsText c = true := by
        have hstarts := (h.literals _ hmem).starts (h.texts _ hmem)
        cases hopening : other.2.opening with
        | nil => simp [hopening] at hstarts
        | cons c chars => exact ⟨c, chars, rfl, by simpa [hopening] using hstarts⟩
      have hchars : Chain.moreChars (other :: others) ++ rest =
          gap other.1 ++ c :: (chars ++ (other.2.behind ++ (Chain.moreChars others ++ rest))) := by
        rw [Chain.moreChars_cons, Literal.chars, hopening]
        simp only [List.append_assoc, List.cons_append]
      rw [hchars]
      exact ⟨_, Runs.peek_strayText (passes_gap {} other.1).1 hc, rfl⟩
  obtain ⟨next, hpeek, hcolon⟩ := hnext
  rw [htoken]
  exact Runs.foresees (Runs.bind hfirst (Runs.bind hpeek (Runs.pure_of_eq hcolon)))

end Grammar

end

/-! Values -/

/-- Texts that follow each other are a value. -/
theorem Chain.IsWritten.isValue
    {chain : Chain} (h : chain.IsWritten) {size : Nat} (hlength : chain.chars.length ≤ size)
    (depth : Nat) : chain.item.IsValue size (depth + 2) := by
  have hkind : chain.first.form.kind = .text := h.texts chain.first List.mem_cons_self
  have hlexeme (position : Position) (spaced : Bool) (rest : List Char) :
      (chain.item.token position spaced rest).lexeme = .literal chain.first.form := rfl
  refine Item.StartsValue.isValue ⟨rfl, ?_, ?_⟩ (.inl rfl) ?_
  · intro stance hstance blanks hblanks rest hrest rules position last trees
    have htakes : stance.takesLiteral chain.first.form.kind = true := by
      simp [hkind, Stance.takesLiteral, Stance.takesText, (Stance.eq_of_startsValue hstance).1]
    have hopens := (h.literals chain.first List.mem_cons_self).opens htakes hblanks
      (moreChars chain.others ++ rest) rules position last trees
    have hchars : chain.item.chars ++ rest =
        chain.first.chars ++ (moreChars chain.others ++ rest) := by
      rw [chars_item, chars, List.append_assoc]
    rw [hchars, Item.token, item, List.append_assoc]
    exact hopens
  · intro context rules hsize rest hrest position spaced input last trees
    unfold Grammar.startsPair
    simp only [hlexeme, hkind, if_true]
    exact Grammar.isKey_chain h hsize hlength hrest position spaced input last trees
  · intro context origin rest hrest position spaced input last
    have hends : EndsExpression context ⟨rest, position.past chain.chars⟩ :=
      hrest.endsExpression context _
    have hread := Grammar.textLiteral_chain h (grammar_size (size + 2) depth) hlength position
      spaced hends input last []
    unfold Grammar.simpleOperand
    simp only [hlexeme, hkind, if_true]
    exact Runs.bind hread (Runs.pure Form.value)

/-- A symbol between delimiters is a value. -/
theorem Literal.IsWritten.isValue
    {literal : Literal} (h : literal.IsWritten) (hkind : literal.form.kind = .symbol) {size : Nat}
    (hlength : literal.chars.length ≤ size) (depth : Nat) :
    literal.item.IsValue size (depth + 2) := by
  have hlexeme (position : Position) (spaced : Bool) (rest : List Char) :
      (literal.item.token position spaced rest).lexeme = .literal literal.form := rfl
  have htext : ¬literal.form.kind = .text := by
    rw [hkind]
    decide
  refine Item.StartsValue.isValue ⟨rfl, ?_, ?_⟩ (.inl rfl) ?_
  · intro stance hstance blanks hblanks rest hrest rules position last trees
    have htakes : stance.takesLiteral literal.form.kind = true := by
      simp [hkind, Stance.takesLiteral, (Stance.eq_of_startsValue hstance).1]
    exact h.opens htakes hblanks rest rules position last trees
  · intro context rules hsize rest hrest position spaced input last trees
    unfold Grammar.startsPair
    simp only [hlexeme, htext, if_false]
    exact Runs.pure false
  · intro context origin rest hrest position spaced input last
    have hread := Grammar.literal_of_isWritten h (grammar_size (size + 2) depth) hlength position
      spaced rest input last []
    unfold Grammar.simpleOperand
    simp only [hlexeme, htext, if_false]
    exact Runs.bind hread (Runs.pure Form.value)

end PuppetInventory.Syntax
