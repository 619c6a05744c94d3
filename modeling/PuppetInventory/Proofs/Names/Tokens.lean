import Mathlib.Tactic.SplitIfs
import PuppetInventory.Syntax.Lexer

/-!
Tokens that can name a method. Whatever the stance in which such a token is read, it stands over
some characters of the text.
-/

namespace PuppetInventory.Syntax

/-- Whether a token of this kind can name a method. -/
def Lexeme.isName : Lexeme → Bool
  | .word => true
  | .markedWord => true
  | .constant => true
  | .variable => true
  | .keyword _ => true
  | .operatorName => true
  | _ => false

/-- If a token can name a method, it is not empty. -/
def Token.CoversName (token : Token) : Prop :=
  token.lexeme.isName = true → token.span.isEmpty = false

/-! Moving forward -/

namespace Input

variable {input : Input}

theorem offset_lt_step (h : input.rest ≠ []) :
    input.position.offset < input.step.position.offset := by
  obtain ⟨rest, position⟩ := input
  cases rest with
  | nil => exact absurd rfl h
  | cons c rest => exact Nat.lt_succ_self _

theorem offset_le_step (input : Input) : input.position.offset ≤ input.step.position.offset := by
  obtain ⟨rest, position⟩ := input
  cases rest with
  | nil => exact Nat.le_refl _
  | cons c rest => exact Nat.le_succ _

theorem offset_le_skip (count : Nat) (input : Input) :
    input.position.offset ≤ (input.skip count).position.offset := by
  induction count generalizing input with
  | zero => exact Nat.le_refl _
  | succ count ih => exact Nat.le_trans (offset_le_step input) (ih input.step)

theorem offset_lt_skip {count : Nat} (h : input.rest ≠ []) (hcount : 0 < count) :
    input.position.offset < (input.skip count).position.offset := by
  cases count with
  | zero => exact absurd hcount (Nat.lt_irrefl 0)
  | succ count => exact Nat.lt_of_lt_of_le (offset_lt_step h) (offset_le_skip count input.step)

theorem offset_lt_afterVariable? {stop : Input} (h : input.afterVariable? = some stop) :
    input.position.offset < stop.position.offset := by
  have hrest : input.rest ≠ [] := by
    intro hrest
    rw [afterVariable?, hrest] at h
    cases h
  have hstep (passed : Char → Bool) :
      input.position.offset < (input.step.skipWhile passed).position.offset :=
    Nat.lt_of_lt_of_le (offset_lt_step hrest) (offset_le_skip _ _)
  have hskip (count : Nat) : input.position.offset < (input.skip (count + 1)).position.offset :=
    offset_lt_skip hrest (Nat.succ_pos count)
  have hboth (passed : Char → Bool) :
      input.position.offset < ((input.skip 2).skipWhile passed).position.offset :=
    Nat.lt_of_lt_of_le (hskip 1) (offset_le_skip _ _)
  unfold afterVariable? at h
  split at h <;> grind

end Input

/-! Words -/

theorem Keyword.spelling_length_pos (keyword : Keyword) : 0 < keyword.spelling.length := by
  cases keyword <;> decide

section

variable {stance : Stance} {spaced : Bool} {input stop : Input} {lexeme : Lexeme}

theorem offset_lt_wordAt {c : Char} {rest : List Char} (hrest : input.rest = c :: rest)
    (hc : isWordChar c = true) :
    input.position.offset < (wordAt stance input).2.position.offset := by
  have hne : input.rest ≠ [] := by
    rw [hrest]
    exact List.cons_ne_nil c rest
  have hword : 0 < (input.rest.takeWhile isWordChar).length := by
    rw [hrest, List.takeWhile_cons_of_pos hc]
    exact Nat.succ_pos _
  unfold wordAt
  split
  · exact Input.offset_lt_skip hne (by decide)
  · dsimp only
    split <;> exact Input.offset_lt_skip hne hword

theorem offset_lt_keywordAt? {words : List Keyword} (hrest : input.rest ≠ [])
    (h : keywordAt? words input = some (lexeme, stop)) :
    input.position.offset < stop.position.offset := by
  rw [keywordAt?, Option.map_eq_some_iff] at h
  obtain ⟨keyword, -, heq⟩ := h
  rw [← (Prod.mk.inj heq).2]
  exact Input.offset_lt_skip hrest keyword.spelling_length_pos

theorem offset_lt_keyOrMarkedWord? (hname : lexeme.isName = true)
    (h : keyOrMarkedWord? stance input = some (lexeme, stop)) :
    input.position.offset < stop.position.offset := by
  have hmark (rest : List Char) (c : Char)
      (hrest : (input.skip (input.rest.takeWhile isPlainWordChar).length).rest = c :: rest) :
      input.position.offset <
        (input.skip (input.rest.takeWhile isPlainWordChar).length).step.position.offset := by
    apply Nat.lt_of_le_of_lt (Input.offset_le_skip _ _) (Input.offset_lt_step _)
    rw [hrest]
    exact List.cons_ne_nil c rest
  unfold keyOrMarkedWord? at h
  dsimp only at h
  split at h <;> grind [Lexeme.isName]

/-! Other tokens -/

theorem isName_of_literal? (h : literal? stance spaced input = some (lexeme, stop)) :
    lexeme.isName = false := by
  unfold literal? percentLiteral? at h
  split at h <;> grind [Lexeme.isName, Option.map_eq_some_iff]

theorem isName_of_symbol? (h : symbol? input = some (lexeme, stop)) : lexeme.isName = false := by
  unfold symbol? at h
  split at h <;> grind [Lexeme.isName, Option.map_eq_some_iff]

theorem isName_of_markAt? (h : markAt? stance spaced input = some (lexeme, stop)) :
    lexeme.isName = false := by
  rw [markAt?, Option.map_eq_some_iff] at h
  obtain ⟨found, -, heq⟩ := h
  rw [← (Prod.mk.inj heq).1]
  rfl

/-- Of the tokens whose meaning hangs on the blanks around them, only words with a final mark can
name a method. -/
theorem offset_lt_contextual? {gap : Gap} (hname : lexeme.isName = true)
    (h : contextual? stance gap = some (lexeme, stop)) :
    gap.input.position.offset < stop.position.offset := by
  have hmarked (found : Option Mark) (length : Nat) :
      (found.map fun mark => (Lexeme.mark mark, gap.input.skip length)) ≠ some (lexeme, stop) := by
    intro heq
    obtain ⟨mark, -, heq⟩ := Option.map_eq_some_iff.1 heq
    cases heq
    cases hname
  have hliteral : literal? stance gap.spaced gap.input ≠ some (lexeme, stop) := by
    intro heq
    exact Bool.false_ne_true ((isName_of_literal? heq).symm.trans hname)
  have hsymbol : symbol? gap.input ≠ some (lexeme, stop) := by
    intro heq
    exact Bool.false_ne_true ((isName_of_symbol? heq).symm.trans hname)
  have hword (heq : keyOrMarkedWord? stance gap.input = some (lexeme, stop)) :
      gap.input.position.offset < stop.position.offset :=
    offset_lt_keyOrMarkedWord? hname heq
  unfold contextual? at h
  dsimp only at h
  split at h
  · grind [Lexeme.isName, Option.map_eq_some_iff]
  · obtain ⟨found, -, heq⟩ := Option.bind_eq_some_iff.1 h
    exact absurd heq (hmarked _ _)
  · exact absurd h (hmarked _ _)
  all_goals grind [Lexeme.isName]

theorem offset_lt_plain? (hname : lexeme.isName = true)
    (h : plain? stance spaced input = some (lexeme, stop)) :
    input.position.offset < stop.position.offset := by
  have hmark : markAt? stance spaced input ≠ some (lexeme, stop) := by
    intro heq
    exact Bool.false_ne_true ((isName_of_markAt? heq).symm.trans hname)
  unfold plain? at h
  split at h
  case h_4 c rest _ _ hrest =>
    have hne : input.rest ≠ [] := by
      rw [hrest]
      exact List.cons_ne_nil c rest
    split_ifs at h with _ _ _ _ hword _ hoperator
    · cases h
      cases hname
    · obtain ⟨found, hfound, heq⟩ := Option.map_eq_some_iff.1 h
      cases heq
      exact Input.offset_lt_afterVariable? hfound
    · have hstop : (wordAt stance input).2 = stop := congrArg Prod.snd (Option.some.inj h)
      rw [← hstop]
      exact offset_lt_wordAt hrest hword
    · exact offset_lt_keywordAt? hne h
    · cases h
      exact Input.offset_lt_skip hne (of_decide_eq_true (Bool.and_eq_true_iff.1 hoperator).2)
    · split at h
      · cases h
        cases hname
      · exact absurd h hmark
    · exact absurd h hmark
  all_goals
    cases h
    cases hname

end

/-- A token that can name a method is not empty, whatever can come where it is read. -/
theorem Stance.coversName_token (stance : Stance) (input : Input) :
    (stance.token input).CoversName := by
  intro hname
  have hspan {start : Position} {stop : Input} (h : start.offset < stop.position.offset) :
      (stop.spanFrom start).isEmpty = false :=
    decide_eq_false (Nat.not_le_of_lt h)
  unfold Stance.token at hname ⊢
  dsimp only at hname ⊢
  split at hname
  · cases hname
  · split at hname
    · next gap lexeme stop hfound =>
      obtain ⟨found, -, heq⟩ := Option.bind_eq_some_iff.1 hfound
      obtain ⟨token, htoken, heq⟩ := Option.map_eq_some_iff.1 heq
      cases heq
      exact hspan (offset_lt_contextual? hname htoken)
    · split at hname
      · next lexeme stop hplain => exact hspan (offset_lt_plain? hname hplain)
      · cases hname

end PuppetInventory.Syntax
