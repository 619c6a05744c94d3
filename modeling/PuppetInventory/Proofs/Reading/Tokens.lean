import PuppetInventory.Proofs.Reading.Frame
import PuppetInventory.Proofs.Reading.Words

/-!
The tokens that come next where a text is known, each behind nothing, behind a space or behind a
line break. No comment comes before any of them.
-/

namespace PuppetInventory.Syntax

/-- How a text between single quotes is delimited. -/
def LiteralForm.singleQuoted : LiteralForm :=
  ⟨.text, '\'', '\'', false⟩

/-! Blanks -/

/-- The blanks that come before tokens here. -/
def AreBlanks (blanks : List Char) : Prop :=
  blanks = [] ∨ blanks = [' '] ∨ blanks = ['\n']

/-- The blanks that a stance passes over before a token. -/
def Stance.Passes (stance : Stance) (blanks : List Char) : Prop :=
  AreBlanks blanks ∧ (stance.lineBreak = true → blanks ≠ ['\n'])

theorem Stance.passes_nil (stance : Stance) : stance.Passes [] :=
  ⟨.inl rfl, fun _ => by decide⟩

theorem Stance.passes_space (stance : Stance) : stance.Passes [' '] :=
  ⟨.inr (.inl rfl), fun _ => by decide⟩

/-- Whether a character ends blanks. -/
def endsBlanks (c : Char) : Bool :=
  !isSpace c && c ≠ '\\'

/-- A token over known characters. -/
def Token.over
    (lexeme : Lexeme) (start : Position) (spaced : Bool) (chars rest : List Char) : Token where
  lexeme := lexeme
  span := ⟨start, start.past chars⟩
  spaced := spaced
  next := ⟨rest, start.past chars⟩

variable {stance : Stance} {blanks rest : List Char} {position : Position} {c : Char}

theorem endsBlanks_of_isPlainWordChar : isPlainWordChar c = true → endsBlanks c = true :=
  forall_isPlainWordChar _ (by decide)

theorem gap?_cons (spaced : Bool) (newline : Option Position) (hc : endsBlanks c = true) :
    gap? spaced newline (c :: rest) position = some ⟨⟨c :: rest, position⟩, spaced, newline⟩ := by
  simp only [endsBlanks, isSpace, isBlank, Bool.and_eq_true, Bool.not_eq_true',
    Bool.or_eq_false_iff, decide_eq_false_iff_not, decide_eq_true_eq] at hc
  unfold gap?
  simp [hc]

theorem gap?_space (spaced : Bool) (newline : Option Position) :
    gap? spaced newline (' ' :: rest) position =
      gap? true newline rest (position.after ' ') := by
  rw [gap?.eq_def]
  rfl

theorem gap?_lineBreak (spaced : Bool) (newline : Option Position) :
    gap? spaced newline ('\n' :: rest) position =
      gap? true (newline.or (some position)) rest (position.after '\n') := by
  rw [gap?.eq_def]
  rfl

theorem afterBlanks_cons (hc : endsBlanks c = true) :
    afterBlanks (c :: rest) position = ⟨c :: rest, position⟩ := by
  simp only [endsBlanks, Bool.and_eq_true, Bool.not_eq_true', decide_eq_true_eq] at hc
  unfold afterBlanks
  split <;> simp_all

theorem Gap.lineBreak?_eq_none {gap : Gap} (h : gap.newline = none) : gap.lineBreak? = none := by
  unfold lineBreak?
  split <;> first | exact h | rfl

theorem gap?_blanks
    (rest : List Char) (position : Position) (hblanks : stance.Passes blanks)
    (hc : endsBlanks c = true) :
    ∃ newline,
      let gap : Gap := ⟨⟨c :: rest, position.past blanks⟩, !blanks.isEmpty, newline⟩
      gap? false none (blanks ++ c :: rest) position = some gap ∧
        (if stance.lineBreak then gap.lineBreak? else none) = none := by
  have hnone : ∀ gap : Gap, gap.newline = none →
      (if stance.lineBreak then gap.lineBreak? else none) = none := by
    intro gap hgap
    rw [Gap.lineBreak?_eq_none hgap, ite_self]
  rcases hblanks with ⟨rfl | rfl | rfl, hline⟩
  · exact ⟨none, gap?_cons false none hc, hnone _ rfl⟩
  · exact ⟨none, (gap?_space false none).trans (gap?_cons true none hc), hnone _ rfl⟩
  · exact ⟨some position, (gap?_lineBreak false none).trans (gap?_cons true (some position) hc),
      if_neg fun h => hline h rfl⟩

theorem afterBlanks_blanks (hblanks : AreBlanks blanks) (hc : endsBlanks c = true) :
    afterBlanks (blanks ++ c :: rest) position = ⟨c :: rest, position.past blanks⟩ := by
  rcases hblanks with rfl | rfl | rfl
  · exact afterBlanks_cons hc
  · exact afterBlanks_cons hc
  · exact afterBlanks_cons hc

namespace Stance

theorem token_of_contextual
    {lexeme : Lexeme} {stop : Input} (hblanks : stance.Passes blanks) (hc : endsBlanks c = true)
    (hfound : ∀ newline, contextual? stance
        ⟨⟨c :: rest, position.past blanks⟩, !blanks.isEmpty, newline⟩ = some (lexeme, stop)) :
    stance.token ⟨blanks ++ c :: rest, position⟩ =
      ⟨lexeme, ⟨position.past blanks, stop.position⟩, !blanks.isEmpty, stop⟩ := by
  obtain ⟨newline, hgap, hbreak⟩ := gap?_blanks rest position hblanks hc
  simp only [token, hgap, Option.bind_some, hbreak, hfound, Option.map_some]
  rfl

theorem token_of_plain
    (hblanks : stance.Passes blanks) (hc : endsBlanks c = true)
    (hnone : ∀ newline, contextual? stance
        ⟨⟨c :: rest, position.past blanks⟩, !blanks.isEmpty, newline⟩ = none) :
    stance.token ⟨blanks ++ c :: rest, position⟩ =
      match plain? stance (!blanks.isEmpty) ⟨c :: rest, position.past blanks⟩ with
      | some (lexeme, stop) =>
        ⟨lexeme, ⟨position.past blanks, stop.position⟩, !blanks.isEmpty, stop⟩
      | none =>
        ⟨.stray, ⟨position.past blanks, position.past blanks⟩, !blanks.isEmpty,
          ⟨c :: rest, position.past blanks⟩⟩ := by
  obtain ⟨newline, hgap, hbreak⟩ := gap?_blanks rest position hblanks hc
  have hspaced : decide (position.offset < (position.past blanks).offset) = !blanks.isEmpty := by
    rcases hblanks.1 with rfl | rfl | rfl <;> simp
  simp only [token, hgap, Option.bind_some, hbreak, hnone, Option.map_none,
    afterBlanks_blanks hblanks.1 hc, hspaced]
  rfl

end Stance

/-! Comments -/

/-- Whether no comment starts with characters. -/
def startsNoComment : List Char → Bool
  | '#' :: _ => false
  | '=' :: 'b' :: _ => false
  | _ => true

theorem startsNoComment_of_isPlainWordChar (hc : isPlainWordChar c = true) :
    startsNoComment (c :: rest) = true := by
  have hnumber : c ≠ '#' := ne_of_isPlainWordChar hc (by decide)
  have hequals : c ≠ '=' := ne_of_isPlainWordChar hc (by decide)
  unfold startsNoComment
  split <;> simp_all

theorem comment?_eq_none
    (hblanks : AreBlanks blanks) (hc : endsBlanks c = true)
    (h : startsNoComment (c :: rest) = true) :
    Grammar.comment? stance ⟨blanks ++ c :: rest, position⟩ = none := by
  simp only [Grammar.comment?, afterBlanks_blanks hblanks hc, Option.map_eq_none_iff]
  unfold Input.afterComment?
  split
  · next heq => simp_all [startsNoComment]
  · next heq => simp_all [startsNoComment]
  · rfl

theorem Runs.peek
    {rules : Rules} {input : Input} {last : Span} {trees : List Tree}
    (h : Grammar.comment? stance input = none) :
    Runs (Grammar.peek stance) rules (.reading input last trees) (stance.token input)
      (.reading input last trees) := by
  have hextra : Runs (Grammar.extra stance) rules (.reading input last trees) false
      (.reading input last trees) := by
    unfold Grammar.extra
    refine bind getCursor ?_
    simp only [Grammar.bodyStart?, Cursor.reading, List.isEmpty_nil, Bool.or_true, if_true, h]
    exact pure false
  have hrepeat : Runs (repeating (Grammar.extra stance)) rules (.reading input last trees) ()
      (.reading input last trees) := by
    refine iterate ?_
    cases rules.size with
    | zero => exact pure ()
    | succ size => exact iterateBy_stop size (bind hextra (pure none))
  exact bind hrepeat (bind getCursor (pure _))

/-- Characters that start a mark start nothing else where no method is named. -/
theorem plain?_eq_markAt?
    {spaced : Bool} (hc : endsBlanks c = true)
    (hmark : (c.isDigit || c = '@' || c = '$' || c = '?' || isWordChar c) = false)
    (hname : (stance.name && operatorLength (c :: rest) > 0) = false) :
    plain? stance spaced ⟨c :: rest, position⟩ = markAt? stance spaced ⟨c :: rest, position⟩ := by
  simp only [Bool.or_eq_false_iff, decide_eq_false_iff_not] at hmark
  obtain ⟨⟨⟨⟨hdigit, hat⟩, hdollar⟩, hquestion⟩, hword⟩ := hmark
  have hslash : c ≠ '\\' := by
    rintro rfl
    cases hc
  have hcharacter : (Input.mk (c :: rest) position).afterCharacter? = none := by
    unfold Input.afterCharacter?
    split <;> simp_all
  unfold plain?
  split
  · next heq => cases heq
  · next heq => simp_all
  · next heq => simp_all
  · next heq =>
    obtain ⟨rfl, rfl⟩ := List.cons.inj heq
    simp [hdigit, hat, hdollar, hword, hname, hcharacter]

/-- Where no operator starts, only marks of one meaning are left. -/
theorem markAt?_of_noOperator
    {spaced : Bool} {input : Input}
    (hassign : operatorAssign? input.rest = none) (hjoint : jointMark? input.rest = none) :
    markAt? stance spaced input =
      (mark? stance spaced input.rest).map fun (mark, length) =>
        (.mark mark, input.skip length) := by
  simp only [markAt?, hassign, hjoint, ite_self, Option.none_or]

/-- The marks that have one meaning wherever they stand. -/
def punctuation? : Char → Option Mark
  | '(' => some .openParen
  | ')' => some .closeParen
  | ']' => some .closeBracket
  | '{' => some .openBrace
  | '}' => some .closeBrace
  | ',' => some .comma
  | _ => none

/-- What a name is where an operand can come: a keyword that is known there, or a word. -/
def Stance.nameLexeme (stance : Stance) (word : List Char) : Lexeme :=
  ((Keyword.ofWord? word).filter stance.takesKeyword).elim .word .keyword

namespace Runs

variable {rules : Rules} {last : Span} {trees : List Tree}

/-- A look at a token whose meaning hangs on the stance. -/
theorem peek_contextual
    {lexeme : Lexeme} (chars : List Char) (hblanks : stance.Passes blanks)
    (hc : endsBlanks c = true) (hcomment : startsNoComment (c :: chars ++ rest) = true)
    (hfound : ∀ newline, contextual? stance
        ⟨⟨c :: chars ++ rest, position.past blanks⟩, !blanks.isEmpty, newline⟩ =
      some (lexeme, ⟨rest, (position.past blanks).past (c :: chars)⟩)) :
    Runs (Grammar.peek stance) rules
      (.reading ⟨blanks ++ (c :: chars ++ rest), position⟩ last trees)
      (.over lexeme (position.past blanks) (!blanks.isEmpty) (c :: chars) rest)
      (.reading ⟨blanks ++ (c :: chars ++ rest), position⟩ last trees) := by
  have htoken : stance.token ⟨blanks ++ (c :: chars ++ rest), position⟩ =
      .over lexeme (position.past blanks) (!blanks.isEmpty) (c :: chars) rest :=
    Stance.token_of_contextual hblanks hc hfound
  rw [← htoken]
  exact peek (comment?_eq_none hblanks.1 hc hcomment)

/-- A look at a token whose meaning does not hang on the stance. -/
theorem peek_plain
    {lexeme : Lexeme} (chars : List Char) (hblanks : stance.Passes blanks)
    (hc : endsBlanks c = true) (hcomment : startsNoComment (c :: chars ++ rest) = true)
    (hnone : ∀ newline, contextual? stance
        ⟨⟨c :: chars ++ rest, position.past blanks⟩, !blanks.isEmpty, newline⟩ = none)
    (hfound : plain? stance (!blanks.isEmpty) ⟨c :: chars ++ rest, position.past blanks⟩ =
      some (lexeme, ⟨rest, (position.past blanks).past (c :: chars)⟩)) :
    Runs (Grammar.peek stance) rules
      (.reading ⟨blanks ++ (c :: chars ++ rest), position⟩ last trees)
      (.over lexeme (position.past blanks) (!blanks.isEmpty) (c :: chars) rest)
      (.reading ⟨blanks ++ (c :: chars ++ rest), position⟩ last trees) := by
  have htoken : stance.token ⟨blanks ++ (c :: chars ++ rest), position⟩ =
      .over lexeme (position.past blanks) (!blanks.isEmpty) (c :: chars) rest := by
    simp only [List.cons_append] at hnone hfound ⊢
    rw [Stance.token_of_plain hblanks hc hnone, hfound]
    rfl
  rw [← htoken]
  exact peek (comment?_eq_none hblanks.1 hc hcomment)

/-! Marks -/

theorem peek_punctuation {mark : Mark} (hblanks : stance.Passes blanks)
    (hmark : punctuation? c = some mark) :
    Runs (Grammar.peek stance) rules (.reading ⟨blanks ++ c :: rest, position⟩ last trees)
      (.over (.mark mark) (position.past blanks) (!blanks.isEmpty) [c] rest)
      (.reading ⟨blanks ++ c :: rest, position⟩ last trees) := by
  have hplain {c : Char} (hc : endsBlanks c = true)
      (hother : (c.isDigit || c = '@' || c = '$' || c = '?' || isWordChar c) = false)
      (hcomment : startsNoComment (c :: rest) = true)
      (hnone : ∀ newline, contextual? stance
        ⟨⟨c :: rest, position.past blanks⟩, !blanks.isEmpty, newline⟩ = none)
      (hoperator : operatorLength (c :: rest) = 0) (hassign : operatorAssign? (c :: rest) = none)
      (hjoint : jointMark? (c :: rest) = none)
      (hfound : mark? stance (!blanks.isEmpty) (c :: rest) = some (mark, 1)) :
      Runs (Grammar.peek stance) rules (.reading ⟨blanks ++ c :: rest, position⟩ last trees)
        (.over (.mark mark) (position.past blanks) (!blanks.isEmpty) [c] rest)
        (.reading ⟨blanks ++ c :: rest, position⟩ last trees) := by
    refine peek_plain [] hblanks hc hcomment hnone ?_
    rw [List.singleton_append, plain?_eq_markAt? hc hother (by simp [hoperator]),
      markAt?_of_noOperator hassign hjoint, hfound]
    rfl
  unfold punctuation? at hmark
  split at hmark <;> first
    | (cases hmark; done)
    | (obtain rfl := Option.some.inj hmark
       exact hplain (by decide) (by decide) rfl (fun newline => by simp [contextual?, literal?])
        rfl rfl rfl rfl)

theorem peek_comma (hblanks : stance.Passes blanks) :
    Runs (Grammar.peek stance) rules (.reading ⟨blanks ++ ',' :: rest, position⟩ last trees)
      (.over (.mark .comma) (position.past blanks) (!blanks.isEmpty) [','] rest)
      (.reading ⟨blanks ++ ',' :: rest, position⟩ last trees) :=
  peek_punctuation hblanks rfl

/-- Where nothing can be selected from, a bracket opens a list. -/
theorem peek_openBracket
    (hblanks : stance.Passes blanks) (hindex : stance.index = false) (hname : stance.name = false) :
    Runs (Grammar.peek stance) rules (.reading ⟨blanks ++ '[' :: rest, position⟩ last trees)
      (.over (.mark .openBracket) (position.past blanks) (!blanks.isEmpty) ['['] rest)
      (.reading ⟨blanks ++ '[' :: rest, position⟩ last trees) := by
  refine peek_plain [] hblanks (by decide) rfl (fun newline => ?_) ?_
  · simp [contextual?, hindex]
  · rw [List.singleton_append, plain?_eq_markAt? (by decide) (by decide) (by simp [hname]),
      markAt?_of_noOperator rfl rfl]
    rfl

theorem peek_arrow (hblanks : stance.Passes blanks) (hname : stance.name = false) :
    Runs (Grammar.peek stance) rules (.reading ⟨blanks ++ '=' :: '>' :: rest, position⟩ last trees)
      (.over (.mark .arrow) (position.past blanks) (!blanks.isEmpty) ['=', '>'] rest)
      (.reading ⟨blanks ++ '=' :: '>' :: rest, position⟩ last trees) := by
  refine peek_plain ['>'] hblanks (by decide) rfl (fun newline => ?_) ?_
  · simp [contextual?, literal?]
  · rw [List.cons_append, List.singleton_append,
      plain?_eq_markAt? (by decide) (by decide) (by simp [hname])]
    have hmark : mark? stance (!blanks.isEmpty) ('=' :: '>' :: rest) = some (.arrow, 2) := by
      show (if stance.name then some (Mark.assign, 1) else some (Mark.arrow, 2)) = _
      rw [hname]
      rfl
    rw [markAt?_of_noOperator rfl rfl, hmark]
    rfl

theorem peek_colon
    (hblanks : stance.Passes blanks) (hsymbol : stance.takesSymbol = false)
    (hrest : rest.head? ≠ some ':') :
    Runs (Grammar.peek stance) rules (.reading ⟨blanks ++ ':' :: rest, position⟩ last trees)
      (.over (.mark .colon) (position.past blanks) (!blanks.isEmpty) [':'] rest)
      (.reading ⟨blanks ++ ':' :: rest, position⟩ last trees) := by
  refine peek_plain [] hblanks (by decide) rfl (fun newline => ?_) ?_
  · simp [contextual?, hsymbol]
  · have hoperator : operatorLength (':' :: rest) = 0 := rfl
    rw [List.singleton_append, plain?_eq_markAt? (by decide) (by decide) (by simp [hoperator])]
    have hmark : mark? stance (!blanks.isEmpty) (':' :: rest) = some (.colon, 1) := by
      unfold mark?
      split <;> simp_all
    rw [markAt?_of_noOperator rfl rfl, hmark]
    rfl

/-! Literals -/

theorem peek_quote (hblanks : stance.Passes blanks) (htext : stance.takesText = true) :
    Runs (Grammar.peek stance) rules (.reading ⟨blanks ++ '\'' :: rest, position⟩ last trees)
      (.over (.literal .singleQuoted) (position.past blanks) (!blanks.isEmpty) ['\''] rest)
      (.reading ⟨blanks ++ '\'' :: rest, position⟩ last trees) := by
  refine peek_contextual [] hblanks (by decide) rfl (fun newline => ?_)
  simp [contextual?, literal?, htext, LiteralForm.singleQuoted, Input.step]

theorem peek_doubleQuote (hblanks : stance.Passes blanks) (htext : stance.takesText = true) :
    Runs (Grammar.peek stance) rules (.reading ⟨blanks ++ '"' :: rest, position⟩ last trees)
      (.over (.literal ⟨.text, '"', '"', true⟩) (position.past blanks) (!blanks.isEmpty) ['"'] rest)
      (.reading ⟨blanks ++ '"' :: rest, position⟩ last trees) := by
  refine peek_contextual [] hblanks (by decide) rfl (fun newline => ?_)
  simp [contextual?, literal?, htext, Input.step]

theorem peek_percentText (hblanks : stance.Passes blanks) (htext : stance.takesText = true) :
    Runs (Grammar.peek stance) rules
      (.reading ⟨blanks ++ '%' :: 'q' :: '(' :: rest, position⟩ last trees)
      (.over (.literal ⟨.text, '(', ')', false⟩) (position.past blanks) (!blanks.isEmpty)
        ['%', 'q', '('] rest)
      (.reading ⟨blanks ++ '%' :: 'q' :: '(' :: rest, position⟩ last trees) := by
  refine peek_contextual ['q', '('] hblanks (by decide) rfl (fun newline => ?_)
  have hdelimiter : isDelimiter stance '(' = true := by
    simp [isDelimiter, partsOperands]
  simp [contextual?, literal?, htext, percentLiteral?, percentForm, Input.second?, Input.skip,
    Input.next?, Input.step, hdelimiter, Stance.takesLiteral, pairedDelimiter]

/-- A colon and a quote open a symbol. -/
theorem peek_delimitedSymbol
    {quote : Char} {interpolates : Bool} (hblanks : stance.Passes blanks)
    (hsymbol : stance.takesSymbol = true)
    (hquote : (quote, interpolates) = ('"', true) ∨ (quote, interpolates) = ('\'', false)) :
    Runs (Grammar.peek stance) rules
      (.reading ⟨blanks ++ ':' :: quote :: rest, position⟩ last trees)
      (.over (.literal ⟨.symbol, quote, quote, interpolates⟩) (position.past blanks)
        (!blanks.isEmpty) [':', quote] rest)
      (.reading ⟨blanks ++ ':' :: quote :: rest, position⟩ last trees) := by
  rcases hquote with hquote | hquote <;> cases hquote
  · refine peek_contextual ['"'] hblanks (by decide) rfl fun newline => ?_
    simp [contextual?, symbol?, hsymbol, Input.skip, Input.step]
  · refine peek_contextual ['\''] hblanks (by decide) rfl fun newline => ?_
    simp [contextual?, symbol?, hsymbol, Input.skip, Input.step]

/-! Words -/

variable {word : List Char}

theorem contextual?_of_isPlainWordChar
    {spaced : Bool} {newline : Option Position} (hc : isPlainWordChar c = true) :
    contextual? stance ⟨⟨c :: rest, position⟩, spaced, newline⟩ =
      if (stance.takesMarkedWord || stance.key) && (c.isAlpha || c = '_') then
        keyOrMarkedWord? stance ⟨c :: rest, position⟩
      else none := by
  have hliteral : literal? stance spaced ⟨c :: rest, position⟩ = none := by
    unfold literal?
    split <;> first
      | rfl
      | (next heq => obtain ⟨rfl, _⟩ := List.cons.inj heq; exact absurd hc (by decide))
  unfold contextual?
  simp only
  split <;> first
    | (next heq => obtain ⟨rfl, _⟩ := List.cons.inj heq; exact absurd hc (by decide))
    | (next heq => obtain ⟨rfl, _⟩ := List.cons.inj heq; simp [hliteral])
    | (next heq => cases heq)

theorem contextual?_of_isName
    {spaced : Bool} {newline : Option Position} (h : isName (c :: word) = true) :
    contextual? stance ⟨⟨c :: rest, position⟩, spaced, newline⟩ =
      if stance.takesMarkedWord || stance.key then keyOrMarkedWord? stance ⟨c :: rest, position⟩
      else none := by
  have hfirst : (c.isAlpha || c = '_') = true := by
    have hstart := startsName_of_isName h
    rw [startsName] at hstart
    unfold Char.isAlpha
    rw [Bool.or_assoc, hstart, Bool.or_true]
  rw [contextual?_of_isPlainWordChar (isPlainWordChar_of_isName h List.mem_cons_self), hfirst,
    Bool.and_true]

theorem keyOrMarkedWord?_key
    (hkey : stance.key = true) (h : isName word = true) (hrest : rest.head? ≠ some ':') :
    keyOrMarkedWord? stance ⟨word ++ ':' :: rest, position⟩ =
      some (.key, ⟨':' :: rest, position.past word⟩) := by
  have hword : (word ++ ':' :: rest).takeWhile isPlainWordChar = word :=
    takeWhile_isPlainWordChar h fun c hc => by cases hc; decide
  simp only [keyOrMarkedWord?, hword, Input.skip_append, hkey, Bool.true_and]
  rw [if_pos (by simpa using hrest)]

theorem keyOrMarkedWord?_eq_none (h : isName word = true) (hrest : endsWord rest = true) :
    keyOrMarkedWord? stance ⟨word ++ rest, position⟩ = none := by
  have hword : (word ++ rest).takeWhile isPlainWordChar = word :=
    takeWhile_isPlainWordChar h (head?_of_endsWord _ (by decide) hrest)
  have hcolon := head?_of_endsWord (· = ':') (by decide) hrest
  have hbang := head?_of_endsWord (· = '!') (by decide) hrest
  have hquestion := head?_of_endsWord (· = '?') (by decide) hrest
  simp only [keyOrMarkedWord?, hword, Input.skip_append]
  split
  · simp at hcolon
  · simp at hbang
  · simp at hquestion
  · rfl

theorem peek_key
    (hblanks : stance.Passes blanks) (hkey : stance.key = true) (h : isName word = true)
    (hrest : rest.head? ≠ some ':') :
    Runs (Grammar.peek stance) rules
      (.reading ⟨blanks ++ (word ++ ':' :: rest), position⟩ last trees)
      (.over .key (position.past blanks) (!blanks.isEmpty) word (':' :: rest))
      (.reading ⟨blanks ++ (word ++ ':' :: rest), position⟩ last trees) := by
  obtain ⟨c, chars, rfl, hplain⟩ := exists_cons_of_isName h
  refine peek_contextual _ hblanks (endsBlanks_of_isPlainWordChar hplain) ?_ fun newline => ?_
  · exact startsNoComment_of_isPlainWordChar hplain
  · rw [List.cons_append, contextual?_of_isName h, if_pos (by simp [hkey])]
    exact keyOrMarkedWord?_key hkey h hrest

theorem contextual?_symbol
    {spaced : Bool} {newline : Option Position} (hsymbol : stance.takesSymbol = true) :
    contextual? stance ⟨⟨':' :: rest, position⟩, spaced, newline⟩ =
      symbol? ⟨':' :: rest, position⟩ := by
  simp [contextual?, hsymbol]

theorem symbol?_of_isName (h : isName word = true) (hrest : endsWord rest = true) :
    symbol? ⟨':' :: (word ++ rest), position⟩ =
      some (.symbol, ⟨rest, position.past (':' :: word)⟩) := by
  have hname := afterSymbolName?_of_isName h hrest (position.after ':')
  obtain ⟨c, chars, rfl, hplain⟩ := exists_cons_of_isName h
  have hdouble : c ≠ '"' := ne_of_isPlainWordChar hplain (by decide)
  have hsingle : c ≠ '\'' := ne_of_isPlainWordChar hplain (by decide)
  unfold symbol?
  split
  · simp_all
  · simp_all
  · simp only [Input.step, hname]
    rfl

theorem peek_symbol
    (hblanks : stance.Passes blanks) (hsymbol : stance.takesSymbol = true)
    (h : isName word = true) (hrest : endsWord rest = true) :
    Runs (Grammar.peek stance) rules
      (.reading ⟨blanks ++ (':' :: word ++ rest), position⟩ last trees)
      (.over .symbol (position.past blanks) (!blanks.isEmpty) (':' :: word) rest)
      (.reading ⟨blanks ++ (':' :: word ++ rest), position⟩ last trees) := by
  refine peek_contextual _ hblanks (by decide) rfl fun newline => ?_
  rw [List.cons_append, contextual?_symbol hsymbol]
  exact symbol?_of_isName h hrest

/-- A name is not the word with a final mark that tells whether something is defined. -/
theorem startsWith_defined (h : isName word = true) (hrest : endsWord rest = true) :
    (Input.mk (word ++ rest) position).startsWith Keyword.defined.spelling.toList = false := by
  have hend := head?_of_endsWord (· = '?') (by decide) hrest
  have hspelling : Keyword.defined.spelling.toList = ['d', 'e', 'f', 'i', 'n', 'e', 'd'] ++ ['?'] :=
    rfl
  rw [Bool.eq_false_iff]
  intro hstarts
  obtain ⟨others, hothers⟩ : Keyword.defined.spelling.toList <+: word ++ rest :=
    List.isPrefixOf_iff_prefix.1 hstarts
  rw [hspelling, List.append_assoc] at hothers
  have hplain : ['d', 'e', 'f', 'i', 'n', 'e', 'd'].all isPlainWordChar = true := by decide
  -- The longest runs of word characters agree, so the question mark has to follow the name.
  have hdefined : word = ['d', 'e', 'f', 'i', 'n', 'e', 'd'] := by
    rw [← takeWhile_isPlainWordChar h (head?_of_endsWord _ (by decide) hrest), ← hothers]
    exact Input.takeWhile_append (List.all_eq_true.1 hplain) (by rintro c ⟨⟩; decide)
  rw [hdefined] at hothers
  have hrest : ['?'] ++ others = rest := List.append_cancel_left hothers
  simp [← hrest] at hend

theorem plain?_of_isName
    {spaced : Bool} (h : isName (c :: word) = true) (hword : stance.takesWord = true) :
    plain? stance spaced ⟨c :: rest, position⟩ = some (wordAt stance ⟨c :: rest, position⟩) := by
  have hplain : isPlainWordChar c = true := isPlainWordChar_of_isName h List.mem_cons_self
  have hslash : c ≠ '\\' := ne_of_isPlainWordChar hplain (by decide)
  have hat : c ≠ '@' := ne_of_isPlainWordChar hplain (by decide)
  have hdollar : c ≠ '$' := ne_of_isPlainWordChar hplain (by decide)
  have hdigit : c.isDigit = false :=
    (not_isDigit_isUpper_of_startsName (startsName_of_isName h)).1
  unfold plain?
  split
  · next heq => cases heq
  · next heq => simp_all
  · next heq => simp_all
  · next heq =>
    obtain ⟨rfl, rfl⟩ := List.cons.inj heq
    simp [hdigit, hat, hdollar, isWordChar_of_isPlainWordChar hplain, hword]

theorem wordAt_of_isName (h : isName word = true) (hrest : endsWord rest = true) :
    wordAt stance ⟨word ++ rest, position⟩ =
      (stance.nameLexeme word, ⟨rest, position.past word⟩) := by
  have hupper : word.head?.any Char.isUpper = false := by
    cases word with
    | nil => rfl
    | cons c chars => exact (not_isDigit_isUpper_of_startsName (startsName_of_isName h)).2
  simp only [wordAt, startsWith_defined h hrest, Bool.and_false, Bool.false_eq_true, if_false,
    takeWhile_isWordChar h hrest, hupper, Input.skip_append, Stance.nameLexeme]
  cases (Keyword.ofWord? word).filter stance.takesKeyword <;> rfl

theorem peek_name
    (hblanks : stance.Passes blanks) (hoperand : stance.operand = true) (h : isName word = true)
    (hrest : endsWord rest = true) :
    Runs (Grammar.peek stance) rules
      (.reading ⟨blanks ++ (word ++ rest), position⟩ last trees)
      (.over (stance.nameLexeme word) (position.past blanks) (!blanks.isEmpty) word rest)
      (.reading ⟨blanks ++ (word ++ rest), position⟩ last trees) := by
  obtain ⟨c, chars, rfl, hplain⟩ := exists_cons_of_isName h
  refine peek_plain _ hblanks (endsBlanks_of_isPlainWordChar hplain)
    (startsNoComment_of_isPlainWordChar hplain) (fun newline => ?_) ?_
  · rw [List.cons_append, contextual?_of_isName h, ← List.cons_append,
      keyOrMarkedWord?_eq_none h hrest, ite_self]
  · rw [List.cons_append, plain?_of_isName h (by simp [Stance.takesWord, hoperand]),
      ← List.cons_append, wordAt_of_isName h hrest]

theorem peek_word
    (hblanks : stance.Passes blanks) (hoperand : stance.operand = true) (h : isName word = true)
    (hkeyword : Keyword.ofWord? word = none) (hrest : endsWord rest = true) :
    Runs (Grammar.peek stance) rules
      (.reading ⟨blanks ++ (word ++ rest), position⟩ last trees)
      (.over .word (position.past blanks) (!blanks.isEmpty) word rest)
      (.reading ⟨blanks ++ (word ++ rest), position⟩ last trees) := by
  have hword : stance.nameLexeme word = .word := by
    rw [Stance.nameLexeme, hkeyword]
    rfl
  exact hword ▸ peek_name hblanks hoperand h hrest

theorem peek_keyword
    {keyword : Keyword} (hblanks : stance.Passes blanks) (hoperand : stance.operand = true)
    (h : isName word = true) (hkeyword : Keyword.ofWord? word = some keyword)
    (hstarts : keyword.startsOperand = true) (hrest : endsWord rest = true) :
    Runs (Grammar.peek stance) rules
      (.reading ⟨blanks ++ (word ++ rest), position⟩ last trees)
      (.over (.keyword keyword) (position.past blanks) (!blanks.isEmpty) word rest)
      (.reading ⟨blanks ++ (word ++ rest), position⟩ last trees) := by
  have htakes : stance.takesKeyword keyword = true := by
    rw [Stance.takesKeyword, hoperand, hstarts]
    rfl
  have hword : stance.nameLexeme word = .keyword keyword := by
    rw [Stance.nameLexeme, hkeyword, Option.filter_some_pos htakes]
    rfl
  exact hword ▸ peek_name hblanks hoperand h hrest

/-- A word that starts where no word can come is no token. -/
theorem peek_stray (hblanks : AreBlanks blanks) (hc : isPlainWordChar c = true) :
    Runs (Grammar.peek {}) rules (.reading ⟨blanks ++ c :: rest, position⟩ last trees)
      ⟨.stray, ⟨position.past blanks, position.past blanks⟩, !blanks.isEmpty,
        ⟨c :: rest, position.past blanks⟩⟩
      (.reading ⟨blanks ++ c :: rest, position⟩ last trees) := by
  have hends : endsBlanks c = true := endsBlanks_of_isPlainWordChar hc
  have hslash : c ≠ '\\' := ne_of_isPlainWordChar hc (by decide)
  have hat : c ≠ '@' := ne_of_isPlainWordChar hc (by decide)
  have hdollar : c ≠ '$' := ne_of_isPlainWordChar hc (by decide)
  have hplain : ∀ spaced, plain? {} spaced ⟨c :: rest, position.past blanks⟩ = none := by
    intro spaced
    unfold plain?
    split
    · next heq => cases heq
    · next heq => simp_all
    · next heq => simp_all
    · next heq =>
      obtain ⟨rfl, rfl⟩ := List.cons.inj heq
      simp [hat, hdollar, isWordChar_of_isPlainWordChar hc, Stance.takesNumber, Stance.takesWord,
        keywordAt?]
  have htoken : Stance.token {} ⟨blanks ++ c :: rest, position⟩ =
      ⟨.stray, ⟨position.past blanks, position.past blanks⟩, !blanks.isEmpty,
        ⟨c :: rest, position.past blanks⟩⟩ := by
    rw [Stance.token_of_plain ⟨hblanks, fun h => by cases h⟩ hends
      (fun newline => contextual?_of_isPlainWordChar hc), hplain]
  rw [← htoken]
  exact peek (comment?_eq_none hblanks hends (startsNoComment_of_isPlainWordChar hc))

/-! Ends of lines and texts -/

theorem peek_lineBreak
    (hline : stance.lineBreak = true) (hc : isPlainWordChar c = true) :
    Runs (Grammar.peek stance) rules (.reading ⟨'\n' :: c :: rest, position⟩ last trees)
      ⟨.lineBreak, ⟨position, position⟩, false, ⟨'\n' :: c :: rest, position⟩⟩
      (.reading ⟨'\n' :: c :: rest, position⟩ last trees) := by
  have hends : endsBlanks c = true := endsBlanks_of_isPlainWordChar hc
  have hcomment : Grammar.comment? stance ⟨'\n' :: c :: rest, position⟩ = none :=
    comment?_eq_none (show AreBlanks ['\n'] from .inr (.inr rfl)) hends
      (startsNoComment_of_isPlainWordChar hc)
  have hdot : c ≠ '.' := ne_of_isPlainWordChar hc (by decide)
  have hampersand : c ≠ '&' := ne_of_isPlainWordChar hc (by decide)
  have hnumber : c ≠ '#' := ne_of_isPlainWordChar hc (by decide)
  have hbreak : Gap.lineBreak? ⟨⟨c :: rest, position.after '\n'⟩, true, some position⟩ =
      some position := by
    unfold Gap.lineBreak?
    split <;> simp_all
  have htoken : stance.token ⟨'\n' :: c :: rest, position⟩ =
      ⟨.lineBreak, ⟨position, position⟩, false, ⟨'\n' :: c :: rest, position⟩⟩ := by
    simp [Stance.token, gap?_lineBreak, gap?_cons, hends, hline, hbreak, Input.skip]
  rw [← htoken]
  exact peek hcomment

theorem peek_finish :
    Runs (Grammar.peek stance) rules (.reading ⟨[], position⟩ last trees)
      (.over .finish position false [] [])
      (.reading ⟨[], position⟩ last trees) := by
  have hcomment : Grammar.comment? stance ⟨[], position⟩ = none := by
    simp [Grammar.comment?, afterBlanks, Input.afterComment?]
  have htoken : stance.token ⟨[], position⟩ = .over .finish position false [] [] := by
    simp [Stance.token, gap?, Gap.lineBreak?, contextual?, plain?, afterBlanks]
    rfl
  rw [← htoken]
  exact peek hcomment

end Runs

end PuppetInventory.Syntax
