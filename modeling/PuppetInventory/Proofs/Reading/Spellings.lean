import PuppetInventory.Json.Reader
import PuppetInventory.Proofs.Reading.Texts

/-!
Texts and symbols between other delimiters than single quotes: how their content is written, piece
by piece, and that they are read up to their own closing delimiter. Between double quotes a
backslash starts an escape; elsewhere it only shields a delimiter or another backslash.
-/

namespace PuppetInventory.Syntax

/-! Escapes -/

/-- The number that digits stand for. -/
def numberOf (base : Nat) (digits : List Char) : Nat :=
  digits.foldl (fun number c => base * number + (Json.hexValue? c).getD 0) 0

/-- The character that a letter names behind a backslash. -/
def namedChar? : Char → Option Char
  | 'n' => some '\n'
  | 't' => some '\t'
  | 'r' => some '\r'
  | 's' => some ' '
  | 'a' => some (Char.ofNat 7)
  | 'b' => some (Char.ofNat 8)
  | 'v' => some (Char.ofNat 11)
  | 'f' => some (Char.ofNat 12)
  | 'e' => some (Char.ofNat 27)
  | _ => none

/-- An escape between double quotes. Control and meta characters are left out. -/
inductive Escape where
  /-- A letter that names another character. -/
  | named (letter : Char)
  /-- A byte. -/
  | octal (digits : List Char)
  /-- A byte behind an `x`. -/
  | hex (digits : List Char)
  /-- A code point of four digits. -/
  | codePoint (digits : List Char)
  /-- Code points between braces, each with the number of the spaces before it, and the number of
  the spaces behind the last. -/
  | codePoints (points : List (Nat × List Char)) (spaces : Nat)
  /-- A line break that is no part of the text. -/
  | newline
  /-- A character that stands for itself. -/
  | itself (c : Char)

/-- Whether digits are all that come, up to a number of them. -/
def isDigitRun (isDigit : Char → Bool) (most : Nat) (digits : List Char) (next : Option Char) :
    Bool :=
  !digits.isEmpty && digits.all isDigit &&
    (digits.length = most || (digits.length < most && !next.any isDigit))

def isCodePoint (digits : List Char) : Bool :=
  !digits.isEmpty && digits.length ≤ 6 && digits.all isHexDigit &&
    decide (numberOf 16 digits).isValidChar

/-- Whether a line break of two characters has its second one here. -/
def breaksLine (c : Char) (next : Option Char) : Bool :=
  c = '\r' && next = some '\n'

/-- Code points between braces. -/
def pointChars (points : List (Nat × List Char)) (spaces : Nat) : List Char :=
  (points.flatMap fun point => List.replicate point.1 ' ' ++ point.2) ++ List.replicate spaces ' '

namespace Escape

/-- The characters behind the backslash. -/
def chars : Escape → List Char
  | .named letter => [letter]
  | .octal digits => digits
  | .hex digits => 'x' :: digits
  | .codePoint digits => 'u' :: digits
  | .codePoints points spaces => 'u' :: '{' :: (pointChars points spaces ++ ['}'])
  | .newline => ['\n']
  | .itself c => [c]

/-- Whether an escape can be written before a character. -/
def isWritten (next : Option Char) : Escape → Bool
  | .named letter => (namedChar? letter).isSome
  | .octal digits => isDigitRun isOctalDigit 3 digits next
  | .hex digits => isDigitRun isHexDigit 2 digits next
  | .codePoint digits => digits.length = 4 && isCodePoint digits
  | .codePoints points _ =>
    !points.isEmpty && points.all (fun point => isCodePoint point.2) &&
      (points.drop 1).all fun point => 0 < point.1
  | .newline => true
  | .itself c =>
    (namedChar? c).isNone && !isOctalDigit c && !breaksLine c next &&
      !(List.contains ['x', 'u', 'c', 'C', 'M', '\n', Char.ofNat 0] c)

end Escape

section

variable {rest : List Char} {position : Position}

theorem skip_escape (chars rest : List Char) (position : Position) :
    (Input.mk ('\\' :: (chars ++ rest)) position).skip (chars.length + 1) =
      ⟨rest, position.past ('\\' :: chars)⟩ :=
  Input.skip_append ('\\' :: chars) rest position

theorem afterEscape?_single
    {c : Char} (hu : c ≠ 'u') (hx : c ≠ 'x') (hzero : c.toNat ≠ 0)
    (hoctal : isOctalDigit c = false) :
    (Input.mk ('\\' :: c :: rest) position).afterEscape? =
      some ⟨rest, position.past ['\\', c]⟩ := by
  rw [← skip_escape [c] rest position]
  simp [Input.afterEscape?, hu, hzero, hoctal]

theorem takeWhile_digits
    {isDigit : Char → Bool} {most : Nat} {digits : List Char}
    (h : isDigitRun isDigit most digits rest.head? = true) :
    ((digits ++ rest).take most).takeWhile isDigit = digits := by
  simp only [isDigitRun, Bool.and_eq_true, Bool.or_eq_true, decide_eq_true_eq, List.all_eq_true,
    Bool.not_eq_true'] at h
  obtain ⟨⟨-, hdigits⟩, hmost | ⟨hmost, hnext⟩⟩ := h
  · have hall : (digits ++ []).takeWhile isDigit = digits :=
      Input.takeWhile_append hdigits fun c hc => by cases hc
    rw [← hmost, List.take_left]
    rwa [List.append_nil] at hall
  · obtain ⟨more, hmore⟩ : ∃ more, most = digits.length + (more + 1) :=
      ⟨most - digits.length - 1, by omega⟩
    have hrest : ∀ c ∈ (rest.take (more + 1)).head?, isDigit c = false := by
      intro c hc
      cases rest with
      | nil => cases hc
      | cons d rest =>
        cases hc
        exact hnext
    rw [hmore, List.take_length_add_append]
    exact Input.takeWhile_append hdigits hrest

theorem eq_of_isSome_namedChar? {letter : Char} (h : (namedChar? letter).isSome = true) :
    letter ≠ 'u' ∧ letter ≠ 'x' ∧ letter.toNat ≠ 0 ∧ isOctalDigit letter = false := by
  unfold namedChar? at h
  split at h <;> first
    | decide
    | cases h

theorem allowed_of_mem_pointChars
    {points : List (Nat × List Char)} {spaces : Nat} {c : Char}
    (h : points.all (fun point => isCodePoint point.2) = true)
    (hc : c ∈ pointChars points spaces) : (isHexDigit c || decide (c = ' ')) = true := by
  rw [Bool.or_eq_true, decide_eq_true_eq]
  rw [pointChars, List.mem_append, List.mem_flatMap] at hc
  rcases hc with ⟨point, hpoint, hc⟩ | hc
  · rcases List.mem_append.1 hc with hc | hc
    · exact .inr (List.eq_of_mem_replicate hc)
    · have hdigits := List.all_eq_true.1 h point hpoint
      simp only [isCodePoint, Bool.and_eq_true, List.all_eq_true] at hdigits
      exact .inl (hdigits.1.2 c hc)
  · exact .inr (List.eq_of_mem_replicate hc)

theorem pointChars_ne_nil
    {points : List (Nat × List Char)} {spaces : Nat} (hne : points ≠ [])
    (h : points.all (fun point => isCodePoint point.2) = true) : pointChars points spaces ≠ [] := by
  obtain ⟨point, more, rfl⟩ := List.exists_cons_of_ne_nil hne
  have hpoint := List.all_eq_true.1 h point List.mem_cons_self
  simp only [isCodePoint, Bool.and_eq_true, Bool.not_eq_true', List.isEmpty_eq_false_iff] at hpoint
  simp [pointChars, hpoint.1.1.1]

theorem ne_of_isOctalDigit {digit : Char} (h : isOctalDigit digit = true) :
    digit ≠ 'u' ∧ digit ≠ 'x' ∧ digit.toNat ≠ 0 := by
  refine ⟨?_, ?_, fun hzero => ?_⟩
  · rintro rfl
    exact absurd h (by decide)
  · rintro rfl
    exact absurd h (by decide)
  · have hnul : digit = Char.ofNat 0 := by rw [← hzero, Char.ofNat_toNat]
    rw [hnul] at h
    exact absurd h (by decide)

theorem afterEscape?_octal
    {digits : List Char} (h : isDigitRun isOctalDigit 3 digits rest.head? = true) :
    (Input.mk ('\\' :: (digits ++ rest)) position).afterEscape? =
      some ⟨rest, position.past ('\\' :: digits)⟩ := by
  have hrun := takeWhile_digits h
  simp only [isDigitRun, Bool.and_eq_true, List.all_eq_true, Bool.not_eq_true',
    List.isEmpty_eq_false_iff] at h
  obtain ⟨digit, more, rfl⟩ := List.exists_cons_of_ne_nil h.1.1
  have hdigit := h.1.2 digit List.mem_cons_self
  obtain ⟨hu, hx, hzero⟩ := ne_of_isOctalDigit hdigit
  have hlength : (digit :: more).length + 1 =
      1 + ((digit :: (more ++ rest).take 2).takeWhile isOctalDigit).length := by
    rw [Nat.add_comm]
    exact congrArg (1 + List.length ·) hrun.symm
  rw [← skip_escape, hlength]
  simp [Input.afterEscape?, hu, hzero, hdigit]

theorem afterEscape?_codePoint
    {digits : List Char} (hlength : digits.length = 4)
    (hdigits : ∀ digit ∈ digits, isHexDigit digit = true) :
    (Input.mk ('\\' :: 'u' :: (digits ++ rest)) position).afterEscape? =
      some ⟨rest, position.past ('\\' :: 'u' :: digits)⟩ := by
  rw [← skip_escape ('u' :: digits) rest position]
  match digits with
  | [a, b, c, d] =>
    have hbrace : a ≠ '{' := by
      rintro rfl
      exact absurd (hdigits _ List.mem_cons_self) (by decide)
    simp only [List.forall_mem_cons] at hdigits
    simp [Input.afterEscape?, hdigits]
  | [] | [_] | [_, _] | [_, _, _] | _ :: _ :: _ :: _ :: _ :: _ => simp at hlength

theorem afterEscape?_codePoints
    {points : List (Nat × List Char)} (hne : points ≠ [])
    (h : points.all (fun point => isCodePoint point.2) = true) (spaces : Nat) :
    (Input.mk ('\\' :: 'u' :: '{' :: (pointChars points spaces ++ '}' :: rest))
        position).afterEscape? =
      some ⟨rest, position.past ('\\' :: 'u' :: '{' :: (pointChars points spaces ++ ['}']))⟩ := by
  have hinner : (pointChars points spaces ++ '}' :: rest).takeWhile
      (fun c => isHexDigit c || decide (c = ' ')) = pointChars points spaces :=
    Input.takeWhile_append (fun c hc => allowed_of_mem_pointChars h hc) fun c hc => by
      cases hc
      decide
  rw [← skip_escape ('u' :: '{' :: (pointChars points spaces ++ ['}'])) rest position]
  simp [Input.afterEscape?, hinner, pointChars_ne_nil hne h]

/-- What is written as an escape is taken for one as far as it goes. -/
theorem afterEscape?_escape
    {escape : Escape} (h : escape.isWritten rest.head? = true) (position : Position) :
    (Input.mk ('\\' :: (escape.chars ++ rest)) position).afterEscape? =
      some ⟨rest, position.past ('\\' :: escape.chars)⟩ := by
  cases escape with
  | named letter =>
    obtain ⟨hu, hx, hzero, hoctal⟩ := eq_of_isSome_namedChar? h
    exact afterEscape?_single hu hx hzero hoctal
  | octal digits => exact afterEscape?_octal h
  | hex digits =>
    have hrun := takeWhile_digits h
    simp only [Escape.isWritten, isDigitRun, Bool.and_eq_true, Bool.not_eq_true'] at h
    rw [← skip_escape]
    simp [Input.afterEscape?, Escape.chars, hrun, h.1.1]
  | codePoint digits =>
    simp only [Escape.isWritten, isCodePoint, Bool.and_eq_true, decide_eq_true_eq,
      List.all_eq_true] at h
    exact afterEscape?_codePoint h.1 h.2.1.2
  | codePoints points spaces =>
    simp only [Escape.isWritten, Bool.and_eq_true, Bool.not_eq_true',
      List.isEmpty_eq_false_iff] at h
    rw [Escape.chars, List.cons_append, List.cons_append, List.append_assoc]
    exact afterEscape?_codePoints h.1.1 h.1.2 spaces
  | newline => exact afterEscape?_single (by decide) (by decide) (by decide) (by decide)
  | itself c =>
    have hc : c ≠ 'u' ∧ c ≠ 'x' ∧ c ≠ Char.ofNat 0 ∧ isOctalDigit c = false := by
      simp [Escape.isWritten] at h
      simp [h]
    have hzero : c.toNat ≠ 0 := fun hzero => hc.2.2.1 (by rw [← hzero, Char.ofNat_toNat])
    exact afterEscape?_single hc.1 hc.2.1 hzero hc.2.2.2

end

/-! Plain characters -/

namespace LiteralPart

/-- A plain character before parts. -/
def consPlain (c : Char) : List LiteralPart → List LiteralPart
  | .run chars :: parts => .run (c :: chars) :: parts
  | parts => .run [c] :: parts

theorem content_consPlain (c : Char) (parts : List LiteralPart) :
    content (consPlain c parts) = c :: content parts := by
  unfold consPlain
  split <;> rfl

theorem values_consPlain (c : Char) (parts : List LiteralPart) :
    values (consPlain c parts) = c :: values parts := by
  unfold consPlain
  split <;> rfl

end LiteralPart

namespace LiteralForm

/-- Characters that were passed before do not change how far a run goes. -/
theorem plainRun_add (form : LiteralForm) (depth passed more : Nat) (rest : List Char) :
    form.plainRun depth (passed + more) rest =
      ((form.plainRun depth passed rest).1 + more, (form.plainRun depth passed rest).2) := by
  fun_induction plainRun form depth passed rest with
  | case13 depth passed c rest hitem hclosing hopening hslash hsign ih =>
    rw [plainRun.eq_def]
    simp only
    rw [if_neg hitem, if_neg hclosing, if_neg hopening, if_neg hslash, if_neg hsign,
      Nat.add_right_comm, ih]
  | _ => rw [plainRun.eq_def] <;> simp_all [Nat.add_right_comm]

/-- A plain character that a run passes over belongs to the first run of what is behind it. -/
theorem Divides.consPlain
    {form : LiteralForm} {behind : List Char} {depth : Nat} {parts : List LiteralPart}
    (hform : form.isTextual = true) (h : form.Divides behind depth parts) {c : Char}
    (hc : form.plainRun depth 0 (c :: (LiteralPart.content parts ++ form.closing :: behind)) =
      form.plainRun depth 1 (LiteralPart.content parts ++ form.closing :: behind)) :
    form.Divides behind depth (LiteralPart.consPlain c parts) := by
  rw [← Nat.zero_add 1, plainRun_add] at hc
  cases h with
  | closing =>
    have hstop : form.plainRun 0 0 (form.closing :: behind) = (0, 0) := by
      rw [plainRun.eq_def]
      simp [dividesItems_of_isTextual hform]
    rw [LiteralPart.content_nil, List.nil_append, hstop] at hc
    exact .run (List.cons_ne_nil c []) hc .closing
  | @run _ inner chars parts hchars hrun hparts =>
    rw [LiteralPart.content_cons, LiteralPart.chars, List.append_assoc, hrun] at hc
    exact .run (List.cons_ne_nil c chars) hc hparts
  | @escape _ chars parts hstop hescape hparts =>
    have hnext : LiteralPart.content (.escape ('\\' :: chars) :: parts) ++ form.closing :: behind =
        '\\' :: (chars ++ (LiteralPart.content parts ++ form.closing :: behind)) := by
      rw [LiteralPart.content_cons, LiteralPart.chars, List.append_assoc]
      rfl
    rw [hnext, hstop, ← hnext] at hc
    exact .run (List.cons_ne_nil c []) hc (.escape hstop hescape hparts)

end LiteralForm

/-! Double quotes -/

/-- Whether an interpolation starts with a number sign before this. -/
def opensInterpolation (behind : List Char) : Bool :=
  match numberSign behind with
  | .plain _ => false
  | _ => true

/-- A piece of a content between double quotes, without interpolations. -/
inductive EscapedPiece where
  | plain (c : Char)
  /-- A line break of two characters. -/
  | lineBreak
  | escape (sequence : Escape)
  /-- A line break of two characters that is no part of the text. -/
  | joined

namespace EscapedPiece

def chars : EscapedPiece → List Char
  | .plain c => [c]
  | .lineBreak => ['\r', '\n']
  | .escape sequence => '\\' :: sequence.chars
  | .joined => ['\\', '\r', '\n']

def content (pieces : List EscapedPiece) : List Char :=
  pieces.flatMap chars

/-- Whether a piece can be written before what is behind it. -/
def isWritten (behind : List Char) : EscapedPiece → Bool
  | .plain c =>
    c ≠ '"' && c ≠ '\\' && !(c = '#' && opensInterpolation behind) && !breaksLine c behind.head?
  | .lineBreak => true
  | .escape sequence => sequence.isWritten behind.head?
  | .joined => true

/-- Whether pieces can be written one behind the other up to a closing quote. -/
def areWritten : List EscapedPiece → Bool
  | [] => true
  | piece :: pieces => piece.isWritten (content pieces ++ ['"']) && areWritten pieces

/-- The parts of a content in pieces. -/
def parts : List EscapedPiece → List LiteralPart
  | [] => []
  | .plain c :: pieces => LiteralPart.consPlain c (parts pieces)
  | .lineBreak :: pieces => LiteralPart.consPlain '\r' (LiteralPart.consPlain '\n' (parts pieces))
  | .escape sequence :: pieces => .escape ('\\' :: sequence.chars) :: parts pieces
  | .joined :: pieces => .escape ['\\', '\r'] :: LiteralPart.consPlain '\n' (parts pieces)

end EscapedPiece

/-- The form of what stands between double quotes. -/
def LiteralForm.doubleQuoted (kind : LiteralKind) : LiteralForm :=
  ⟨kind, '"', '"', true⟩

/-- A number sign that starts no interpolation shields only characters that cannot end the text. -/
theorem exists_shielded {rest : List Char} (h : opensInterpolation rest = false) :
    ∃ shielded behind, rest = shielded ++ behind ∧ numberSign rest = .plain shielded.length ∧
      shielded ∈ [[], ['@'], ['$'], ['@', '@'], ['$', '-']] := by
  generalize hsign : numberSign rest = sign
  unfold opensInterpolation at h
  rw [hsign] at h
  unfold numberSign at hsign
  split at hsign
  · subst hsign
    cases h
  · split at hsign <;> subst hsign
    · cases h
    · exact ⟨['@', '@'], _, rfl, rfl, by decide⟩
  · split at hsign <;> subst hsign
    · cases h
    · exact ⟨['@'], _, rfl, rfl, by decide⟩
  · split at hsign <;> subst hsign
    · cases h
    · exact ⟨['$', '-'], _, rfl, rfl, by decide⟩
  · split at hsign <;> subst hsign
    · cases h
    · exact ⟨['$'], _, rfl, rfl, by decide⟩
  · subst hsign
    cases h
  · subst hsign
    exact ⟨[], rest, rfl, rfl, by decide⟩

theorem numberSign_other {c : Char} {rest : List Char} (hbrace : c ≠ '{') (hat : c ≠ '@')
    (hdollar : c ≠ '$') : numberSign (c :: rest) = .plain 0 := by
  unfold numberSign
  split <;> simp_all

theorem numberSign_at {c : Char} (rest : List Char) (hat : c ≠ '@') :
    numberSign ('@' :: c :: rest) = if isSymbolChar c && !c.isDigit then .bare else .plain 1 := by
  unfold numberSign
  split <;> simp_all

theorem numberSign_dollar {c : Char} (rest : List Char) (hminus : c ≠ '-') :
    numberSign ('$' :: c :: rest) =
      if isVariableMark c || isPlainWordChar c then .bare else .plain 1 := by
  unfold numberSign
  split <;> simp_all

/-- A quote behind a number sign hides what comes behind the quote. -/
theorem numberSign_append (content rest : List Char) :
    numberSign (content ++ '"' :: rest) = numberSign (content ++ ['"']) := by
  match content with
  | [] => rfl
  | c :: content =>
    by_cases hbrace : c = '{'
    · subst hbrace
      rfl
    by_cases hat : c = '@'
    · subst hat
      match content with
      | [] => rfl
      | d :: content =>
        by_cases hd : d = '@'
        · subst hd
          cases content <;> rfl
        · exact (numberSign_at _ hd).trans (numberSign_at _ hd).symm
    by_cases hdollar : c = '$'
    · subst hdollar
      match content with
      | [] => rfl
      | d :: content =>
        by_cases hd : d = '-'
        · subst hd
          cases content <;> rfl
        · exact (numberSign_dollar _ hd).trans (numberSign_dollar _ hd).symm
    exact (numberSign_other hbrace hat hdollar).trans (numberSign_other hbrace hat hdollar).symm

section

variable {kind : LiteralKind} {rest : List Char}

theorem isTextual_doubleQuoted (hkind : kind = .text ∨ kind = .symbol) :
    (LiteralForm.doubleQuoted kind).isTextual = true := by
  rcases hkind with rfl | rfl <;> rfl

namespace LiteralForm

theorem plainRun_ordinary
    (hkind : kind = .text ∨ kind = .symbol) {c : Char} (hquote : c ≠ '"') (hslash : c ≠ '\\')
    (hsign : c ≠ '#') (passed : Nat) :
    (doubleQuoted kind).plainRun 0 passed (c :: rest) =
      (doubleQuoted kind).plainRun 0 (passed + 1) rest := by
  have hitems := dividesItems_of_isTextual (isTextual_doubleQuoted hkind)
  rw [plainRun.eq_def]
  simp only [hitems, Bool.false_and, Bool.false_eq_true, if_false]
  simp [doubleQuoted, hquote, hslash, hsign]

theorem plainRun_stop (hkind : kind = .text ∨ kind = .symbol) {c : Char}
    (hc : c = '"' ∨ c = '\\') (passed : Nat) :
    (doubleQuoted kind).plainRun 0 passed (c :: rest) = (passed, 0) := by
  have hitems := dividesItems_of_isTextual (isTextual_doubleQuoted hkind)
  rw [plainRun.eq_def]
  rcases hc with rfl | rfl <;>
    simp only [hitems, Bool.false_and, Bool.false_eq_true, if_false] <;> simp [doubleQuoted]

theorem plainRun_sign
    (hkind : kind = .text ∨ kind = .symbol) (hsign : opensInterpolation rest = false)
    (passed : Nat) :
    (doubleQuoted kind).plainRun 0 passed ('#' :: rest) =
      (doubleQuoted kind).plainRun 0 (passed + 1) rest := by
  have hitems := dividesItems_of_isTextual (isTextual_doubleQuoted hkind)
  have hskip {c : Char} (hc : c = '@' ∨ c = '$' ∨ c = '-') (passed : Nat) (behind : List Char) :
      (doubleQuoted kind).plainRun 0 passed (c :: behind) =
        (doubleQuoted kind).plainRun 0 (passed + 1) behind := by
    rcases hc with rfl | rfl | rfl <;>
      exact plainRun_ordinary hkind (by decide) (by decide) (by decide) passed
  obtain ⟨shielded, behind, rfl, hplain, hshielded⟩ := exists_shielded hsign
  rw [plainRun.eq_def]
  simp only [hitems, Bool.false_and, Bool.false_eq_true, if_false, hplain]
  simp only [List.mem_cons, List.not_mem_nil, or_false] at hshielded
  rcases hshielded with rfl | rfl | rfl | rfl | rfl <;>
    simp only [List.nil_append, List.cons_append, hskip, true_or, or_true] <;> simp [doubleQuoted]

end LiteralForm

namespace EscapedPiece

theorem content_parts (pieces : List EscapedPiece) :
    LiteralPart.content (parts pieces) = content pieces := by
  induction pieces with
  | nil => rfl
  | cons piece pieces ih =>
    have hcontent : content (piece :: pieces) = piece.chars ++ content pieces := List.flatMap_cons
    rw [hcontent, ← ih]
    cases piece with
    | plain c => exact LiteralPart.content_consPlain _ _
    | lineBreak =>
      rw [parts, LiteralPart.content_consPlain, LiteralPart.content_consPlain]
      rfl
    | escape sequence => rfl
    | joined =>
      rw [parts, LiteralPart.content_cons, LiteralPart.content_consPlain]
      rfl

theorem divides_lineBreak
    (hkind : kind = .text ∨ kind = .symbol) {parts : List LiteralPart} {c : Char}
    (hc : c = '\r' ∨ c = '\n') (h : (LiteralForm.doubleQuoted kind).Divides rest 0 parts) :
    (LiteralForm.doubleQuoted kind).Divides rest 0 (LiteralPart.consPlain c parts) := by
  refine h.consPlain (isTextual_doubleQuoted hkind) ?_
  rcases hc with rfl | rfl <;>
    exact LiteralForm.plainRun_ordinary hkind (by decide) (by decide) (by decide) 0

/-- Pieces that can be written are the parts that their content falls into. -/
theorem divides_parts
    (hkind : kind = .text ∨ kind = .symbol) {pieces : List EscapedPiece}
    (h : areWritten pieces = true) :
    (LiteralForm.doubleQuoted kind).Divides rest 0 (parts pieces) := by
  induction pieces with
  | nil => exact .closing
  | cons piece pieces ih =>
    rw [areWritten, Bool.and_eq_true] at h
    obtain ⟨hpiece, hpieces⟩ := h
    have hparts := ih hpieces
    cases piece with
    | plain c =>
      simp only [isWritten, Bool.and_eq_true, Bool.not_eq_true', decide_eq_true_eq] at hpiece
      obtain ⟨⟨⟨hquote, hslash⟩, hsign⟩, -⟩ := hpiece
      refine hparts.consPlain (isTextual_doubleQuoted hkind) ?_
      rw [content_parts]
      by_cases hc : c = '#'
      · subst hc
        refine LiteralForm.plainRun_sign hkind ?_ 0
        have hbehind : opensInterpolation (content pieces ++ ['"']) = false := hsign
        unfold opensInterpolation at hbehind ⊢
        rwa [← numberSign_append (content pieces) rest] at hbehind
      · exact LiteralForm.plainRun_ordinary hkind hquote hslash hc 0
    | lineBreak =>
      exact divides_lineBreak hkind (.inl rfl) (divides_lineBreak hkind (.inr rfl) hparts)
    | escape sequence =>
      refine .escape (LiteralForm.plainRun_stop hkind (.inr rfl) 0) (fun position => ?_) hparts
      have hnext : (content pieces ++ ['"']).head? = (content pieces ++ '"' :: rest).head? := by
        cases content pieces <;> rfl
      rw [isWritten, hnext] at hpiece
      rw [content_parts]
      exact afterEscape?_escape hpiece position
    | joined =>
      refine .escape (LiteralForm.plainRun_stop hkind (.inr rfl) 0) (fun position => ?_)
        (divides_lineBreak hkind (.inr rfl) hparts)
      exact afterEscape?_single (by decide) (by decide) (by decide) (by decide)

end EscapedPiece

end

/-- A symbol can come wherever one between delimiters can. -/
theorem Stance.takesSymbol_of_takesLiteral
    {stance : Stance} (h : stance.takesLiteral .symbol = true) : stance.takesSymbol = true := by
  rw [takesSymbol, Bool.or_eq_true]
  exact .inl h

/-- A content between double quotes. -/
structure EscapedContent where
  pieces : List EscapedPiece
  isWritten : EscapedPiece.areWritten pieces = true

namespace Literal

variable (content : EscapedContent)

/-- A text between double quotes. -/
def doubleQuoted : Literal :=
  ⟨.doubleQuoted .text, ['"'], EscapedPiece.parts content.pieces⟩

/-- A symbol between double quotes. -/
def doubleQuotedSymbol : Literal :=
  ⟨.doubleQuoted .symbol, [':', '"'], EscapedPiece.parts content.pieces⟩

theorem isWritten_doubleQuoted : (doubleQuoted content).IsWritten where
  textual := rfl
  opening_ne := List.cons_ne_nil _ _
  starts _ := rfl
  opens hstance _ hblanks _ _ _ _ _ := Runs.peek_doubleQuote hblanks hstance
  divides _ := EscapedPiece.divides_parts (.inl rfl) content.isWritten

theorem isWritten_doubleQuotedSymbol : (doubleQuotedSymbol content).IsWritten where
  textual := rfl
  opening_ne := List.cons_ne_nil _ _
  starts hkind := by cases hkind
  opens hstance _ hblanks _ _ _ _ _ :=
    Runs.peek_delimitedSymbol hblanks (Stance.takesSymbol_of_takesLiteral hstance) (.inl rfl)
  divides _ := EscapedPiece.divides_parts (.inr rfl) content.isWritten

end Literal

/-! Other delimiters -/

/-- A piece of a content where a backslash shields only delimiters and backslashes. -/
inductive RawPiece where
  | plain (c : Char)
  /-- A line break of two characters. -/
  | lineBreak
  /-- A character behind a backslash that shields nothing. -/
  | kept (c : Char)
  /-- A line break of two characters behind a backslash that shields nothing. -/
  | keptBreak
  | shielded (c : Char)

namespace RawPiece

def chars : RawPiece → List Char
  | .plain c => [c]
  | .lineBreak => ['\r', '\n']
  | .kept c => ['\\', c]
  | .keptBreak => ['\\', '\r', '\n']
  | .shielded c => ['\\', c]

def content (pieces : List RawPiece) : List Char :=
  pieces.flatMap chars

/-- Whether a backslash shields a character. -/
def shields (form : LiteralForm) (c : Char) : Bool :=
  c = '\\' || c = form.opening || c = form.closing

/-- Whether pieces can be written one behind the other up to the closing delimiter of a form.
`depth` counts the delimiters that are open before them. -/
def areWritten (form : LiteralForm) : Nat → List RawPiece → Bool
  | depth, [] => depth = 0
  | depth, .plain c :: pieces =>
    c ≠ '\\' && !breaksLine c (content pieces).head? &&
      if c = form.closing then 0 < depth && areWritten form (depth - 1) pieces
      else areWritten form (if c = form.opening then depth + 1 else depth) pieces
  | depth, .kept c :: pieces =>
    !shields form c && !breaksLine c (content pieces).head? && areWritten form depth pieces
  | depth, .shielded c :: pieces => shields form c && areWritten form depth pieces
  | depth, .lineBreak :: pieces => areWritten form depth pieces
  | depth, .keptBreak :: pieces => areWritten form depth pieces

section

variable {form : LiteralForm} {rest : List Char}

theorem plainRun_lineBreak
    (hform : form.isRaw = true) {c : Char} (hc : c ∈ ['\r', '\n']) (depth passed : Nat) :
    form.plainRun depth passed (c :: rest) = form.plainRun depth (passed + 1) rest := by
  obtain ⟨hopening, hclosing⟩ := LiteralForm.ne_of_isRaw hform (List.mem_cons_of_mem '\\' hc)
  have hslash : c ≠ '\\' := by
    rintro rfl
    exact absurd hc (by decide)
  rw [LiteralForm.plainRun_raw hform hslash hclosing, if_neg hopening]

/-- Pieces that can be written are one run of plain text, up to the closing delimiter. -/
theorem plainRun_content
    (hform : form.isRaw = true) {depth : Nat} {pieces : List RawPiece}
    (h : areWritten form depth pieces = true) (passed : Nat) :
    form.plainRun depth passed (content pieces ++ form.closing :: rest) =
      (passed + (content pieces).length, 0) := by
  induction pieces generalizing depth passed with
  | nil =>
    have hdepth : depth = 0 := of_decide_eq_true h
    subst hdepth
    rw [LiteralForm.plainRun.eq_def]
    simp [LiteralForm.dividesItems_of_isRaw hform, content]
  | cons piece pieces ih =>
    have hcontent : content (piece :: pieces) = piece.chars ++ content pieces := List.flatMap_cons
    rw [hcontent, List.append_assoc, List.length_append, ← Nat.add_assoc]
    cases piece with
    | plain c =>
      simp only [areWritten, Bool.and_eq_true, decide_eq_true_eq] at h
      obtain ⟨⟨hslash, -⟩, h⟩ := h
      rw [chars, List.singleton_append]
      split at h
      · next hclosing =>
        subst hclosing
        rw [Bool.and_eq_true, decide_eq_true_eq] at h
        obtain ⟨depth, rfl⟩ := Nat.exists_eq_succ_of_ne_zero (Nat.ne_zero_of_lt h.1)
        rw [LiteralForm.plainRun_closing hform]
        exact ih h.2 (passed + 1)
      · next hclosing =>
        rw [LiteralForm.plainRun_raw hform hslash hclosing]
        exact ih h (passed + 1)
    | lineBreak =>
      rw [chars, List.cons_append, List.singleton_append,
        plainRun_lineBreak hform (by decide), plainRun_lineBreak hform (by decide)]
      exact ih h (passed + 2)
    | kept c =>
      rw [areWritten, Bool.and_eq_true] at h
      rw [chars, List.cons_append, List.singleton_append, LiteralForm.plainRun_backslash hform]
      exact ih h.2 (passed + 2)
    | keptBreak =>
      rw [chars, List.cons_append, List.cons_append, List.singleton_append,
        LiteralForm.plainRun_backslash hform, plainRun_lineBreak hform (by decide)]
      exact ih h (passed + 3)
    | shielded c =>
      rw [areWritten, Bool.and_eq_true] at h
      rw [chars, List.cons_append, List.singleton_append, LiteralForm.plainRun_backslash hform]
      exact ih h.2 (passed + 2)

end

end RawPiece

/-- A content between the delimiters of a form that reads no escapes. -/
structure RawContent (form : LiteralForm) where
  pieces : List RawPiece
  isWritten : RawPiece.areWritten form 0 pieces = true

/-- The form of a text between parentheses without escapes. -/
def LiteralForm.parenthesized : LiteralForm :=
  ⟨.text, '(', ')', false⟩

def LiteralForm.singleQuotedSymbol : LiteralForm :=
  ⟨.symbol, '\'', '\'', false⟩

namespace Literal

theorem divides_raw
    {form : LiteralForm} (hform : form.isRaw = true) (content : RawContent form)
    (opening rest : List Char) :
    form.Divides rest 0 (ofRun form opening (RawPiece.content content.pieces)).parts := by
  have hrun : form.plainRun 0 0 (RawPiece.content content.pieces ++ form.closing :: rest) =
      (0 + (RawPiece.content content.pieces).length, 0) :=
    RawPiece.plainRun_content hform content.isWritten 0
  rw [Nat.zero_add] at hrun
  exact divides_ofRun form opening _ hrun

/-- A text between parentheses that reads no escapes. -/
def parenthesized (content : RawContent .parenthesized) : Literal :=
  ofRun .parenthesized ['%', 'q', '('] (RawPiece.content content.pieces)

/-- A symbol between single quotes. -/
def singleQuotedSymbol (content : RawContent .singleQuotedSymbol) : Literal :=
  ofRun .singleQuotedSymbol [':', '\''] (RawPiece.content content.pieces)

theorem isWritten_parenthesized (content : RawContent .parenthesized) :
    (parenthesized content).IsWritten where
  textual := rfl
  opening_ne := List.cons_ne_nil _ _
  starts _ := rfl
  opens hstance _ hblanks _ _ _ _ _ := Runs.peek_percentText hblanks hstance
  divides rest := divides_raw rfl content _ rest

theorem isWritten_singleQuotedSymbol (content : RawContent .singleQuotedSymbol) :
    (singleQuotedSymbol content).IsWritten where
  textual := rfl
  opening_ne := List.cons_ne_nil _ _
  starts hkind := by cases hkind
  opens hstance _ hblanks _ _ _ _ _ :=
    Runs.peek_delimitedSymbol hblanks (Stance.takesSymbol_of_takesLiteral hstance) (.inr rfl)
  divides rest := divides_raw rfl content _ rest

/-- The spellings of a text or a symbol between delimiters. -/
inductive IsSpelled : Literal → Prop where
  | singleQuoted {text content : List Char} (h : SpellsQuoted text content) :
    IsSpelled (singleQuoted content)
  | doubleQuoted (content : EscapedContent) : IsSpelled (doubleQuoted content)
  | doubleQuotedSymbol (content : EscapedContent) : IsSpelled (doubleQuotedSymbol content)
  | parenthesized (content : RawContent .parenthesized) : IsSpelled (parenthesized content)
  | singleQuotedSymbol (content : RawContent .singleQuotedSymbol) :
    IsSpelled (singleQuotedSymbol content)

theorem IsSpelled.isWritten {literal : Literal} (h : literal.IsSpelled) : literal.IsWritten := by
  cases h with
  | singleQuoted h => exact h.isWritten
  | doubleQuoted content => exact isWritten_doubleQuoted content
  | doubleQuotedSymbol content => exact isWritten_doubleQuotedSymbol content
  | parenthesized content => exact isWritten_parenthesized content
  | singleQuotedSymbol content => exact isWritten_singleQuotedSymbol content

end Literal

/-- Spelled texts that follow each other. -/
structure Chain.IsSpelled (chain : Chain) : Prop where
  literals : ∀ literal ∈ chain.literals, literal.IsSpelled
  texts : ∀ literal ∈ chain.literals, literal.form.kind = .text

theorem Chain.IsSpelled.isWritten {chain : Chain} (h : chain.IsSpelled) : chain.IsWritten :=
  ⟨fun literal hliteral => (h.literals literal hliteral).isWritten, h.texts⟩

end PuppetInventory.Syntax
