import Mathlib.Algebra.Ring.Nat
import PuppetInventory.Proofs.Reading.Calls
import PuppetInventory.Proofs.Reading.Spellings

/-!
What literals between other delimiters than single quotes stand for, and what they are taken for.
The two agree exactly where every backslash is one that is known.
-/

namespace PuppetInventory.Syntax

/-! Bytes -/

/-- The bytes of characters. -/
def utf8 (chars : List Char) : List UInt8 :=
  chars.flatMap String.utf8EncodeChar

theorem utf8_inj {first second : List Char} : utf8 first = utf8 second ↔ first = second := by
  refine ⟨fun h => ?_, congrArg utf8⟩
  have hbytes : first.utf8Encode = second.utf8Encode := congrArg List.toByteArray h
  have hstrings : String.ofList first = String.ofList second :=
    String.toByteArray_inj.1 hbytes
  rw [← String.toList_ofList (l := first), hstrings, String.toList_ofList]

theorem length_utf8_ge (chars : List Char) : chars.length ≤ (utf8 chars).length := by
  induction chars with
  | nil => exact Nat.le_refl 0
  | cons c chars ih =>
    have hc := c.utf8Size_pos
    rw [utf8, List.flatMap_cons, List.length_append, String.length_utf8EncodeChar, List.length_cons,
      ← utf8]
    omega

theorem length_flatMap_le
    {α β γ : Type} {first : α → List β} {second : α → List γ} {items : List α}
    (h : ∀ item ∈ items, (first item).length ≤ (second item).length) :
    (items.flatMap first).length ≤ (items.flatMap second).length := by
  induction items with
  | nil => exact Nat.le_refl 0
  | cons item items ih =>
    have hitem := h item List.mem_cons_self
    have hitems := ih fun other hother => h other (List.mem_cons_of_mem item hother)
    rw [List.flatMap_cons, List.flatMap_cons, List.length_append, List.length_append]
    omega

/-- Where no part of one list is longer than its part of another, the lists agree only part by
part. -/
theorem flatMap_eq_flatMap_iff
    {α β : Type} {first second : α → List β} {items : List α}
    (h : ∀ item ∈ items, (first item).length ≤ (second item).length) :
    items.flatMap first = items.flatMap second ↔ ∀ item ∈ items, first item = second item := by
  induction items with
  | nil => simp
  | cons item items ih =>
    have hitem := h item List.mem_cons_self
    have hothers : ∀ other ∈ items, (first other).length ≤ (second other).length :=
      fun other hother => h other (List.mem_cons_of_mem item hother)
    have hitems := length_flatMap_le hothers
    rw [List.flatMap_cons, List.flatMap_cons, List.forall_mem_cons, ← ih hothers]
    constructor
    · intro heq
      have hlengths := congrArg List.length heq
      rw [List.length_append, List.length_append] at hlengths
      exact List.append_inj heq (by omega)
    · rintro ⟨hfirst, hrest⟩
      rw [hfirst, hrest]

/-- Whether something has no more bytes than what it is taken for, and the same bytes exactly if it
is known. -/
def AgreesIf (bytes : List UInt8) (found : List Char) (known : Bool) : Prop :=
  bytes.length ≤ (utf8 found).length ∧ (bytes = utf8 found ↔ known = true)

instance (bytes : List UInt8) (found : List Char) (known : Bool) :
    Decidable (AgreesIf bytes found known) :=
  inferInstanceAs (Decidable (_ ∧ _))

theorem AgreesIf.known (chars : List Char) : AgreesIf (utf8 chars) chars true :=
  ⟨Nat.le_refl _, fun _ => rfl, fun _ => rfl⟩

theorem AgreesIf.of_length_lt
    {bytes : List UInt8} {found : List Char} (h : bytes.length < (utf8 found).length) :
    AgreesIf bytes found false := by
  refine ⟨Nat.le_of_lt h, fun heq => ?_, fun htrue => by cases htrue⟩
  rw [heq] at h
  exact absurd h (Nat.lt_irrefl _)

/-- What is put together agrees exactly if all its parts are known. -/
theorem AgreesIf.flatMap
    {α : Type} {bytes : α → List UInt8} {found : α → List Char} {known : α → Bool} {items : List α}
    (h : ∀ item ∈ items, AgreesIf (bytes item) (found item) (known item)) :
    items.flatMap bytes = utf8 (items.flatMap found) ↔ items.all known = true := by
  have hfound : utf8 (items.flatMap found) = items.flatMap fun item => utf8 (found item) :=
    List.flatMap_assoc
  rw [hfound, flatMap_eq_flatMap_iff fun item hitem => (h item hitem).1, List.all_eq_true]
  exact forall₂_congr fun item hitem => (h item hitem).2

/-! Digits -/

theorem hexValue?_lt (c : Char) : (Json.hexValue? c).getD 0 < 16 := by
  have hbetween {first last : Char} (h : first ≤ c ∧ c ≤ last) :
      c.toNat - first.toNat ≤ last.toNat - first.toNat :=
    Nat.sub_le_sub_right (show c.toNat ≤ last.toNat from h.2) _
  unfold Json.hexValue?
  split
  · next h => exact Nat.lt_of_le_of_lt (hbetween h) (by decide)
  split
  · next h => exact Nat.add_lt_add_right (Nat.lt_of_le_of_lt (hbetween h) (by decide : _ < 6)) 10
  split
  · next h => exact Nat.add_lt_add_right (Nat.lt_of_le_of_lt (hbetween h) (by decide : _ < 6)) 10
  · decide

theorem numberOf_lt (digits : List Char) : numberOf 16 digits < 16 ^ digits.length := by
  have hfold (digits : List Char) (number : Nat) :
      digits.foldl (fun number c => 16 * number + (Json.hexValue? c).getD 0) number <
        (number + 1) * 16 ^ digits.length := by
    induction digits generalizing number with
    | nil => simp
    | cons c digits ih =>
      have hc := hexValue?_lt c
      have hbound : 16 * number + (Json.hexValue? c).getD 0 + 1 ≤ 16 * (number + 1) := by omega
      calc
        _ < (16 * number + (Json.hexValue? c).getD 0 + 1) * 16 ^ digits.length := ih _
        _ ≤ 16 * (number + 1) * 16 ^ digits.length := Nat.mul_le_mul_right _ hbound
        _ = (number + 1) * 16 ^ (digits.length + 1) := by
          rw [Nat.pow_succ, Nat.mul_comm 16, Nat.mul_assoc, Nat.mul_comm 16]
  have hnumber := hfold digits 0
  rwa [Nat.zero_add, Nat.one_mul] at hnumber

theorem toNat_ofNat {n : Nat} (h : n.isValidChar) : (Char.ofNat n).toNat = n := by
  rw [Char.ofNat, dif_pos h]
  rfl

theorem utf8Size_le (c : Char) :
    (c.toNat < 128 → c.utf8Size ≤ 1) ∧ (c.toNat < 2048 → c.utf8Size ≤ 2) ∧
      (c.toNat < 65536 → c.utf8Size ≤ 3) := by
  have hval {bound : UInt32} : c.val ≤ bound ↔ c.toNat ≤ bound.toNat := UInt32.le_iff_toNat_le
  unfold Char.utf8Size
  simp only [hval, UInt32.toNat_ofNatLT]
  repeat' split
  all_goals omega

/-- A code point has no more bytes than digits. -/
theorem utf8Size_codePoint {digits : List Char} (h : isCodePoint digits = true) :
    (Char.ofNat (numberOf 16 digits)).utf8Size ≤ digits.length := by
  simp only [isCodePoint, Bool.and_eq_true, Bool.not_eq_true', List.isEmpty_eq_false_iff,
    decide_eq_true_eq] at h
  have hvalue := toNat_ofNat h.2
  have hnumber := numberOf_lt digits
  have hlength := List.length_pos_iff.2 h.1.1.1
  generalize Char.ofNat (numberOf 16 digits) = c at hvalue ⊢
  have hsize := utf8Size_le c
  have hmost := c.utf8Size_le_four
  rw [← hvalue] at hnumber
  obtain hcount | hcount | hcount | hcount : digits.length = 1 ∨ digits.length = 2 ∨
      digits.length = 3 ∨ 4 ≤ digits.length := by omega
  · rw [hcount] at hnumber ⊢
    omega
  · rw [hcount] at hnumber ⊢
    omega
  · rw [hcount] at hnumber ⊢
    omega
  · exact Nat.le_trans hmost hcount

/-! Escapes -/

namespace Escape

/-- The bytes that an escape stands for. -/
def bytes : Escape → List UInt8
  | .named letter => utf8 (namedChar? letter).toList
  | .octal digits => [UInt8.ofNat (numberOf 8 digits)]
  | .hex digits => [UInt8.ofNat (numberOf 16 digits)]
  | .codePoint digits => utf8 [Char.ofNat (numberOf 16 digits)]
  | .codePoints points _ => utf8 (points.map fun point => Char.ofNat (numberOf 16 point.2))
  | .newline => []
  | .itself c => utf8 [c]

/-- What an escape is taken for. -/
def found (escape : Escape) : List Char :=
  unescape ('\\' :: escape.chars)

/-- Whether an escape is one that is known. -/
def isKnown : Escape → Bool
  | .named letter => ['n', 't', 'r'].contains letter
  | .octal digits => digits = ['0']
  | .itself _ => true
  | _ => false

theorem unescape_eq {chars : List Char} (h : chars ∉ [['n'], ['t'], ['r'], ['0']]) :
    unescape ('\\' :: chars) = chars := by
  unfold unescape
  split <;> simp_all

theorem mem_of_isSome_namedChar? {letter : Char} (h : (namedChar? letter).isSome = true) :
    letter ∈ ['n', 't', 'r', 's', 'a', 'b', 'v', 'f', 'e'] := by
  unfold namedChar? at h
  split at h <;> first
    | decide
    | cases h

theorem mem_of_isOctalDigit {digit : Char} (h : isOctalDigit digit = true) :
    digit ∈ ['0', '1', '2', '3', '4', '5', '6', '7'] := by
  rw [isOctalDigit, Bool.and_eq_true, decide_eq_true_eq, decide_eq_true_eq] at h
  have hlow : 48 ≤ digit.toNat := h.1
  have hhigh : digit.toNat ≤ 55 := h.2
  have hdigit : ∀ n, 48 ≤ n → n ≤ 55 →
      Char.ofNat n ∈ ['0', '1', '2', '3', '4', '5', '6', '7'] := by
    intro n hlow hhigh
    have hn : n = 48 ∨ n = 49 ∨ n = 50 ∨ n = 51 ∨ n = 52 ∨ n = 53 ∨ n = 54 ∨ n = 55 := by omega
    rcases hn with rfl | rfl | rfl | rfl | rfl | rfl | rfl | rfl <;> decide
  rw [← Char.ofNat_toNat digit]
  exact hdigit _ hlow hhigh

theorem length_bytes_codePoints
    {points : List (Nat × List Char)} (h : points.all (fun point => isCodePoint point.2) = true)
    (spaces : Nat) :
    (utf8 (points.map fun point => Char.ofNat (numberOf 16 point.2))).length ≤
      (pointChars points spaces).length := by
  have hpoints : ∀ point ∈ points,
      (String.utf8EncodeChar (Char.ofNat (numberOf 16 point.2))).length ≤
        (List.replicate point.1 ' ' ++ point.2).length := by
    intro point hpoint
    have hsize := utf8Size_codePoint (List.all_eq_true.1 h point hpoint)
    rw [String.length_utf8EncodeChar, List.length_append]
    omega
  have hlength :
      (points.flatMap fun point =>
        String.utf8EncodeChar (Char.ofNat (numberOf 16 point.2))).length ≤
      (points.flatMap fun point => List.replicate point.1 ' ' ++ point.2).length :=
    length_flatMap_le hpoints
  rw [utf8, List.flatMap_map, pointChars, List.length_append]
  exact Nat.le_add_right_of_le hlength

def AgreesIfKnown (escape : Escape) : Prop :=
  AgreesIf escape.bytes escape.found escape.isKnown

instance (escape : Escape) : Decidable escape.AgreesIfKnown :=
  inferInstanceAs (Decidable (AgreesIf _ _ _))

/-- An escape that loses its backslash alone has more characters than bytes unless it is known. -/
theorem agreesIfKnown_of_length_lt
    {escape : Escape} (hchars : escape.chars ∉ [['n'], ['t'], ['r'], ['0']])
    (hlength : escape.bytes.length < escape.chars.length) (hknown : escape.isKnown = false) :
    escape.AgreesIfKnown := by
  have hfound : escape.found = escape.chars := unescape_eq hchars
  have hbytes := length_utf8_ge escape.chars
  rw [AgreesIfKnown, hfound, hknown]
  exact .of_length_lt (Nat.lt_of_lt_of_le hlength hbytes)

theorem agreesIfKnown_octal {digits : List Char} (hne : digits ≠ [])
    (hdigits : ∀ digit ∈ digits, isOctalDigit digit = true) : (octal digits).AgreesIfKnown := by
  have hsingle : ['0', '1', '2', '3', '4', '5', '6', '7'].all
      (fun digit => decide (octal [digit]).AgreesIfKnown) = true := by decide
  match digits with
  | [] => exact absurd rfl hne
  | [digit] =>
    have hdigit := mem_of_isOctalDigit (hdigits digit List.mem_cons_self)
    exact of_decide_eq_true (List.all_eq_true.1 hsingle digit hdigit)
  | first :: second :: more =>
    exact agreesIfKnown_of_length_lt (by simp [chars]) (by simp [bytes, chars]) (by simp [isKnown])

/-- An escape is taken for what it stands for exactly if it is known. -/
theorem agreesIfKnown {escape : Escape} {next : Option Char} (h : escape.isWritten next = true) :
    escape.AgreesIfKnown := by
  cases escape with
  | named letter =>
    have hletters : ['n', 't', 'r', 's', 'a', 'b', 'v', 'f', 'e'].all
        (fun letter => decide (named letter).AgreesIfKnown) = true := by decide
    exact of_decide_eq_true (List.all_eq_true.1 hletters letter (mem_of_isSome_namedChar? h))
  | octal digits =>
    simp only [isWritten, isDigitRun, Bool.and_eq_true, List.all_eq_true, Bool.not_eq_true',
      List.isEmpty_eq_false_iff] at h
    exact agreesIfKnown_octal h.1.1 h.1.2
  | hex digits =>
    simp only [isWritten, isDigitRun, Bool.and_eq_true, Bool.not_eq_true',
      List.isEmpty_eq_false_iff] at h
    have hlength := List.length_pos_iff.2 h.1.1
    refine agreesIfKnown_of_length_lt (by simp [chars]) ?_ rfl
    simp only [bytes, chars, List.length_cons, List.length_nil]
    omega
  | codePoint digits =>
    rw [isWritten, Bool.and_eq_true] at h
    have hsize := utf8Size_codePoint h.2
    refine agreesIfKnown_of_length_lt (by simp [chars]) ?_ rfl
    rw [bytes, utf8, List.flatMap_singleton, String.length_utf8EncodeChar, chars, List.length_cons]
    omega
  | codePoints points spaces =>
    simp only [isWritten, Bool.and_eq_true] at h
    have hlength := length_bytes_codePoints h.1.2 spaces
    refine agreesIfKnown_of_length_lt (by simp [chars]) ?_ rfl
    simp only [bytes, chars, List.length_cons, List.length_append]
    omega
  | newline => decide
  | itself c =>
    have hc : [c] ∉ [['n'], ['t'], ['r'], ['0']] := by
      intro hmem
      simp only [List.mem_cons, List.not_mem_nil, or_false, List.cons.injEq, and_true] at hmem
      simp only [isWritten, Bool.and_eq_true] at h
      rcases hmem with rfl | rfl | rfl | rfl
      · exact absurd h.1.1.1 (by decide)
      · exact absurd h.1.1.1 (by decide)
      · exact absurd h.1.1.1 (by decide)
      · exact absurd h.1.1.2 (by decide)
    have hfound : (itself c).found = [c] := unescape_eq hc
    rw [AgreesIfKnown, hfound]
    exact .known [c]

end Escape

/-! Contents -/

namespace EscapedPiece

/-- The bytes that a piece stands for. -/
def bytes : EscapedPiece → List UInt8
  | .plain c => utf8 [c]
  | .lineBreak => utf8 ['\n']
  | .escape sequence => sequence.bytes
  | .joined => []

/-- What a piece is taken for. -/
def found : EscapedPiece → List Char
  | .plain c => [c]
  | .lineBreak => ['\r', '\n']
  | .escape sequence => sequence.found
  | .joined => ['\r', '\n']

def isKnown : EscapedPiece → Bool
  | .plain _ => true
  | .lineBreak => false
  | .escape sequence => sequence.isKnown
  | .joined => false

theorem agreesIf_isKnown {piece : EscapedPiece} {behind : List Char}
    (h : piece.isWritten behind = true) : AgreesIf piece.bytes piece.found piece.isKnown := by
  cases piece with
  | plain c => exact .known [c]
  | lineBreak => decide
  | escape sequence => exact Escape.agreesIfKnown h
  | joined => decide

theorem exists_of_mem {pieces : List EscapedPiece} (h : areWritten pieces = true)
    {piece : EscapedPiece} (hpiece : piece ∈ pieces) : ∃ behind, piece.isWritten behind = true := by
  induction pieces with
  | nil => cases hpiece
  | cons first pieces ih =>
    rw [areWritten, Bool.and_eq_true] at h
    rcases List.mem_cons.1 hpiece with rfl | hpiece
    · exact ⟨_, h.1⟩
    · exact ih h.2 hpiece

/-- A backslash before the first half of a line break loses its meaning, and the break stays. -/
theorem values_parts (pieces : List EscapedPiece) :
    LiteralPart.values (parts pieces) = pieces.flatMap found := by
  induction pieces with
  | nil => rfl
  | cons piece pieces ih =>
    rw [List.flatMap_cons, ← ih]
    cases piece with
    | plain c => exact LiteralPart.values_consPlain _ _
    | lineBreak =>
      rw [parts, LiteralPart.values_consPlain, LiteralPart.values_consPlain]
      rfl
    | escape sequence => exact List.flatMap_cons
    | joined =>
      have hvalues := LiteralPart.values_consPlain '\n' (parts pieces)
      exact List.flatMap_cons.trans (congrArg ('\r' :: ·) hvalues)

end EscapedPiece

namespace RawPiece

/-- The characters that a piece stands for. -/
def text : RawPiece → List Char
  | .plain c => [c]
  | .lineBreak => ['\n']
  | .kept c => ['\\', c]
  | .keptBreak => ['\\', '\n']
  | .shielded c => [c]

def isKnown : RawPiece → Bool
  | .plain _ => true
  | .lineBreak => false
  | .kept _ => true
  | .keptBreak => false
  | .shielded _ => false

theorem agreesIf_isKnown (piece : RawPiece) :
    AgreesIf (utf8 piece.text) piece.chars piece.isKnown := by
  cases piece with
  | plain c => exact .known [c]
  | lineBreak => decide
  | kept c => exact .known ['\\', c]
  | keptBreak => decide
  | shielded c =>
    refine .of_length_lt ?_
    have hbytes : utf8 (RawPiece.shielded c).chars = utf8 ['\\'] ++ utf8 [c] := List.flatMap_cons
    have hslash : (utf8 ['\\']).length = 1 := by decide
    rw [hbytes, List.length_append, hslash, text]
    omega

end RawPiece

/-! Spellings -/

/-- A way to write a text or a symbol without interpolations. -/
inductive Spelling where
  | doubleQuoted (content : EscapedContent)
  | doubleQuotedSymbol (content : EscapedContent)
  | parenthesized (content : RawContent .parenthesized)
  | singleQuotedSymbol (content : RawContent .singleQuotedSymbol)

namespace Spelling

def chars : Spelling → List Char
  | .doubleQuoted content => '"' :: (EscapedPiece.content content.pieces ++ ['"'])
  | .doubleQuotedSymbol content => ':' :: '"' :: (EscapedPiece.content content.pieces ++ ['"'])
  | .parenthesized content => '%' :: 'q' :: '(' :: (RawPiece.content content.pieces ++ [')'])
  | .singleQuotedSymbol content => ':' :: '\'' :: (RawPiece.content content.pieces ++ ['\''])

/-- The bytes that are spelled. -/
def bytes : Spelling → List UInt8
  | .doubleQuoted content => content.pieces.flatMap EscapedPiece.bytes
  | .doubleQuotedSymbol content => content.pieces.flatMap EscapedPiece.bytes
  | .parenthesized content => content.pieces.flatMap fun piece => utf8 piece.text
  | .singleQuotedSymbol content => content.pieces.flatMap fun piece => utf8 piece.text

/-- The value of a text in this spelling. -/
def value (text : List Char) : Spelling → Value
  | .doubleQuoted _ => .text (String.ofList text)
  | .doubleQuotedSymbol _ => .symbol (String.ofList text)
  | .parenthesized _ => .text (String.ofList text)
  | .singleQuotedSymbol _ => .symbol (String.ofList text)

/-- What the spelling is taken for. -/
def found : Spelling → List Char
  | .doubleQuoted content => content.pieces.flatMap EscapedPiece.found
  | .doubleQuotedSymbol content => content.pieces.flatMap EscapedPiece.found
  | .parenthesized content => RawPiece.content content.pieces
  | .singleQuotedSymbol content => RawPiece.content content.pieces

/-- Whether all backslashes and line breaks are known. -/
def isKnown : Spelling → Bool
  | .doubleQuoted content => content.pieces.all EscapedPiece.isKnown
  | .doubleQuotedSymbol content => content.pieces.all EscapedPiece.isKnown
  | .parenthesized content => content.pieces.all RawPiece.isKnown
  | .singleQuotedSymbol content => content.pieces.all RawPiece.isKnown

/-- Whether a text is spelled. -/
def Spells (spelling : Spelling) (text : List Char) : Prop :=
  spelling.bytes = utf8 text

instance (spelling : Spelling) (text : List Char) : Decidable (spelling.Spells text) :=
  inferInstanceAs (Decidable (_ = _))

/-- A spelling as an item of an argument list. -/
def item : Spelling → Item
  | .doubleQuoted content => Chain.item ⟨.doubleQuoted content, []⟩
  | .doubleQuotedSymbol content => (Literal.doubleQuotedSymbol content).item
  | .parenthesized content => Chain.item ⟨.parenthesized content, []⟩
  | .singleQuotedSymbol content => (Literal.singleQuotedSymbol content).item

variable (spelling : Spelling)

theorem chars_item : spelling.item.chars = spelling.chars := by
  cases spelling with
  | doubleQuoted content =>
    rw [item, Literal.chars_alone, Literal.chars, Literal.behind, Literal.doubleQuoted,
      EscapedPiece.content_parts]
    rfl
  | doubleQuotedSymbol content =>
    show (Literal.doubleQuotedSymbol content).chars = _
    rw [Literal.chars, Literal.behind, Literal.doubleQuotedSymbol, EscapedPiece.content_parts]
    rfl
  | parenthesized content => exact (Literal.chars_alone _).trans (Literal.chars_ofRun _ _ _)
  | singleQuotedSymbol content => exact Literal.chars_ofRun _ _ _

theorem denotes : spelling.item.Denotes (spelling.value spelling.found) := by
  cases spelling with
  | doubleQuoted content =>
    have hvalue : (Literal.doubleQuoted content).value = found (.doubleQuoted content) :=
      EscapedPiece.values_parts content.pieces
    exact hvalue ▸ (Literal.IsSpelled.doubleQuoted content).denotes_alone rfl
  | doubleQuotedSymbol content =>
    have hvalue : (Literal.doubleQuotedSymbol content).value =
        found (.doubleQuotedSymbol content) := EscapedPiece.values_parts content.pieces
    exact hvalue ▸ (Literal.IsSpelled.doubleQuotedSymbol content).denotes rfl
  | parenthesized content =>
    have hvalue : (Literal.parenthesized content).value = found (.parenthesized content) :=
      Literal.values_ofRun _ _ _
    exact hvalue ▸ (Literal.IsSpelled.parenthesized content).denotes_alone rfl
  | singleQuotedSymbol content =>
    have hvalue : (Literal.singleQuotedSymbol content).value =
        found (.singleQuotedSymbol content) := Literal.values_ofRun _ _ _
    exact hvalue ▸ (Literal.IsSpelled.singleQuotedSymbol content).denotes rfl

theorem bytes_eq_iff : spelling.bytes = utf8 spelling.found ↔ spelling.isKnown = true := by
  have hescaped (content : EscapedContent) : content.pieces.flatMap EscapedPiece.bytes =
      utf8 (content.pieces.flatMap EscapedPiece.found) ↔
        content.pieces.all EscapedPiece.isKnown = true := by
    refine AgreesIf.flatMap fun piece hpiece => ?_
    obtain ⟨behind, hwritten⟩ := EscapedPiece.exists_of_mem content.isWritten hpiece
    exact EscapedPiece.agreesIf_isKnown hwritten
  have hraw (pieces : List RawPiece) : (pieces.flatMap fun piece => utf8 piece.text) =
      utf8 (RawPiece.content pieces) ↔ pieces.all RawPiece.isKnown = true :=
    AgreesIf.flatMap fun piece _ => piece.agreesIf_isKnown
  cases spelling with
  | doubleQuoted content => exact hescaped content
  | doubleQuotedSymbol content => exact hescaped content
  | parenthesized content => exact hraw content.pieces
  | singleQuotedSymbol content => exact hraw content.pieces

theorem value_inj {first second : List Char} :
    spelling.value first = spelling.value second ↔ first = second := by
  cases spelling <;> simp [value, ← String.toList_inj]

variable {spelling}

theorem value_found_eq_iff {text : List Char} (h : spelling.Spells text) :
    spelling.value spelling.found = spelling.value text ↔ spelling.isKnown = true := by
  rw [value_inj, ← bytes_eq_iff, h, utf8_inj, eq_comm]

end Spelling

/-- With a faithful parser, literals between any delimiters are read as what they are taken for, and
these are the texts that they spell exactly if all their backslashes and line breaks are known. -/
theorem Spelling.calls_eq_spelled_iff
    {name : Name} (hname : Keyword.ofWord? name.chars = none)
    {entries : List (Spelling × List Char)}
    (hentries : ∀ entry ∈ entries, entry.1.Spells entry.2) :
    let arguments := entries.map fun entry => entry.1.chars
    Parser.IsFaithful Document.tree ∧
    ∀ parser : Parser, parser.IsFaithful →
      let calls := Document.callsBy parser (String.ofList (Document.callOf name arguments))
      calls = .ok [⟨String.ofList name.chars,
          entries.map fun entry => entry.1.value entry.1.found, 1, []⟩] ∧
        (calls = .ok [⟨String.ofList name.chars,
            entries.map fun entry => entry.1.value entry.2, 1, []⟩] ↔
          ∀ entry ∈ entries, entry.1.isKnown = true) := by
  intro arguments
  refine ⟨Document.tree_isFaithful, fun parser hparser => ?_⟩
  intro calls
  have hcalls : calls = .ok [⟨String.ofList name.chars,
      entries.map fun entry => entry.1.value entry.1.found, 1, []⟩] :=
    Document.callsBy_callOf hparser hname (fun entry => entry.1.chars_item)
      (fun entry => entry.1.denotes) _
  have hvalues : (entries.map fun entry => entry.1.value entry.1.found) =
      (entries.map fun entry => entry.1.value entry.2) ↔
        ∀ entry ∈ entries, entry.1.isKnown = true :=
    List.map_inj_left.trans
      (forall₂_congr fun entry hentry => value_found_eq_iff (hentries entry hentry))
  refine ⟨hcalls, ?_⟩
  rw [hcalls, ← hvalues]
  simp

theorem Spelling.calls_eq_spelled_iff_mixed :
    let name : Name := ⟨['m', 'o', 'd'], by decide⟩
    let known : Spelling := .doubleQuoted
      ⟨[.plain '#', .escape (.named 'n'), .escape (.itself '"'), .escape (.octal ['0'])], by decide⟩
    let unknown : Spelling := .doubleQuotedSymbol
      ⟨[.escape (.codePoints [(0, ['e', '9']), (2, ['4', '1'])] 1), .joined, .plain 'b'], by decide⟩
    let raw : Spelling := .parenthesized
      ⟨[.plain '(', .kept 'n', .shielded ')', .plain ')'], by decide⟩
    let document := "mod(\"#\\n\\\"\\0\")"
    let misread := "mod(\"#\\n\\\"\\0\", :\"\\u\x7be9  41 \x7d\\\r\nb\", %q((\\n\\))))"
    Keyword.ofWord? name.chars = none ∧
      String.ofList (Document.callOf name [known.chars]) = document ∧
      String.ofList (Document.callOf name [known.chars, unknown.chars, raw.chars]) = misread ∧
      known.Spells ['#', '\n', '"', Char.ofNat 0] ∧ unknown.Spells ['é', 'A', 'b'] ∧
      raw.Spells ['(', '\\', 'n', ')', ')'] ∧
      Document.calls document = .ok [⟨"mod", [.text "#\n\"\x00"], 1, []⟩] ∧
      Document.calls misread =
        .ok [⟨"mod", [.text "#\n\"\x00", .symbol "u\x7be9  41 \x7d\r\nb", .text "(\\n\\))"], 1,
          []⟩] ∧
      Document.calls misread ≠
        .ok [⟨"mod", [.text "#\n\"\x00", .symbol "éAb", .text "(\\n))"], 1, []⟩] := by
  intro name known unknown raw document misread
  have hname : Keyword.ofWord? name.chars = none := by decide
  have hknown : known.Spells ['#', '\n', '"', Char.ofNat 0] := by decide
  have hunknown : unknown.Spells ['é', 'A', 'b'] := by decide
  have hraw : raw.Spells ['(', '\\', 'n', ')', ')'] := by decide
  have hentry : ∀ entry ∈ [(known, ['#', '\n', '"', Char.ofNat 0])], entry.1.Spells entry.2 :=
    List.forall_mem_singleton.2 hknown
  have hentries : ∀ entry ∈ [(known, ['#', '\n', '"', Char.ofNat 0]), (unknown, ['é', 'A', 'b']),
      (raw, ['(', '\\', 'n', ')', ')'])], entry.1.Spells entry.2 :=
    List.forall_mem_cons.2 ⟨hknown, List.forall_mem_cons.2 ⟨hunknown,
      List.forall_mem_singleton.2 hraw⟩⟩
  obtain ⟨hfaithful, hknowns⟩ := calls_eq_spelled_iff hname hentry
  have hread := (hknowns Document.tree hfaithful).2.2 (List.forall_mem_singleton.2 (by decide))
  obtain ⟨-, hmixed⟩ := calls_eq_spelled_iff hname hentries
  obtain ⟨hmisread, hspelled⟩ := hmixed Document.tree hfaithful
  refine ⟨hname, by decide, by decide, hknown, hunknown, hraw, hread, hmisread, fun heq => ?_⟩
  have hall := hspelled.1 heq (unknown, ['é', 'A', 'b']) (by simp)
  exact absurd hall (by decide)

/-- A byte that is written as digits, and backslashes and quotes that are shielded outside single
quotes, are not taken for what they spell. -/
theorem Document.calls_misread :
    let name : Name := ⟨['m', 'o', 'd'], by decide⟩
    let byte : Spelling := .doubleQuoted ⟨[.escape (.hex ['4', '1'])], by decide⟩
    let text : Spelling := .parenthesized ⟨[.plain 'a', .shielded '\\', .plain 'b'], by decide⟩
    let symbol : Spelling := .singleQuotedSymbol
      ⟨[.plain 'a', .shielded '\'', .plain 'b'], by decide⟩
    let document := "mod(\"\\x41\", %q(a\\\\b), :'a\\'b')"
    String.ofList (callOf name [byte.chars, text.chars, symbol.chars]) = document ∧
      byte.Spells ['A'] ∧ text.Spells ['a', '\\', 'b'] ∧ symbol.Spells ['a', '\'', 'b'] ∧
      calls document =
        .ok [⟨"mod", [.text "x41", .text "a\\\\b", .symbol "a\\'b"], 1, []⟩] ∧
      calls document ≠
        .ok [⟨"mod", [byte.value ['A'], text.value ['a', '\\', 'b'],
          symbol.value ['a', '\'', 'b']], 1, []⟩] := by
  intro name byte text symbol document
  have hname : Keyword.ofWord? name.chars = none := by decide
  have hcalls : calls document =
      .ok [⟨"mod", [.text "x41", .text "a\\\\b", .symbol "a\\'b"], 1, []⟩] :=
    callsBy_callOf tree_isFaithful hname Spelling.chars_item Spelling.denotes [byte, text, symbol]
  refine ⟨by decide, by decide, by decide, by decide, hcalls, fun heq => ?_⟩
  rw [hcalls] at heq
  simp [byte, Spelling.value] at heq

end PuppetInventory.Syntax
