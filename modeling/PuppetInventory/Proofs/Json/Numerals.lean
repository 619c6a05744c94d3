import Mathlib.Data.Nat.Digits.Defs
import PuppetInventory.Json.Reader

/-!
Numbers in every form in which JSON allows them to be written. Only a whole number below `2 ^ 64`
that is written in digits alone is kept as a natural number; what becomes of a number does not
depend on what follows it.
-/

namespace PuppetInventory.Json

/-! Written forms -/

structure IsDigits (chars : List Char) : Prop where
  ne_nil : chars ≠ []
  isDigit : ∀ c ∈ chars, c.isDigit = true

/-- The part of a number behind its whole part, up to the exponent. -/
inductive IsFraction : List Char → Prop where
  | absent : IsFraction []
  | point {digits : List Char} (h : IsDigits digits) : IsFraction ('.' :: digits)

def IsSign (chars : List Char) : Prop :=
  chars = [] ∨ chars = ['+'] ∨ chars = ['-']

inductive IsExponent : List Char → Prop where
  | absent : IsExponent []
  | power {letter : Char} {sign digits : List Char} (hletter : letter = 'e' ∨ letter = 'E')
      (hsign : IsSign sign) (h : IsDigits digits) : IsExponent (letter :: (sign ++ digits))

/-- Nothing that follows makes a run of digits longer. -/
def EndsDigits (rest : List Char) : Prop :=
  ∀ c ∈ rest.head?, c.isDigit = false

/-- Nothing that follows makes a number longer. -/
def EndsNumber (rest : List Char) : Prop :=
  ∀ c ∈ rest.head?, c.isDigit = false ∧ c ≠ '.' ∧ c ≠ 'e' ∧ c ≠ 'E'

theorem EndsNumber.endsDigits {rest : List Char} (h : EndsNumber rest) : EndsDigits rest :=
  fun c hc => (h c hc).1

theorem IsExponent.endsDigits_append {exponent rest : List Char} (h : IsExponent exponent)
    (hrest : EndsNumber rest) : EndsDigits (exponent ++ rest) := by
  cases h with
  | absent => exact hrest.endsDigits
  | power hletter =>
    intro c hc
    cases hc
    rcases hletter with rfl | rfl <;> rfl

theorem IsFraction.endsDigits_append {fraction exponent rest : List Char}
    (h : IsFraction fraction) (hexponent : IsExponent exponent) (hrest : EndsNumber rest) :
    EndsDigits (fraction ++ (exponent ++ rest)) := by
  cases h with
  | absent => exact hexponent.endsDigits_append hrest
  | point =>
    intro c hc
    cases hc
    rfl

theorem isDigits_toDigits (n : Nat) : IsDigits (Nat.toDigits 10 n) where
  ne_nil := Nat.toDigits_ne_nil
  isDigit _ hc := Nat.isDigit_of_mem_toDigits (by decide) (by decide) hc

theorem ne_of_isDigit {c d : Char} (hc : c.isDigit = true) (hd : d.isDigit = false) : c ≠ d := by
  rintro rfl
  rw [hc] at hd
  cases hd

/-! Runs of digits -/

theorem utf8Size_of_isDigit {c : Char} (h : c.isDigit = true) : c.utf8Size = 1 := by
  rw [Char.isDigit, Bool.and_eq_true, decide_eq_true_eq, decide_eq_true_eq] at h
  exact Char.utf8Size_eq_one_iff.2 (UInt32.le_trans h.2 (by decide))

theorem byteLength_digits {digits : List Char} (h : ∀ c ∈ digits, c.isDigit = true) :
    byteLength digits = digits.length := by
  suffices hsize : ∀ size, digits.foldl (fun size c => size + c.utf8Size) size =
      size + digits.length by
    simpa [byteLength] using hsize 0
  induction digits with
  | nil => exact fun size => rfl
  | cons c digits ih =>
    intro size
    rw [List.foldl_cons, utf8Size_of_isDigit (h c List.mem_cons_self),
      ih fun d hd => h d (List.mem_cons_of_mem c hd), List.length_cons]
    omega

theorem takeWhile_digits_append {digits rest : List Char} (h : ∀ c ∈ digits, c.isDigit = true)
    (hrest : EndsDigits rest) : (digits ++ rest).takeWhile Char.isDigit = digits := by
  have hstop : rest.takeWhile Char.isDigit = [] := by
    cases rest with
    | nil => rfl
    | cons c rest => exact List.takeWhile_cons_of_neg (by simp [hrest c rfl])
  rw [List.takeWhile_append_of_pos h, hstop, List.append_nil]

theorem skipDigits_append {digits rest : List Char} (h : ∀ c ∈ digits, c.isDigit = true)
    (hrest : EndsDigits rest) (offset : Nat) :
    Cursor.skipWhile ⟨digits ++ rest, offset⟩ Char.isDigit = ⟨rest, offset + digits.length⟩ := by
  have hdrop : rest.dropWhile Char.isDigit = rest := by
    cases rest with
    | nil => rfl
    | cons c rest => exact List.dropWhile_cons_of_neg (by simp [hrest c rfl])
  rw [Cursor.skipWhile, List.dropWhile_append_of_pos h, hdrop, takeWhile_digits_append h hrest,
    byteLength_digits h]

theorem takeDigits_append {digits rest : List Char} (h : ∀ c ∈ digits, c.isDigit = true)
    (hrest : EndsDigits rest) (n count : Nat) :
    takeDigits n count (digits ++ rest) = takeDigits n count digits := by
  induction digits generalizing n count with
  | nil =>
    cases rest with
    | nil => rfl
    | cons c rest => simp [takeDigits, hrest c rfl]
  | cons c digits ih =>
    rw [List.cons_append, takeDigits, takeDigits]
    simp only [ih fun d hd => h d (List.mem_cons_of_mem c hd)]

theorem le_ofDigitChars (digits : List Char) (n : Nat) : n ≤ Nat.ofDigitChars 10 digits n := by
  induction digits generalizing n with
  | nil => exact Nat.le_refl n
  | cons c digits ih =>
    rw [Nat.ofDigitChars_cons]
    exact Nat.le_trans (by omega) (ih _)

theorem ofDigitChars_cons_digitValue (c : Char) (digits : List Char) (n : Nat) :
    Nat.ofDigitChars 10 (c :: digits) n = Nat.ofDigitChars 10 digits (n * 10 + digitValue c) := by
  rw [Nat.ofDigitChars_cons, Nat.mul_comm, digitValue]

/-- Digits that fit are all taken. -/
theorem takeDigits_of_fits {digits : List Char} (h : ∀ c ∈ digits, c.isDigit = true) {n : Nat}
    (hfits : Nat.ofDigitChars 10 digits n ≤ maxNatural) (count : Nat) :
    takeDigits n count digits = (Nat.ofDigitChars 10 digits n, count + digits.length) := by
  induction digits generalizing n count with
  | nil => rfl
  | cons c digits ih =>
    have hdigit := h c List.mem_cons_self
    rw [ofDigitChars_cons_digitValue] at hfits ⊢
    have hle : n * 10 + digitValue c ≤ maxNatural := Nat.le_trans (le_ofDigitChars digits _) hfits
    rw [takeDigits]
    simp only [hdigit, hle, and_self, if_true]
    rw [ih (fun d hd => h d (List.mem_cons_of_mem c hd)) hfits, List.length_cons]
    congr 1
    omega

/-- Of digits that do not fit the last are passed over. -/
theorem takeDigits_of_exceeds {digits : List Char} {n : Nat} (hn : n ≤ maxNatural)
    (hexceeds : maxNatural < Nat.ofDigitChars 10 digits n) (count : Nat) :
    (takeDigits n count digits).2 < count + digits.length := by
  induction digits generalizing n count with
  | nil => exact absurd hn (Nat.not_le_of_lt hexceeds)
  | cons c digits ih =>
    rw [ofDigitChars_cons_digitValue] at hexceeds
    rw [takeDigits, List.length_cons]
    split
    · next hnext =>
      have htail := ih hnext.2 hexceeds (count + 1)
      omega
    · simp

/-- Only zero is written with a zero in front. -/
theorem head?_toDigits_ne_zero {n : Nat} (h : n ≠ 0) : (Nat.toDigits 10 n).head? ≠ some '0' := by
  induction n using Nat.strongRecOn with
  | ind n ih =>
    by_cases hlt : n < 10
    · rw [Nat.toDigits_of_lt_base hlt]
      have hdigit : ∀ d < 10, d ≠ 0 → [Nat.digitChar d].head? ≠ some '0' := by decide
      exact hdigit n hlt h
    · have hfront := ih (n / 10) (by omega) (by omega)
      rw [Nat.toDigits_of_base_le (by decide) (by omega)]
      cases hdigits : Nat.toDigits 10 (n / 10) with
      | nil => exact absurd hdigits Nat.toDigits_ne_nil
      | cons c digits => rwa [hdigits] at hfront

/-! What becomes of a number -/

/-- A reader has come to `rest` with a number, or has found its number out of range. -/
def IsSettled (result : Except Fault (Number × Cursor)) (rest : List Char) :
    Option Number → Prop
  | some number => ∃ offset, result = .ok (number, ⟨rest, offset⟩)
  | none => ∃ offset, result = .error ⟨.numberOutOfRange, offset⟩

/-- Whatever follows `chars`, `reader` makes the same of them. -/
def Settles (reader : Reader Number) (chars : List Char) (outcome : Option Number) : Prop :=
  ∀ rest offset, EndsNumber rest → IsSettled (reader ⟨chars ++ rest, offset⟩) rest outcome

/-- The characters are settled in one way, which is no natural number. -/
def SettlesRounded (reader : Reader Number) (chars : List Char) : Prop :=
  ∃ outcome, Settles reader chars outcome ∧ ∀ n, outcome ≠ some (.natural n)

theorem SettlesRounded.exists_iff {reader : Reader Number} {chars : List Char}
    (h : SettlesRounded reader chars) {isKept : Nat → Prop} (hnone : ∀ n, ¬isKept n) :
    ∃ outcome, Settles reader chars outcome ∧ ∀ n, outcome = some (.natural n) ↔ isKept n := by
  obtain ⟨outcome, hsettles, houtcome⟩ := h
  exact ⟨outcome, hsettles, fun n => iff_of_false (houtcome n) (hnone n)⟩

/-- A reader that goes on as another one settles what is settled there. -/
theorem SettlesRounded.of_goesOn
    {reader inner : Reader Number} {chars left : List Char} (h : SettlesRounded inner left)
    (hreader : ∀ rest offset, EndsNumber rest →
      ∃ offset', reader ⟨chars ++ rest, offset⟩ = inner ⟨left ++ rest, offset'⟩) :
    SettlesRounded reader chars := by
  obtain ⟨outcome, hsettles, houtcome⟩ := h
  refine ⟨outcome, fun rest offset hrest => ?_, houtcome⟩
  obtain ⟨offset', hread⟩ := hreader rest offset hrest
  rw [hread]
  exact hsettles rest offset' hrest

theorem settlesRounded_floatOf (isNegative : Bool) (significand : Nat) (exponent : Int) :
    SettlesRounded (floatOf isNegative significand exponent) [] := by
  cases hscaled : (Binary64.ofNat significand).bind fun x =>
      if exponent ≥ 0 then scaleUp x exponent.toNat else scaleDown 8 x (-exponent).toNat with
  | none =>
    refine ⟨none, fun rest offset _ => ⟨offset, ?_⟩, fun n h => nomatch h⟩
    simp only [floatOf, hscaled]
    rfl
  | some magnitude =>
    refine ⟨some (.float isNegative magnitude), fun rest offset _ => ⟨offset, ?_⟩,
      fun n h => nomatch h⟩
    simp only [floatOf, hscaled]
    rfl

/-! Exponents and fractions -/

/-- What a reader of exponents does with a sign and digits. -/
theorem readExponent_append {sign digits rest : List Char} (hsign : IsSign sign)
    (hdigits : IsDigits digits) (hrest : EndsNumber rest) (isNegative : Bool) (significand : Nat)
    (start : Int) (offset : Nat) :
    ∃ behind fault, readExponent isNegative significand start ⟨sign ++ digits ++ rest, offset⟩ =
      if digitsValue digits ≤ maxExponent then
        floatOf isNegative significand
          (if sign = ['-'] then start - digitsValue digits else start + digitsValue digits)
          ⟨rest, behind⟩
      else if significand ≠ 0 ∧ sign ≠ ['-'] then .error ⟨.numberOutOfRange, fault⟩
      else .ok (.float isNegative .zero, ⟨rest, behind⟩) := by
  obtain ⟨hne, hdigit⟩ := hdigits
  have hskip := skipDigits_append hdigit hrest.endsDigits
  have htake := takeWhile_digits_append hdigit hrest.endsDigits
  cases digits with
  | nil => exact absurd rfl hne
  | cons c digits =>
    have hc := hdigit c List.mem_cons_self
    have hplus : c ≠ '+' := ne_of_isDigit hc rfl
    have hminus : c ≠ '-' := ne_of_isDigit hc rfl
    rw [List.cons_append] at hskip htake
    rcases hsign with rfl | rfl | rfl
    · refine ⟨offset + (c :: digits).length, offset + fittingDigits 0 0 (c :: digits), ?_⟩
      simp [readExponent, hplus, hminus, hc, hskip, htake]
    · refine ⟨offset + '+'.utf8Size + (c :: digits).length,
        offset + '+'.utf8Size + fittingDigits 0 0 (c :: digits), ?_⟩
      simp [readExponent, hc, hskip, htake, Cursor.step]
    · refine ⟨offset + '-'.utf8Size + (c :: digits).length,
        offset + '-'.utf8Size + fittingDigits 0 0 (c :: digits), ?_⟩
      simp [readExponent, hc, hskip, htake, Cursor.step]

theorem settlesRounded_readExponent {sign digits : List Char} (hsign : IsSign sign)
    (hdigits : IsDigits digits) (isNegative : Bool) (significand : Nat) (start : Int) :
    SettlesRounded (readExponent isNegative significand start) (sign ++ digits) := by
  have hread (rest : List Char) (offset : Nat) (hrest : EndsNumber rest) :=
    readExponent_append hsign hdigits hrest isNegative significand start offset
  by_cases hfits : digitsValue digits ≤ maxExponent
  · refine (settlesRounded_floatOf isNegative significand
      (if sign = ['-'] then start - digitsValue digits else start + digitsValue digits)).of_goesOn
      fun rest offset hrest => ?_
    obtain ⟨behind, _, hreader⟩ := hread rest offset hrest
    rw [if_pos hfits] at hreader
    exact ⟨behind, hreader⟩
  by_cases hlarge : significand ≠ 0 ∧ sign ≠ ['-']
  · refine ⟨none, fun rest offset hrest => ?_, fun n h => nomatch h⟩
    obtain ⟨_, fault, hreader⟩ := hread rest offset hrest
    rw [if_neg hfits, if_pos hlarge] at hreader
    exact ⟨fault, hreader⟩
  · refine ⟨some (.float isNegative .zero), fun rest offset hrest => ?_, fun n h => nomatch h⟩
    obtain ⟨behind, _, hreader⟩ := hread rest offset hrest
    rw [if_neg hfits, if_neg hlarge] at hreader
    exact ⟨behind, hreader⟩

theorem atExponent_of_endsNumber {rest : List Char} (h : EndsNumber rest) (offset : Nat) :
    atExponent ⟨rest, offset⟩ = false := by
  have hlower : rest.head? ≠ some 'e' := fun hhead => (h 'e' hhead).2.2.1 rfl
  have hupper : rest.head? ≠ some 'E' := fun hhead => (h 'E' hhead).2.2.2 rfl
  simp [atExponent, hlower, hupper]

theorem atExponent_letter {letter : Char} (h : letter = 'e' ∨ letter = 'E') (rest : List Char)
    (offset : Nat) : atExponent ⟨letter :: rest, offset⟩ = true := by
  rcases h with rfl | rfl <;> rfl

theorem readFraction_append {digits rest : List Char} (hdigits : IsDigits digits)
    (hrest : EndsDigits rest) (isNegative : Bool) (significand : Nat) (start : Int)
    (offset : Nat) :
    readFraction isNegative significand start ⟨digits ++ rest, offset⟩ =
      if atExponent ⟨rest, offset + digits.length⟩ then
        readExponent isNegative (takeDigits significand 0 digits).1
          (start - (takeDigits significand 0 digits).2)
          (Cursor.step ⟨rest, offset + digits.length⟩)
      else
        floatOf isNegative (takeDigits significand 0 digits).1
          (start - (takeDigits significand 0 digits).2) ⟨rest, offset + digits.length⟩ := by
  obtain ⟨hne, hdigit⟩ := hdigits
  have hpos : digits.length ≠ 0 := fun h => hne (List.eq_nil_of_length_eq_zero h)
  have hmoved : ¬offset + digits.length = offset := by omega
  simp only [readFraction, takeDigits_append hdigit hrest, skipDigits_append hdigit hrest,
    if_neg hmoved]

theorem settlesRounded_readFraction {digits exponent : List Char} (hdigits : IsDigits digits)
    (hexponent : IsExponent exponent) (isNegative : Bool) (significand : Nat) (start : Int) :
    SettlesRounded (readFraction isNegative significand start) (digits ++ exponent) := by
  cases hexponent with
  | absent =>
    refine (settlesRounded_floatOf isNegative (takeDigits significand 0 digits).1
      (start - (takeDigits significand 0 digits).2)).of_goesOn fun rest offset hrest => ?_
    have hread := readFraction_append hdigits hrest.endsDigits isNegative significand start offset
    rw [atExponent_of_endsNumber hrest] at hread
    rw [List.append_nil]
    exact ⟨_, hread⟩
  | @power letter sign power hletter hsign hpower =>
    refine (settlesRounded_readExponent hsign hpower isNegative
      (takeDigits significand 0 digits).1 (start - (takeDigits significand 0 digits).2)).of_goesOn
      fun rest offset hrest => ?_
    have hends := (IsExponent.power hletter hsign hpower).endsDigits_append hrest
    have hread := readFraction_append hdigits hends isNegative significand start offset
    rw [List.cons_append, atExponent_letter hletter] at hread
    rw [List.append_assoc]
    exact ⟨_, hread⟩

/-! Whole numbers and all others -/

theorem not_leadingZero {n : Nat} {c : Char} {digits rest : List Char}
    (hdigits : Nat.toDigits 10 n = c :: digits) (hrest : EndsDigits rest) :
    ¬(c = '0' ∧ (digits ++ rest).head?.any Char.isDigit = true) := by
  rintro ⟨rfl, hmore⟩
  have hzero : n = 0 := by
    by_contra hne
    exact head?_toDigits_ne_zero hne (by rw [hdigits]; rfl)
  rw [hzero] at hdigits
  cases hdigits
  cases hhead : rest.head? with
  | none => simp [hhead] at hmore
  | some d =>
    rw [List.nil_append, hhead] at hmore
    simp [hrest d hhead] at hmore

/-- The significand of a whole number, and how many of its last digits are passed over. -/
def taken (n : Nat) : Nat :=
  (takeDigits 0 0 (Nat.toDigits 10 n)).1

def dropped (n : Nat) : Nat :=
  (Nat.toDigits 10 n).length - (takeDigits 0 0 (Nat.toDigits 10 n)).2

theorem taken_of_lt {n : Nat} (h : n < UInt64.size) : taken n = n ∧ dropped n = 0 := by
  have hvalue : Nat.ofDigitChars 10 (Nat.toDigits 10 n) 0 = n :=
    Nat.ofDigitChars_toDigits (by decide) (by decide)
  have hfits : Nat.ofDigitChars 10 (Nat.toDigits 10 n) 0 ≤ maxNatural := by
    rw [hvalue]
    exact Nat.le_of_lt_succ h
  have htake := takeDigits_of_fits (isDigits_toDigits n).isDigit hfits 0
  rw [hvalue, Nat.zero_add] at htake
  rw [taken, dropped, htake]
  exact ⟨rfl, Nat.sub_self _⟩

theorem dropped_pos {n : Nat} (h : UInt64.size ≤ n) : 0 < dropped n := by
  have hvalue : Nat.ofDigitChars 10 (Nat.toDigits 10 n) 0 = n :=
    Nat.ofDigitChars_toDigits (by decide) (by decide)
  have hexceeds : maxNatural < Nat.ofDigitChars 10 (Nat.toDigits 10 n) 0 := by
    rw [hvalue]
    exact h
  have hshort := takeDigits_of_exceeds (Nat.zero_le maxNatural) hexceeds 0
  rw [dropped]
  omega

/-- What a reader of numbers does behind their sign, with the digits of the whole part. -/
theorem readNumber_append (n : Nat) {rest : List Char} (hrest : EndsDigits rest)
    (isNegative : Bool) (offset : Nat) :
    ∃ behind, readNumber isNegative ⟨Nat.toDigits 10 n ++ rest, offset⟩ =
      if rest.head? = some '.' then
        readFraction isNegative (taken n) (dropped n) (Cursor.step ⟨rest, behind⟩)
      else if atExponent ⟨rest, behind⟩ then
        readExponent isNegative (taken n) (dropped n) (Cursor.step ⟨rest, behind⟩)
      else if dropped n > 0 then floatOf isNegative (taken n) (dropped n) ⟨rest, behind⟩
      else if ¬isNegative then .ok (.natural (taken n), ⟨rest, behind⟩)
      else if 0 < taken n ∧ taken n ≤ 1 <<< 63 then .ok (.negative (taken n), ⟨rest, behind⟩)
      else floatOf true (taken n) 0 ⟨rest, behind⟩ := by
  have hdigit := (isDigits_toDigits n).isDigit
  have htake := takeDigits_append hdigit hrest 0 0
  have hskip := skipDigits_append hdigit hrest offset
  have hdropped : offset + (Nat.toDigits 10 n).length - offset -
      (takeDigits 0 0 (Nat.toDigits 10 n)).2 = dropped n := by
    rw [dropped, Nat.add_sub_cancel_left]
  refine ⟨offset + (Nat.toDigits 10 n).length, ?_⟩
  simp only [readNumber, htake, hskip, hdropped]
  cases hdigits : Nat.toDigits 10 n with
  | nil => exact absurd hdigits Nat.toDigits_ne_nil
  | cons c digits =>
    rw [hdigits] at hdigit
    simp only [List.cons_append, hdigit c List.mem_cons_self, not_true_eq_false, if_false,
      if_neg (not_leadingZero hdigits hrest)]
    rw [← hdigits]
    rfl

theorem head?_ne_point {exponent rest : List Char} (h : IsExponent exponent)
    (hrest : EndsNumber rest) : (exponent ++ rest).head? ≠ some '.' := by
  intro hhead
  cases h with
  | absent => exact (hrest '.' hhead).2.1 rfl
  | power hletter =>
    cases hhead
    rcases hletter with hletter | hletter <;> cases hletter

theorem settlesRounded_of_fraction (isNegative : Bool) (n : Nat) {digits exponent : List Char}
    (hdigits : IsDigits digits) (hexponent : IsExponent exponent) :
    SettlesRounded (readNumber isNegative) (Nat.toDigits 10 n ++ ('.' :: digits ++ exponent)) := by
  refine (settlesRounded_readFraction hdigits hexponent isNegative (taken n) (dropped n)).of_goesOn
    fun rest offset hrest => ?_
  have hends := (IsFraction.point hdigits).endsDigits_append hexponent hrest
  obtain ⟨behind, hread⟩ := readNumber_append n hends isNegative offset
  rw [List.cons_append, List.head?_cons, if_pos rfl] at hread
  rw [List.append_assoc, List.cons_append, List.cons_append, List.append_assoc]
  exact ⟨_, hread⟩

theorem settlesRounded_of_exponent (isNegative : Bool) (n : Nat) {letter : Char}
    {sign digits : List Char} (hletter : letter = 'e' ∨ letter = 'E') (hsign : IsSign sign)
    (hdigits : IsDigits digits) :
    SettlesRounded (readNumber isNegative)
      (Nat.toDigits 10 n ++ letter :: (sign ++ digits)) := by
  refine (settlesRounded_readExponent hsign hdigits isNegative (taken n) (dropped n)).of_goesOn
    fun rest offset hrest => ?_
  have hexponent := IsExponent.power hletter hsign hdigits
  obtain ⟨behind, hread⟩ :=
    readNumber_append n (hexponent.endsDigits_append hrest) isNegative offset
  rw [if_neg (head?_ne_point hexponent hrest), List.cons_append, atExponent_letter hletter,
    if_pos rfl] at hread
  rw [List.append_assoc, List.cons_append]
  exact ⟨_, hread⟩

/-- What a reader of numbers does with digits alone. -/
theorem readNumber_whole (n : Nat) {rest : List Char} (hrest : EndsNumber rest)
    (isNegative : Bool) (offset : Nat) :
    ∃ behind, readNumber isNegative ⟨Nat.toDigits 10 n ++ rest, offset⟩ =
      if dropped n > 0 then floatOf isNegative (taken n) (dropped n) ⟨rest, behind⟩
      else if ¬isNegative then .ok (.natural (taken n), ⟨rest, behind⟩)
      else if 0 < taken n ∧ taken n ≤ 1 <<< 63 then .ok (.negative (taken n), ⟨rest, behind⟩)
      else floatOf true (taken n) 0 ⟨rest, behind⟩ := by
  obtain ⟨behind, hread⟩ := readNumber_append n hrest.endsDigits isNegative offset
  have hpoint : rest.head? ≠ some '.' := head?_ne_point .absent hrest
  rw [if_neg hpoint, atExponent_of_endsNumber hrest] at hread
  exact ⟨behind, hread⟩

theorem settles_natural {n : Nat} (h : n < UInt64.size) :
    Settles (readNumber false) (Nat.toDigits 10 n) (some (.natural n)) := by
  intro rest offset hrest
  obtain ⟨behind, hread⟩ := readNumber_whole n hrest false offset
  obtain ⟨htaken, hdropped⟩ := taken_of_lt h
  rw [hdropped, htaken] at hread
  exact ⟨behind, hread⟩

theorem settlesRounded_negative {n : Nat} (h : n < UInt64.size) :
    SettlesRounded (readNumber true) (Nat.toDigits 10 n) := by
  obtain ⟨htaken, hdropped⟩ := taken_of_lt h
  have hread (rest : List Char) (offset : Nat) (hrest : EndsNumber rest) :=
    readNumber_whole n hrest true offset
  rw [hdropped, htaken] at hread
  by_cases hfits : 0 < n ∧ n ≤ 1 <<< 63
  · refine ⟨some (.negative n), fun rest offset hrest => ?_, fun n h => nomatch h⟩
    obtain ⟨behind, hreader⟩ := hread rest offset hrest
    rw [if_pos hfits] at hreader
    exact ⟨behind, hreader⟩
  · rw [← List.append_nil (Nat.toDigits 10 n)]
    refine (settlesRounded_floatOf true n 0).of_goesOn fun rest offset hrest => ?_
    obtain ⟨behind, hreader⟩ := hread rest offset hrest
    rw [if_neg hfits] at hreader
    rw [List.append_nil]
    exact ⟨behind, hreader⟩

theorem settlesRounded_large {n : Nat} (h : UInt64.size ≤ n) (isNegative : Bool) :
    SettlesRounded (readNumber isNegative) (Nat.toDigits 10 n) := by
  refine (settlesRounded_floatOf isNegative (taken n) (dropped n)).of_goesOn
    fun rest offset hrest => ?_
  obtain ⟨behind, hread⟩ := readNumber_whole n hrest isNegative offset
  rw [if_pos (dropped_pos h)] at hread
  exact ⟨behind, hread⟩

/-- A number is settled by its characters, and it is kept as a natural number just when these are
the digits of that number and it fits into 64 bits. -/
theorem exists_settles (isNegative : Bool) (whole : Nat) {fraction exponent : List Char}
    (hfraction : IsFraction fraction) (hexponent : IsExponent exponent) :
    ∃ outcome,
      Settles (readNumber isNegative) (Nat.toDigits 10 whole ++ (fraction ++ exponent)) outcome ∧
        ∀ n, outcome = some (.natural n) ↔
          isNegative = false ∧ fraction = [] ∧ exponent = [] ∧ whole = n ∧ n < UInt64.size := by
  cases hfraction with
  | point hdigits =>
    exact (settlesRounded_of_fraction isNegative whole hdigits hexponent).exists_iff (by simp)
  | absent =>
    cases hexponent with
    | power hletter hsign hdigits =>
      exact (settlesRounded_of_exponent isNegative whole hletter hsign hdigits).exists_iff (by simp)
    | absent =>
      rw [List.append_nil, List.append_nil]
      rcases Nat.lt_or_ge whole UInt64.size with hsmall | hlarge
      · cases isNegative with
        | true => exact (settlesRounded_negative hsmall).exists_iff (by simp)
        | false =>
          refine ⟨_, settles_natural hsmall, fun n => ⟨?_, ?_⟩⟩
          · rintro ⟨⟩
            exact ⟨rfl, rfl, rfl, rfl, hsmall⟩
          · rintro ⟨-, -, -, rfl, -⟩
            rfl
      · refine (settlesRounded_large hlarge isNegative).exists_iff ?_
        rintro n ⟨-, -, -, rfl, hsmall⟩
        exact Nat.not_lt_of_le hlarge hsmall

end PuppetInventory.Json
