import PuppetInventory.Syntax.Characters
import PuppetInventory.Proofs.Reading.Places

/-!
Plain names: a small letter or an underscore, and letters, digits and underscores behind it. However
words are read, a plain name is read to its end and no further.
-/

namespace PuppetInventory.Syntax

/-! Characters -/

theorem toNat_lt_of_isPlainWordChar {c : Char} (h : isPlainWordChar c = true) : c.toNat < 128 := by
  unfold isPlainWordChar Char.isAlphanum Char.isAlpha Char.isUpper Char.isLower Char.isDigit at h
  simp only [Bool.or_eq_true, Bool.and_eq_true, decide_eq_true_eq] at h
  rcases h with ((⟨_, h⟩ | ⟨_, h⟩) | ⟨_, h⟩) | rfl
  · exact Nat.lt_of_le_of_lt (UInt32.le_iff_toNat_le.1 h) (by decide)
  · exact Nat.lt_of_le_of_lt (UInt32.le_iff_toNat_le.1 h) (by decide)
  · exact Nat.lt_of_le_of_lt (UInt32.le_iff_toNat_le.1 h) (by decide)
  · decide

/-- What holds of all ASCII characters of names holds of all characters of names. -/
theorem forall_isPlainWordChar
    (holds : Char → Bool)
    (h : ∀ n < 128, isPlainWordChar (Char.ofNat n) = true → holds (Char.ofNat n) = true)
    {c : Char} (hc : isPlainWordChar c = true) : holds c = true := by
  have heq : Char.ofNat c.toNat = c := Char.ofNat_toNat c
  rw [← heq] at hc ⊢
  exact h c.toNat (toNat_lt_of_isPlainWordChar (heq ▸ hc)) hc

theorem isWordChar_of_isPlainWordChar {c : Char} : isPlainWordChar c = true → isWordChar c = true :=
  forall_isPlainWordChar _ (by decide)

theorem isSymbolChar_of_isPlainWordChar {c : Char} :
    isPlainWordChar c = true → isSymbolChar c = true :=
  forall_isPlainWordChar _ (by decide)

theorem ne_of_isPlainWordChar {c d : Char} (hc : isPlainWordChar c = true)
    (hd : isPlainWordChar d = false) : c ≠ d := by
  rintro rfl
  rw [hc] at hd
  cases hd

/-! Names -/

def startsName (c : Char) : Bool :=
  c.isLower || c = '_'

/-- Whether characters form a plain name. -/
def isName : List Char → Bool
  | [] => false
  | c :: rest => startsName c && rest.all isPlainWordChar

theorem isPlainWordChar_of_startsName {c : Char} (h : startsName c = true) :
    isPlainWordChar c = true := by
  simp only [startsName, Bool.or_eq_true, decide_eq_true_eq] at h
  rcases h with hlower | rfl
  · unfold isPlainWordChar Char.isAlphanum Char.isAlpha
    simp [hlower]
  · rfl

theorem not_isDigit_isUpper_of_startsName {c : Char} (h : startsName c = true) :
    c.isDigit = false ∧ c.isUpper = false := by
  have hc := forall_isPlainWordChar (fun c => !startsName c || (!c.isDigit && !c.isUpper))
    (by decide) (isPlainWordChar_of_startsName h)
  simpa [h] using hc

/-- The characters that end a word, however it is read. -/
def wordEnds : List Char :=
  [' ', ',', '(', ')', ']', '}', '\n']

/-- Whether what follows a word ends it. -/
def endsWord (rest : List Char) : Bool :=
  rest.head?.all wordEnds.contains

theorem head?_of_endsWord
    (holds : Char → Bool) {rest : List Char} (h : wordEnds.any holds = false)
    (hrest : endsWord rest = true) : ∀ c ∈ rest.head?, holds c = false := by
  intro c hc
  rw [endsWord, Option.mem_def.1 hc] at hrest
  rw [List.any_eq_false] at h
  exact Bool.eq_false_iff.2 (h c (List.contains_iff_mem.1 hrest))

section

variable {word rest : List Char}

theorem startsName_of_isName {c : Char} (h : isName (c :: rest) = true) : startsName c = true := by
  rw [isName, Bool.and_eq_true] at h
  exact h.1

theorem isPlainWordChar_of_isName (h : isName word = true) {c : Char} (hc : c ∈ word) :
    isPlainWordChar c = true := by
  cases word with
  | nil => cases hc
  | cons first others =>
    rw [isName, Bool.and_eq_true, List.all_eq_true] at h
    rcases List.mem_cons.1 hc with rfl | hc
    · exact isPlainWordChar_of_startsName h.1
    · exact h.2 c hc

theorem exists_cons_of_isName (h : isName word = true) :
    ∃ c chars, word = c :: chars ∧ isPlainWordChar c = true := by
  cases word with
  | nil => cases h
  | cons c chars => exact ⟨c, chars, rfl, isPlainWordChar_of_isName h List.mem_cons_self⟩

theorem takeWhile_isPlainWordChar (h : isName word = true)
    (hrest : ∀ c ∈ rest.head?, isPlainWordChar c = false) :
    (word ++ rest).takeWhile isPlainWordChar = word :=
  Input.takeWhile_append (fun _ hc => isPlainWordChar_of_isName h hc) hrest

theorem takeWhile_isWordChar (h : isName word = true) (hrest : endsWord rest = true) :
    (word ++ rest).takeWhile isWordChar = word :=
  Input.takeWhile_append
    (fun _ hc => isWordChar_of_isPlainWordChar (isPlainWordChar_of_isName h hc))
    (head?_of_endsWord _ (by decide) hrest)

theorem afterSymbolName?_of_isName
    (h : isName word = true) (hrest : endsWord rest = true) (position : Position) :
    (Input.mk (word ++ rest) position).afterSymbolName? = some ⟨rest, position.past word⟩ := by
  obtain ⟨c, others, rfl, hplain⟩ := exists_cons_of_isName h
  have hat : c ≠ '@' := ne_of_isPlainWordChar hplain (by decide)
  have hdollar : c ≠ '$' := ne_of_isPlainWordChar hplain (by decide)
  have hsigil : (Input.mk (c :: (others ++ rest)) position).afterSigil =
      ⟨c :: (others ++ rest), position⟩ := by
    unfold Input.afterSigil
    split <;> simp_all
  have hword : ((Input.mk (c :: (others ++ rest)) position).skip 1).skipWhile isSymbolChar =
      ⟨rest, position.past (c :: others)⟩ :=
    Input.skipWhile_append (position.after c)
      (fun _ hd => isSymbolChar_of_isPlainWordChar
        (isPlainWordChar_of_isName h (List.mem_cons_of_mem c hd)))
      (head?_of_endsWord _ (by decide) hrest)
  have hsetter : (Input.mk rest (position.past (c :: others))).afterSetterMark =
      ⟨rest, position.past (c :: others)⟩ := by
    have hequals := head?_of_endsWord (· = '=') (by decide) hrest
    unfold Input.afterSetterMark
    split <;> simp_all
  rw [List.cons_append]
  simp only [Input.afterSymbolName?, hsigil, isSymbolChar_of_isPlainWordChar hplain, if_true,
    hword, Nat.one_ne_zero, if_false]
  have hquestion := head?_of_endsWord (· = '?') (by decide) hrest
  have hbang := head?_of_endsWord (· = '!') (by decide) hrest
  split
  · simp at hquestion
  · simp at hbang
  · rw [hsetter]

end

end PuppetInventory.Syntax
