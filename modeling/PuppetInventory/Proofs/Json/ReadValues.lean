import PuppetInventory.Proofs.Json.Members
import PuppetInventory.Json.Reader

/-!
What every value that is read keeps to, at any depth: no object has a key in two of its members, and
whole numbers are below `2 ^ 64`.
-/

namespace PuppetInventory.Json

def Number.Fits : Number → Prop
  | .natural n => n < UInt64.size
  | _ => True

/-- No object inside a value has two members of one key, and whole numbers fit into 64 bits. -/
inductive Value.IsProper : Value → Prop where
  | null : IsProper .null
  | boolean (truth : Bool) : IsProper (.boolean truth)
  | number {number : Number} (h : number.Fits) : IsProper (.number number)
  | string (text : String) : IsProper (.string text)
  | array {items : List Value} (h : ∀ item ∈ items, IsProper item) : IsProper (.array items)
  | object {members : List (String × Value)} (hkeys : (members.map Prod.fst).Nodup)
      (h : ∀ member ∈ members, IsProper member.2) : IsProper (.object members)

/-- All that a reader can give has a property. -/
def Yields {α : Type} (reader : Reader α) (property : α → Prop) : Prop :=
  ∀ cursor value next, reader cursor = .ok (value, next) → property value

theorem exists_of_bind_eq_ok {ε α β : Type} {first : Except ε α} {next : α → Except ε β}
    {result : β} (h : (first >>= next) = .ok result) :
    ∃ value, first = .ok value ∧ next value = .ok result := by
  cases first with
  | error fault => cases h
  | ok value => exact ⟨value, rfl, h⟩

theorem yields_readWord {α : Type} (value : α) (word : List Char) :
    Yields (readWord value word) (· = value) := by
  induction word with
  | nil =>
    intro cursor found next h
    cases h
    rfl
  | cons c word ih =>
    intro cursor found next h
    rw [readWord] at h
    split at h
    · cases h
    · split at h
      · exact ih _ _ _ h
      · cases h

/-! Numbers -/

theorem takeDigits_le {significand : Nat} (h : significand ≤ maxNatural) (count : Nat)
    (chars : List Char) : (takeDigits significand count chars).1 ≤ maxNatural := by
  induction chars generalizing significand count with
  | nil => exact h
  | cons c chars ih =>
    rw [takeDigits]
    split
    · next hnext => exact ih hnext.2 _
    · exact h

theorem yields_floatOf (isNegative : Bool) (significand : Nat) (exponent : Int) :
    Yields (floatOf isNegative significand exponent) Number.Fits := by
  intro cursor number next h
  unfold floatOf at h
  dsimp only at h
  split at h
  · cases h
    trivial
  · cases h

theorem yields_readExponent (isNegative : Bool) (significand : Nat) (start : Int) :
    Yields (readExponent isNegative significand start) Number.Fits := by
  intro cursor number next h
  unfold readExponent at h
  dsimp only at h
  generalize (if cursor.rest.head? = some '-' ∨ cursor.rest.head? = some '+' then cursor.step
    else cursor) = behindSign at h
  split at h
  · cases h
  · split at h
    · cases h
    · split at h
      · exact yields_floatOf _ _ _ _ _ _ h
      · split at h
        · cases h
        · cases h
          trivial

theorem yields_readFraction (isNegative : Bool) (significand : Nat) (start : Int) :
    Yields (readFraction isNegative significand start) Number.Fits := by
  intro cursor number next h
  unfold readFraction at h
  dsimp only at h
  split at h
  · cases h
  · split at h
    · exact yields_readExponent _ _ _ _ _ _ h
    · exact yields_floatOf _ _ _ _ _ _ h

theorem yields_readNumber (isNegative : Bool) : Yields (readNumber isNegative) Number.Fits := by
  intro cursor number next h
  unfold readNumber at h
  dsimp only at h
  split at h
  · cases h
  split at h
  · cases h
  split at h
  · cases h
  split at h
  · exact yields_readFraction _ _ _ _ _ _ h
  split at h
  · exact yields_readExponent _ _ _ _ _ _ h
  split at h
  · exact yields_floatOf _ _ _ _ _ _ h
  split at h
  · cases h
    exact Nat.lt_succ_of_le (takeDigits_le (Nat.zero_le maxNatural) 0 cursor.rest)
  split at h
  · cases h
    trivial
  · exact yields_floatOf _ _ _ _ _ _ h

/-! Values -/

section Items

variable {item : Reader Value} {property : Value → Prop}

theorem yields_readItems (hitem : Yields item property) (fuel : Nat) :
    Yields (readItems item fuel) fun values => ∀ value ∈ values, property value := by
  induction fuel with
  | zero =>
    intro cursor values next h
    cases h
  | succ fuel ih =>
    intro cursor values next h
    rw [readItems] at h
    obtain ⟨⟨first, afterFirst⟩, hfirst, h⟩ := exists_of_bind_eq_ok h
    have hproperty := hitem _ _ _ hfirst
    dsimp only at h
    split at h
    · cases h
    · split at h
      · cases h
        exact List.forall_mem_singleton.2 hproperty
      · split at h
        · split at h
          · cases h
          · split at h
            · cases h
            · obtain ⟨⟨others, afterOthers⟩, hothers, h⟩ := exists_of_bind_eq_ok h
              cases h
              exact List.forall_mem_cons.2 ⟨hproperty, ih _ _ _ hothers⟩
        · cases h

theorem yields_readEntries (hitem : Yields item property) (fuel : Nat) :
    Yields (readEntries item fuel) fun entries => ∀ entry ∈ entries, property entry.2 := by
  induction fuel with
  | zero =>
    intro cursor entries next h
    cases h
  | succ fuel ih =>
    intro cursor entries next h
    rw [readEntries] at h
    obtain ⟨⟨key, afterKey⟩, -, h⟩ := exists_of_bind_eq_ok h
    obtain ⟨⟨colon, afterColon⟩, -, h⟩ := exists_of_bind_eq_ok h
    obtain ⟨⟨value, afterValue⟩, hvalue, h⟩ := exists_of_bind_eq_ok h
    have hproperty := hitem _ _ _ hvalue
    dsimp only at h
    split at h
    · cases h
    · split at h
      · cases h
        exact List.forall_mem_singleton.2 hproperty
      · split at h
        · split at h
          · cases h
          · split at h
            · obtain ⟨⟨others, afterOthers⟩, hothers, h⟩ := exists_of_bind_eq_ok h
              cases h
              exact List.forall_mem_cons.2 ⟨hproperty, ih _ _ _ hothers⟩
            · split at h <;> cases h
        · cases h

end Items

theorem yields_readList {item : Reader Value} (hitem : Yields item Value.IsProper) :
    Yields (readList item) Value.IsProper := by
  intro cursor value next h
  rw [readList] at h
  dsimp only at h
  split at h
  · cases h
  · split at h
    · cases h
      exact .array fun item hmem => absurd hmem List.not_mem_nil
    · obtain ⟨⟨items, afterItems⟩, hitems, h⟩ := exists_of_bind_eq_ok h
      cases h
      exact .array (yields_readItems hitem _ _ _ _ hitems)

theorem yields_readObject {item : Reader Value} (hitem : Yields item Value.IsProper) :
    Yields (readObject item) Value.IsProper := by
  intro cursor value next h
  rw [readObject] at h
  dsimp only at h
  split at h
  · cases h
  · split at h
    · cases h
      exact .object List.nodup_nil fun member hmem => absurd hmem List.not_mem_nil
    · split at h
      · obtain ⟨⟨entries, afterEntries⟩, hentries, h⟩ := exists_of_bind_eq_ok h
        cases h
        refine .object (nodup_keys_membersOf entries) fun member hmember => ?_
        exact yields_readEntries hitem _ _ _ _ hentries member (mem_of_mem_membersOf hmember)
      · cases h

/-- A value has no members, or it is a list or an object whose members stand one level deeper. -/
theorem readValue_cases {depth : Nat} {cursor next : Cursor} {value : Value}
    (h : readValue depth cursor = .ok (value, next)) :
    value.IsProper ∨ ∃ inner start, depth = inner + 1 ∧
      (readList (readValue inner) start = .ok (value, next) ∨
        readObject (readValue inner) start = .ok (value, next)) := by
  rw [readValue] at h
  split at h
  · cases h
  split at h
  · rw [yields_readWord _ _ _ _ _ h]
    exact .inl .null
  split at h
  · rw [yields_readWord _ _ _ _ _ h]
    exact .inl (.boolean true)
  split at h
  · rw [yields_readWord _ _ _ _ _ h]
    exact .inl (.boolean false)
  split at h
  · obtain ⟨⟨number, afterNumber⟩, hnumber, h⟩ := exists_of_bind_eq_ok h
    cases h
    exact .inl (.number (yields_readNumber _ _ _ _ hnumber))
  split at h
  · obtain ⟨⟨number, afterNumber⟩, hnumber, h⟩ := exists_of_bind_eq_ok h
    cases h
    exact .inl (.number (yields_readNumber _ _ _ _ hnumber))
  split at h
  · obtain ⟨⟨text, afterText⟩, -, h⟩ := exists_of_bind_eq_ok h
    cases h
    exact .inl (.string text)
  split at h
  · split at h
    · cases h
    · next inner =>
      split at h
      · exact .inr ⟨inner, _, rfl, .inl h⟩
      · exact .inr ⟨inner, _, rfl, .inr h⟩
  · cases h

theorem yields_readValue (depth : Nat) : Yields (readValue depth) Value.IsProper := by
  -- Lists and objects read their members at the depth below, so the induction is on the depth.
  induction depth with
  | zero =>
    intro cursor value next h
    rcases readValue_cases h with hvalue | ⟨inner, start, hdepth, -⟩
    · exact hvalue
    · cases hdepth
  | succ depth ih =>
    intro cursor value next h
    rcases readValue_cases h with hvalue | ⟨inner, start, hdepth, hlist | hobject⟩
    · exact hvalue
    · cases hdepth
      exact yields_readList ih _ _ _ hlist
    · cases hdepth
      exact yields_readObject ih _ _ _ hobject

theorem isProper_of_read {text : String} {value : Value} (h : read text = .ok value) :
    value.IsProper := by
  obtain ⟨⟨found, afterValue⟩, hvalue, h⟩ := exists_of_bind_eq_ok h
  dsimp only at h
  split at h
  · cases h
    exact yields_readValue _ _ _ _ hvalue
  · cases h

end PuppetInventory.Json
