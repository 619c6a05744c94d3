import PuppetInventory.Json.Printer
import PuppetInventory.Proofs.Json.Documents

/-!
Rendered values are written forms. A record, that is an object of texts, whole numbers and nulls,
takes one line, and reading the line gives the record back.
-/

namespace PuppetInventory.Json

/-- What a field of a record can hold. -/
inductive IsField : Value → Prop where
  | null : IsField .null
  | string (text : String) : IsField (.string text)
  | natural {n : Nat} (h : n < UInt64.size) : IsField (.number (.natural n))

/-! Rendered texts -/

theorem hexDigit_eq_digitChar : ∀ n < 16, hexDigit n = Nat.digitChar n := by
  decide

theorem isHexDigit_hexDigit {n : Nat} (h : n < 16) : IsHexDigit n (hexDigit n) :=
  ⟨h, .inl (hexDigit_eq_digitChar n h)⟩

theorem isHexUnit_control {n : Nat} (h : n < 32) :
    IsHexUnit n ['0', '0', hexDigit (n / 16), hexDigit (n % 16)] := by
  have hvalue : ((0 * 16 + 0) * 16 + n / 16) * 16 + n % 16 = n := by omega
  have hunit := IsHexUnit.intro (isHexDigit_hexDigit (n := 0) (by decide))
    (isHexDigit_hexDigit (n := 0) (by decide)) (isHexDigit_hexDigit (n := n / 16) (by omega))
    (isHexDigit_hexDigit (n := n % 16) (by omega))
  rw [hvalue] at hunit
  exact hunit

theorem eq_ofNat_of_toNat {c : Char} {n : Nat} (h : c.toNat = n) : c = Char.ofNat n := by
  rw [← h, Char.ofNat_toNat]

theorem spellsChar_escapeChar (c : Char) : SpellsChar c (escapeChar c) := by
  unfold escapeChar
  split
  · next h => exact .short (by rw [h]; decide)
  split
  · next h => exact .short (by rw [h]; decide)
  split
  · next h => exact .short (by rw [h]; decide)
  split
  · next h => exact .short (by rw [h]; decide)
  split
  · next h => exact .short (by rw [h]; decide)
  split
  · next h => exact .short (by rw [eq_ofNat_of_toNat h]; decide)
  split
  · next h => exact .short (by rw [eq_ofNat_of_toNat h]; decide)
  split
  · next h => exact .unit (isHexUnit_control h)
  · next hquote hbackslash _ _ _ _ _ hcontrol =>
    exact .plain hquote hbackslash (Nat.le_of_not_lt hcontrol)

theorem spellsText_escape (text : List Char) : SpellsText text (text.flatMap escapeChar) := by
  induction text with
  | nil => exact .nil
  | cons c text ih => exact .cons (spellsChar_escapeChar c) ih

theorem toList_quote (text : String) :
    (quote text).toList = '"' :: (text.toList.flatMap escapeChar ++ ['"']) :=
  String.toList_ofList

theorem lineFeed_not_mem_quote (text : String) : '\n' ∉ (quote text).toList := by
  have htext := (spellsText_escape text.toList).lineFeed_not_mem
  rw [toList_quote]
  simp [htext]

/-! Rendered objects -/

section Objects

variable {α : Type} {spells : α → List Char → Prop} (toValue : α → Value)

theorem spellsMember_render {member : String × α}
    (h : spells member.2 (toValue member.2).render.toList) :
    SpellsMember spells member (quote member.1 ++ ":" ++ (toValue member.2).render).toList := by
  obtain ⟨key, value⟩ := member
  have htext : (quote key ++ ":" ++ (toValue value).render).toList =
      '"' :: (key.toList.flatMap escapeChar ++
        '"' :: ([] ++ ':' :: ([] ++ ((toValue value).render.toList ++ [])))) := by
    simp [toList_quote]
  rw [htext]
  exact .intro (spellsText_escape key.toList) isBlanks_nil isBlanks_nil h isBlanks_nil

theorem spellsMembers_render {members : List (String × α)} (hne : members ≠ [])
    (h : ∀ member ∈ members, spells member.2 (toValue member.2).render.toList) :
    SpellsMembers spells members (String.intercalate ","
      (renderMembers (members.map fun member => (member.1, toValue member.2)))).toList := by
  induction members with
  | nil => exact absurd rfl hne
  | cons member members ih =>
    have hmember := spellsMember_render toValue (h member List.mem_cons_self)
    cases members with
    | nil => exact .last hmember
    | cons next members =>
      have hrest := ih (List.cons_ne_nil _ _) fun other hother =>
        h other (List.mem_cons_of_mem member hother)
      rw [List.map_cons] at hrest
      rw [List.map_cons, List.map_cons]
      have htext (entry following : String × Value) (entries : List (String × Value)) :
          (String.intercalate "," (renderMembers (entry :: following :: entries))).toList =
            (quote entry.1 ++ ":" ++ entry.2.render).toList ++
              ',' :: ([] ++
                (String.intercalate "," (renderMembers (following :: entries))).toList) := by
        rw [renderMembers, renderMembers, String.intercalate_cons_cons]
        simp
      rw [htext]
      exact .more hmember isBlanks_nil hrest

/-- A rendered object is a written form of it if that holds of the values of its members. -/
theorem spellsObject_render {members : List (String × α)}
    (h : ∀ member ∈ members, spells member.2 (toValue member.2).render.toList) :
    SpellsObject spells members
      (Value.object (members.map fun member => (member.1, toValue member.2))).render.toList := by
  have htext (entries : List (String × Value)) : (Value.object entries).render.toList =
      '\x7b' :: ([] ++ ((String.intercalate "," (renderMembers entries)).toList ++ ['\x7d'])) := by
    simp [Value.render]
  rw [htext]
  cases members with
  | nil => exact .empty isBlanks_nil
  | cons member members =>
    exact .filled isBlanks_nil (spellsMembers_render toValue (List.cons_ne_nil _ _) h)

end Objects

/-! Rendered records -/

/-- `chars` is how a field of a record is rendered. -/
def RendersField (value : Value) (chars : List Char) : Prop :=
  IsField value ∧ chars = value.render.toList

theorem toList_render_natural (n : Nat) :
    (Value.number (.natural n)).render.toList = Nat.toDigits 10 n :=
  Nat.toList_repr

theorem spellsValue_field (depth : Nat) (value : Value) (chars : List Char)
    (h : RendersField value chars) : SpellsValue depth value chars := by
  obtain ⟨hfield, rfl⟩ := h
  cases hfield with
  | null => exact spellsValue_null depth
  | string text =>
    rw [Value.render, toList_quote]
    exact spellsValue_string (spellsText_escape text.toList) depth
  | @natural n h =>
    rw [toList_render_natural]
    exact spellsValue_natural h depth

theorem TextReader.IsFaithful.read_render_object
    {reader : TextReader} (hreader : reader.IsFaithful) {members : List (String × Value)}
    (hfields : ∀ member ∈ members, IsField member.2) (hkeys : (members.map Prod.fst).Nodup) :
    reader (Value.object members).render = .ok (.object members) := by
  have hrendered : ∀ member ∈ members, RendersField member.2 (id member.2).render.toList :=
    fun member hmember => ⟨hfields member hmember, rfl⟩
  have hobject := spellsValue_object (spellsValue_field 126) (spellsObject_render id hrendered)
  simp only [id_eq, List.map_id'] at hobject
  rw [membersOf_of_nodup hkeys] at hobject
  exact hreader.read_of_spellsValue hobject isBlanks_nil isBlanks_nil (by simp)

theorem lineFeed_not_mem_digits (n : Nat) : '\n' ∉ Nat.toDigits 10 n := by
  intro h
  have hdigit := Nat.isDigit_of_mem_toDigits (by decide) (by decide) h
  cases hdigit

theorem IsField.lineFeed_not_mem {value : Value} (h : IsField value) :
    '\n' ∉ value.render.toList := by
  cases h with
  | null => decide
  | string text => exact lineFeed_not_mem_quote text
  | @natural n _ =>
    rw [toList_render_natural]
    exact lineFeed_not_mem_digits n

theorem lineFeed_not_mem_renderMembers {members : List (String × Value)}
    (h : ∀ member ∈ members, IsField member.2) :
    '\n' ∉ (String.intercalate "," (renderMembers members)).toList := by
  induction members with
  | nil => exact List.not_mem_nil
  | cons member members ih =>
    have hkey := lineFeed_not_mem_quote member.1
    have hvalue := (h member List.mem_cons_self).lineFeed_not_mem
    cases members with
    | nil => simp [renderMembers, hkey, hvalue]
    | cons next members =>
      have hrest := ih fun other hother => h other (List.mem_cons_of_mem member hother)
      rw [renderMembers] at hrest ⊢
      rw [renderMembers, String.intercalate_cons_cons]
      simp only [String.toList_append, List.mem_append, hkey, hvalue, hrest]
      decide

theorem lineFeed_not_mem_render_object {members : List (String × Value)}
    (h : ∀ member ∈ members, IsField member.2) :
    '\n' ∉ (Value.object members).render.toList := by
  have hmembers := lineFeed_not_mem_renderMembers h
  simp only [Value.render, String.toList_append, List.mem_append, hmembers]
  decide

end PuppetInventory.Json
