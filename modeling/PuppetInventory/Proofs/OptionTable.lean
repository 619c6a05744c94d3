import PuppetInventory.Options

/-!
Looking up options: what a table made of pairs holds under a key, and which keys it has. What a
table holds under its keys is all there is to it.
-/

namespace PuppetInventory.Options

theorem lookup_cons
    {α : Type} (key other : String) (value : α) (entries : List (String × α)) :
    ((key, value) :: entries).lookup other =
      if other = key then some value else entries.lookup other := by
  rw [List.lookup_cons]
  by_cases h : other = key
  · rw [if_pos h, beq_iff_eq.2 h]
  · rw [if_neg h, beq_eq_false_iff_ne.2 h]

theorem lookup_filter_keys {α : Type} (keep : String → Bool) (key : String)
    (entries : List (String × α)) :
    (entries.filter fun entry => keep entry.1).lookup key =
      if keep key then entries.lookup key else none := by
  induction entries with
  | nil => simp
  | cons entry entries ih =>
    obtain ⟨other, value⟩ := entry
    rw [List.filter_cons, lookup_cons]
    by_cases hkey : key = other
    · -- An entry of the key itself is kept as the key is.
      rw [if_pos hkey, hkey]
      split
      · rw [lookup_cons, if_pos rfl]
      · next hdropped =>
        rw [← hkey, ih, hkey, if_neg hdropped]
    · rw [if_neg hkey, ← ih]
      split
      · rw [lookup_cons, if_neg hkey]
      · rfl

theorem lookup_insertEntry
    (key other : String) (value : OptionValue) (entries : List (String × OptionValue)) :
    (insertEntry key value entries).lookup other =
      if other = key then some value else entries.lookup other := by
  induction entries with
  | nil => exact lookup_cons key other value []
  | cons head rest ih =>
    obtain ⟨present, found⟩ := head
    rw [insertEntry]
    split
    · rw [lookup_cons]
    · next hge =>
      split
      · next hgt =>
        have hne : present ≠ key := by
          rintro rfl
          exact String.lt_irrefl present hgt
        rw [lookup_cons, lookup_cons, ih]
        by_cases hpresent : other = present
        · rw [if_pos hpresent, if_neg (hpresent ▸ hne), if_pos hpresent]
        · rw [if_neg hpresent, if_neg hpresent]
      · next hle =>
        -- Neither key is below the other.
        have heq : key = present := String.le_antisymm (String.not_lt.1 hle) (String.not_lt.1 hge)
        rw [lookup_cons, lookup_cons, heq]
        by_cases h : other = present
        · rw [if_pos h, if_pos h]
        · rw [if_neg h, if_neg h, if_neg h]

theorem get?_insert (options : Options) (key other : String) (value : OptionValue) :
    (options.insert key value).get? other =
      if other = key then some value else options.get? other :=
  lookup_insertEntry key other value options.entries

theorem get?_foldl_insert
    (entries : List (String × OptionValue)) (options : Options) (key : String) :
    (entries.foldl (fun options entry => options.insert entry.1 entry.2) options).get? key =
      (entries.reverse.lookup key).or (options.get? key) := by
  induction entries generalizing options with
  | nil => rfl
  | cons entry entries ih =>
    rw [List.foldl_cons, ih, get?_insert, List.reverse_cons, List.lookup_append, lookup_cons]
    cases entries.reverse.lookup key with
    | some value => rfl
    | none => by_cases h : key = entry.1 <;> simp [h]

/-- The last value given to a key counts. -/
theorem get?_ofPairs (pairs : List (String × Value)) (key : String) :
    (ofPairs pairs).get? key = (pairs.reverse.lookup key).map OptionValue.ofValue := by
  have hlookup (found : List (String × Value)) :
      (found.map fun pair => (pair.1, OptionValue.ofValue pair.2)).lookup key =
        (found.lookup key).map OptionValue.ofValue := by
    induction found with
    | nil => rfl
    | cons pair found ih =>
      rw [List.map_cons, lookup_cons, lookup_cons pair.1 key pair.2, ih]
      split <;> rfl
  rw [ofPairs, ofEntries, get?_foldl_insert, ← List.map_reverse, hlookup]
  exact Option.or_none

theorem get?_eq_none_iff {options : Options} {key : String} :
    options.get? key = none ↔ ¬options.contains key = true := by
  rw [contains, Option.not_isSome_iff_eq_none]

theorem firstPlain?_singleton (options : Options) (key : String) :
    options.firstPlain? [key] = (options.get? key).bind OptionValue.plain? :=
  List.findSome?_singleton

theorem ofPairs_append_singleton (pairs : List (String × Value)) (key : String) (value : Value) :
    ofPairs (pairs ++ [(key, value)]) = (ofPairs pairs).insert key (.ofValue value) := by
  rw [ofPairs, ofPairs, ofEntries, ofEntries, List.map_append, List.foldl_append]
  rfl

theorem contains_ofPairs {pairs : List (String × Value)} {key : String} :
    (ofPairs pairs).contains key = true ↔ key ∈ pairs.map Prod.fst := by
  rw [contains, get?_ofPairs, Option.isSome_map, List.lookup_isSome_iff]
  simp

/-! Tables by what they hold -/

theorem mem_entries_iff {options : Options} {key : String} {value : OptionValue} :
    (key, value) ∈ options.entries ↔ options.get? key = some value := by
  rw [get?, List.lookup_eq_some_iff]
  constructor
  · intro hmem
    obtain ⟨before, after, hsplit⟩ := List.append_of_mem hmem
    refine ⟨before, after, hsplit, fun entry hentry => ?_⟩
    have hsorted := options.keys_sorted
    rw [hsplit] at hsorted
    have hlt : entry.1 < key :=
      (List.pairwise_append.1 hsorted).2.2 entry hentry (key, value) List.mem_cons_self
    rw [bne_iff_ne]
    rintro rfl
    exact String.lt_irrefl _ hlt
  · rintro ⟨before, after, hsplit, -⟩
    rw [hsplit]
    exact List.mem_append_right before List.mem_cons_self

theorem nodup_entries (options : Options) : options.entries.Nodup := by
  refine options.keys_sorted.imp fun hlt heq => ?_
  rw [heq] at hlt
  exact String.lt_irrefl _ hlt

/-- Two tables that hold the same under every key are the same, since both are sorted. -/
theorem ext_get? {options other : Options} (h : ∀ key, options.get? key = other.get? key) :
    options = other := by
  have hmem : ∀ entry, entry ∈ options.entries ↔ entry ∈ other.entries := by
    rintro ⟨key, value⟩
    rw [mem_entries_iff, mem_entries_iff, h]
  have hperm : options.entries.Perm other.entries :=
    (List.perm_ext_iff_of_nodup options.nodup_entries other.nodup_entries).2 hmem
  have hentries : options.entries = other.entries :=
    hperm.eq_of_pairwise
      (fun first second _ _ hlt hgt => absurd (String.lt_trans hlt hgt) (String.lt_irrefl _))
      options.keys_sorted other.keys_sorted
  cases options
  cases other
  cases hentries
  rfl

end PuppetInventory.Options
