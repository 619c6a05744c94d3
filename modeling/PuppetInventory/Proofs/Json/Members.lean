import Mathlib.Data.List.Induction
import Mathlib.Data.List.Nodup
import PuppetInventory.Json.Value
import PuppetInventory.Proofs.OptionTable

/-!
The members of an object whose keys may be given more than once: each key keeps the place where it
first came and the value that came last.
-/

namespace PuppetInventory.Json

open Options (lookup_cons)

variable {α β : Type}

/-- The keys of entries, each at the place where it first comes. -/
def keysOf (entries : List (String × α)) : List String :=
  (entries.map Prod.fst).eraseDups

/-- The value that comes last for a key. -/
def lastValue? (key : String) (entries : List (String × α)) : Option α :=
  entries.reverse.lookup key

/-- Each key at the place where it first comes, with the value that comes last for it. -/
def resolved (entries : List (String × α)) : List (String × α) :=
  (keysOf entries).filterMap fun key => (lastValue? key entries).map fun value => (key, value)

/-! Giving a key a value -/

theorem insertMember_of_not_mem
    {key : String} {members : List (String × α)} (h : key ∉ members.map Prod.fst) (value : α) :
    insertMember key value members = members ++ [(key, value)] := by
  induction members with
  | nil => rfl
  | cons head rest ih =>
    rw [List.map_cons, List.mem_cons, not_or] at h
    rw [insertMember, if_neg fun heq => h.1 heq.symm, ih h.2]
    rfl

theorem keys_insertMember_of_mem
    {key : String} {members : List (String × α)} (h : key ∈ members.map Prod.fst) (value : α) :
    (insertMember key value members).map Prod.fst = members.map Prod.fst := by
  induction members with
  | nil => cases h
  | cons head rest ih =>
    obtain ⟨other, present⟩ := head
    rw [insertMember]
    split
    · next heq => rw [List.map_cons, List.map_cons, heq]
    · next hne =>
      have hrest : key ∈ rest.map Prod.fst :=
        (List.mem_cons.1 h).resolve_left fun heq => hne heq.symm
      rw [List.map_cons, List.map_cons, ih hrest]

theorem mem_insertMember
    {key : String} {value : α} {members : List (String × α)} {member : String × α}
    (h : member ∈ insertMember key value members) : member = (key, value) ∨ member ∈ members := by
  induction members with
  | nil => exact .inl (List.mem_singleton.1 h)
  | cons head rest ih =>
    rw [insertMember] at h
    split at h
    · rcases List.mem_cons.1 h with h | h
      · exact .inl h
      · exact .inr (List.mem_cons_of_mem _ h)
    · rcases List.mem_cons.1 h with h | h
      · exact .inr (List.mem_cons.2 (.inl h))
      · exact (ih h).imp_right (List.mem_cons_of_mem _)

theorem lookup_insertMember
    (key other : String) (value : α) (members : List (String × α)) :
    (insertMember key value members).lookup other =
      if other = key then some value else members.lookup other := by
  induction members with
  | nil => exact lookup_cons key other value []
  | cons head rest ih =>
    obtain ⟨present, found⟩ := head
    rw [insertMember]
    split
    · next heq =>
      rw [lookup_cons, lookup_cons, heq]
      split <;> rfl
    · next hne =>
      rw [lookup_cons, lookup_cons, ih]
      by_cases hpresent : other = present
      · rw [if_pos hpresent, if_neg (hpresent ▸ hne), if_pos hpresent]
      · rw [if_neg hpresent, if_neg hpresent]

theorem insertMember_map
    (f : α → β) (key : String) (value : α) (members : List (String × α)) :
    insertMember key (f value) (members.map fun member => (member.1, f member.2)) =
      (insertMember key value members).map fun member => (member.1, f member.2) := by
  induction members with
  | nil => rfl
  | cons head rest ih =>
    rw [List.map_cons, insertMember, insertMember]
    split
    · rfl
    · rw [List.map_cons, ih]

/-! The members of entries -/

theorem membersOf_append_singleton (entries : List (String × α)) (entry : String × α) :
    membersOf (entries ++ [entry]) = insertMember entry.1 entry.2 (membersOf entries) := by
  rw [membersOf, List.foldl_append]
  rfl

theorem keysOf_append_singleton (entries : List (String × α)) (entry : String × α) :
    keysOf (entries ++ [entry]) =
      if entry.1 ∈ keysOf entries then keysOf entries else keysOf entries ++ [entry.1] := by
  rw [keysOf, List.map_append, List.eraseDups_append]
  by_cases h : entry.1 ∈ entries.map Prod.fst
  · have hmem : entry.1 ∈ keysOf entries := List.mem_eraseDups.2 h
    rw [if_pos hmem, keysOf]
    simp [List.removeAll, h]
  · have hmem : entry.1 ∉ keysOf entries := fun hkey => h (List.mem_eraseDups.1 hkey)
    rw [if_neg hmem, keysOf]
    simp [List.removeAll, h, List.eraseDups_cons]

theorem lastValue?_append_singleton
    (key : String) (entries : List (String × α)) (entry : String × α) :
    lastValue? key (entries ++ [entry]) =
      if key = entry.1 then some entry.2 else lastValue? key entries := by
  rw [lastValue?, List.reverse_append]
  exact lookup_cons entry.1 key entry.2 entries.reverse

theorem keys_membersOf (entries : List (String × α)) :
    (membersOf entries).map Prod.fst = keysOf entries := by
  induction entries using List.reverseRecOn with
  | nil => rfl
  | append_singleton entries entry ih =>
    rw [membersOf_append_singleton, keysOf_append_singleton, ← ih]
    split
    · next h => exact keys_insertMember_of_mem h entry.2
    · next h => rw [insertMember_of_not_mem h, List.map_append, List.map_singleton]

theorem lookup_membersOf (key : String) (entries : List (String × α)) :
    (membersOf entries).lookup key = lastValue? key entries := by
  induction entries using List.reverseRecOn with
  | nil => rfl
  | append_singleton entries entry ih =>
    rw [membersOf_append_singleton, lastValue?_append_singleton, lookup_insertMember, ih]

theorem nodup_keys_membersOf (entries : List (String × α)) :
    ((membersOf entries).map Prod.fst).Nodup := by
  induction entries using List.reverseRecOn with
  | nil => exact List.nodup_nil
  | append_singleton entries entry ih =>
    rw [membersOf_append_singleton]
    by_cases h : entry.1 ∈ (membersOf entries).map Prod.fst
    · rwa [keys_insertMember_of_mem h]
    · rw [insertMember_of_not_mem h, List.map_append, List.map_singleton]
      exact ih.append (List.nodup_singleton _) (List.disjoint_singleton.2 h)

theorem mem_of_mem_membersOf {entries : List (String × α)} {member : String × α}
    (h : member ∈ membersOf entries) : member ∈ entries := by
  induction entries using List.reverseRecOn with
  | nil => exact h
  | append_singleton entries entry ih =>
    rw [membersOf_append_singleton] at h
    rcases mem_insertMember h with rfl | hold
    · exact List.mem_append_right _ (List.mem_singleton.2 rfl)
    · exact List.mem_append_left _ (ih hold)

/-- Members with distinct keys are told by their keys and what they hold under each. -/
theorem eq_filterMap_lookup {members : List (String × α)} (h : (members.map Prod.fst).Nodup) :
    members = (members.map Prod.fst).filterMap fun key =>
      (members.lookup key).map fun value => (key, value) := by
  induction members with
  | nil => rfl
  | cons head rest ih =>
    obtain ⟨key, value⟩ := head
    rw [List.map_cons, List.nodup_cons] at h
    have hrest : (rest.map Prod.fst).filterMap (fun other =>
          (((key, value) :: rest).lookup other).map fun found => (other, found)) =
        (rest.map Prod.fst).filterMap fun other =>
          (rest.lookup other).map fun found => (other, found) := by
      refine List.filterMap_congr fun other hother => ?_
      have hne : other ≠ key := fun heq => h.1 (heq ▸ hother)
      rw [lookup_cons, if_neg hne]
    have hkey : ((key, value) :: rest).lookup key = some value := by
      rw [lookup_cons, if_pos rfl]
    rw [List.map_cons, List.filterMap_cons, hkey, hrest, ← ih h.2]
    rfl

theorem membersOf_eq_resolved (entries : List (String × α)) :
    membersOf entries = resolved entries := by
  rw [eq_filterMap_lookup (nodup_keys_membersOf entries), keys_membersOf, resolved]
  simp only [lookup_membersOf]

theorem membersOf_of_nodup {entries : List (String × α)} (h : (entries.map Prod.fst).Nodup) :
    membersOf entries = entries := by
  induction entries using List.reverseRecOn with
  | nil => rfl
  | append_singleton entries entry ih =>
    rw [List.map_append, List.nodup_append] at h
    obtain ⟨hentries, -, hdistinct⟩ := h
    have hnew : entry.1 ∉ entries.map Prod.fst := fun hmem =>
      hdistinct entry.1 hmem entry.1 (List.mem_singleton.2 rfl) rfl
    rw [membersOf_append_singleton, ih hentries, insertMember_of_not_mem hnew]

theorem resolved_of_nodup {entries : List (String × α)} (h : (entries.map Prod.fst).Nodup) :
    resolved entries = entries := by
  rw [← membersOf_eq_resolved, membersOf_of_nodup h]

theorem membersOf_map (f : α → β) (entries : List (String × α)) :
    membersOf (entries.map fun entry => (entry.1, f entry.2)) =
      (membersOf entries).map fun member => (member.1, f member.2) := by
  induction entries using List.reverseRecOn with
  | nil => rfl
  | append_singleton entries entry ih =>
    rw [List.map_append, List.map_singleton, membersOf_append_singleton,
      membersOf_append_singleton, ih]
    exact insertMember_map f entry.1 entry.2 (membersOf entries)

end PuppetInventory.Json
