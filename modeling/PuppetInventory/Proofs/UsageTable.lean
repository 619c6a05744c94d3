import PuppetInventory.Proofs.Json.Rendering
import PuppetInventory.Usage.Table

/-!
Tables of usage counts read back from any written form, and what every table that can be read holds.
-/

namespace PuppetInventory.Usage.Table

open Json (IsBlanks IsHexUnit SpellsChar SpellsObject SpellsValue resolved)

/-- Kinds, each with its elements and their counts, in the order of the text. Kinds, and elements of
one kind, may come more than once. -/
abbrev Entries := List (String × List (String × Nat))

/-! Written tables -/

/-- A count is written in decimal digits. -/
def SpellsCount (n : Nat) (chars : List Char) : Prop :=
  n < UInt64.size ∧ chars = Nat.toDigits 10 n

/-- `text` is a written form of a table, with any blanks and any escapes. -/
inductive IsWritten (entries : Entries) (text : String) : Prop where
  | intro {before chars after : List Char} (hbefore : IsBlanks before)
      (hentries : SpellsObject (SpellsObject SpellsCount) entries chars) (hafter : IsBlanks after)
      (htext : text.toList = before ++ (chars ++ after))

def HasNoRepeats (entries : Entries) : Prop :=
  (entries.map Prod.fst).Nodup ∧ ∀ kind ∈ entries, (kind.2.map Prod.fst).Nodup

/-- The entries that count: of each kind the elements given last, at the place where the kind first
came, and of each of these elements the count given last. -/
def lastGiven (entries : Entries) : Entries :=
  (resolved entries).map fun kind => (kind.1, resolved kind.2)

def observationsOfCounts (kind : String) (counts : List (String × Nat)) : List Observation :=
  counts.map fun count => ⟨kind, count.1, count.2⟩

def observationsOf (entries : Entries) : List Observation :=
  entries.flatMap fun kind => observationsOfCounts kind.1 kind.2

def naturalMember (count : String × Nat) : String × Json.Value :=
  (count.1, .number (.natural count.2))

def countsValue (counts : List (String × Nat)) : Json.Value :=
  .object (counts.map naturalMember)

def tableValue (entries : Entries) : Json.Value :=
  .object (entries.map fun kind => (kind.1, countsValue kind.2))

structure IsTable (entries : Entries) (observations : List Observation) : Prop where
  eq_observationsOf : observations = observationsOf entries
  distinct : (observations.map fun observation => (observation.kind, observation.element)).Nodup
  contiguous : ∀ kind,
    (observations.filter fun observation => observation.kind = kind) <:+: observations
  nothing_of_empty : ∀ kind, (kind, []) ∈ entries →
    ∀ observation ∈ observations, observation.kind ≠ kind

/-! Values of tables -/

theorem count?_eq_some_iff {value : Json.Value} {n : Nat} :
    count? value = some n ↔ value = .number (.natural n) := by
  constructor
  · intro h
    unfold count? at h
    split at h
    · cases h
      rfl
    · cases h
  · rintro rfl
    rfl

theorem observationsOfKind_naturalMembers (kind : String) (counts : List (String × Nat)) :
    observationsOfKind kind (counts.map naturalMember) =
      .ok (observationsOfCounts kind counts) := by
  induction counts with
  | nil => rfl
  | cons count counts ih =>
    simp only [List.map_cons, naturalMember, observationsOfKind, count?]
    rw [ih]
    rfl

theorem exists_counts_of_observationsOfKind {kind : String} {members : List (String × Json.Value)}
    {observations : List Observation} (h : observationsOfKind kind members = .ok observations) :
    ∃ counts : List (String × Nat), members = counts.map naturalMember := by
  induction members generalizing observations with
  | nil => exact ⟨[], rfl⟩
  | cons member members ih =>
    obtain ⟨element, value⟩ := member
    rw [observationsOfKind] at h
    split at h
    · cases h
    · next n hcount =>
      obtain ⟨others, hothers, -⟩ := Json.exists_of_bind_eq_ok h
      obtain ⟨counts, rfl⟩ := ih hothers
      refine ⟨(element, n) :: counts, ?_⟩
      rw [count?_eq_some_iff.1 hcount]
      rfl

theorem observationsOfKinds_entries (entries : Entries) :
    observationsOfKinds (entries.map fun kind => (kind.1, countsValue kind.2)) =
      .ok (observationsOf entries) := by
  induction entries with
  | nil => rfl
  | cons kind entries ih =>
    simp only [List.map_cons, countsValue, observationsOfKinds, observationsOfKind_naturalMembers]
    simp only [countsValue] at ih
    rw [ih]
    rfl

theorem exists_entries_of_observationsOfKinds {members : List (String × Json.Value)}
    {observations : List Observation} (h : observationsOfKinds members = .ok observations) :
    ∃ entries : Entries, members = entries.map fun kind => (kind.1, countsValue kind.2) := by
  induction members generalizing observations with
  | nil => exact ⟨[], rfl⟩
  | cons member members ih =>
    obtain ⟨kind, value⟩ := member
    cases value with
    | object elements =>
      rw [observationsOfKinds] at h
      obtain ⟨first, hfirst, h⟩ := Json.exists_of_bind_eq_ok h
      obtain ⟨others, hothers, -⟩ := Json.exists_of_bind_eq_ok h
      obtain ⟨counts, rfl⟩ := exists_counts_of_observationsOfKind hfirst
      obtain ⟨entries, rfl⟩ := ih hothers
      exact ⟨(kind, counts) :: entries, rfl⟩
    | null => cases h
    | boolean truth => cases h
    | number number => cases h
    | string text => cases h
    | array items => cases h

theorem ofValue_tableValue (entries : Entries) :
    ofValue (tableValue entries) = .ok (observationsOf entries) :=
  observationsOfKinds_entries entries

theorem ofValue_eq_ok_iff {value : Json.Value} {observations : List Observation} :
    ofValue value = .ok observations ↔
      ∃ entries, value = tableValue entries ∧ observations = observationsOf entries := by
  constructor
  · intro h
    unfold ofValue at h
    split at h
    · obtain ⟨entries, rfl⟩ := exists_entries_of_observationsOfKinds h
      rw [observationsOfKinds_entries] at h
      exact ⟨entries, rfl, (Except.ok.inj h).symm⟩
    · cases h
  · rintro ⟨entries, rfl, rfl⟩
    exact ofValue_tableValue entries

section

variable {reader : Json.TextReader} {text : String} {observations : List Observation}

theorem readBy_eq_ok_iff :
    readBy reader text = .ok observations ↔
      ∃ entries, reader text = .ok (tableValue entries) ∧
        observations = observationsOf entries := by
  unfold readBy
  cases hread : reader text with
  | error fault => simp
  | ok value => simp [ofValue_eq_ok_iff]

/-! Reading what is written -/

theorem spellsValue_counts (depth : Nat) (counts : List (String × Nat)) (chars : List Char)
    (h : SpellsObject SpellsCount counts chars) :
    SpellsValue (depth + 1) (countsValue (resolved counts)) chars := by
  have hcounts : ∀ n chars, SpellsCount n chars →
      SpellsValue depth (.number (.natural n)) chars := by
    rintro n chars ⟨hn, rfl⟩
    exact Json.spellsValue_natural hn depth
  have hobject := Json.spellsValue_object hcounts h
  rwa [Json.membersOf_map fun n : Nat => Json.Value.number (.natural n),
    Json.membersOf_eq_resolved] at hobject

theorem spellsValue_table (depth : Nat) {entries : Entries} {chars : List Char}
    (h : SpellsObject (SpellsObject SpellsCount) entries chars) :
    SpellsValue (depth + 2) (tableValue (lastGiven entries)) chars := by
  have hobject := Json.spellsValue_object (spellsValue_counts depth) h
  rw [Json.membersOf_map fun counts => countsValue (resolved counts),
    Json.membersOf_eq_resolved] at hobject
  rwa [tableValue, lastGiven, List.map_map]

theorem lastGiven_of_hasNoRepeats {entries : Entries} (h : HasNoRepeats entries) :
    lastGiven entries = entries := by
  have hkinds : ∀ kind ∈ entries, (kind.1, resolved kind.2) = kind := by
    intro kind hkind
    rw [Json.resolved_of_nodup (h.2 kind hkind)]
  rw [lastGiven, Json.resolved_of_nodup h.1, List.map_congr_left hkinds, List.map_id']

theorem readBy_of_isWritten (hreader : reader.IsFaithful) {entries : Entries}
    (h : IsWritten entries text) :
    readBy reader text = .ok (observationsOf (lastGiven entries)) := by
  obtain ⟨hbefore, hentries, hafter, htext⟩ := h
  have hread := hreader.read_of_spellsValue (spellsValue_table 125 hentries) hbefore hafter htext
  exact readBy_eq_ok_iff.2 ⟨lastGiven entries, hread, rfl⟩

end

theorem isWritten_render {entries : Entries}
    (h : ∀ kind ∈ entries, ∀ count ∈ kind.2, count.2 < UInt64.size) :
    IsWritten entries (tableValue entries).render := by
  have hcounts : ∀ kind ∈ entries,
      SpellsObject SpellsCount kind.2 (countsValue kind.2).render.toList := by
    intro kind hkind
    refine Json.spellsObject_render (fun n => .number (.natural n)) fun count hcount => ?_
    exact ⟨h kind hkind count hcount, Json.toList_render_natural count.2⟩
  have hobject := Json.spellsObject_render countsValue hcounts
  exact .intro Json.isBlanks_nil hobject Json.isBlanks_nil (List.append_nil _).symm

/-! Observations of tables without repeats -/

theorem kind_of_mem_observationsOfCounts {kind : String} {counts : List (String × Nat)}
    {observation : Observation} (h : observation ∈ observationsOfCounts kind counts) :
    observation.kind = kind := by
  obtain ⟨count, -, rfl⟩ := List.mem_map.1 h
  rfl

theorem kind_mem_of_mem_observationsOf {entries : Entries} {observation : Observation}
    (h : observation ∈ observationsOf entries) : observation.kind ∈ entries.map Prod.fst := by
  obtain ⟨kind, hkind, hobservation⟩ := List.mem_flatMap.1 h
  rw [kind_of_mem_observationsOfCounts hobservation]
  exact List.mem_map_of_mem hkind

theorem nodup_observationsOf {entries : Entries} (h : HasNoRepeats entries) :
    ((observationsOf entries).map fun observation =>
      (observation.kind, observation.element)).Nodup := by
  induction entries with
  | nil => exact List.nodup_nil
  | cons kind entries ih =>
    obtain ⟨hkinds, helements⟩ := h
    rw [List.map_cons, List.nodup_cons] at hkinds
    obtain ⟨hnew, hkinds⟩ := hkinds
    have hothers := ih ⟨hkinds, fun other hother => helements other (List.mem_cons_of_mem _ hother)⟩
    have hfirst : ((observationsOfCounts kind.1 kind.2).map fun observation =>
        (observation.kind, observation.element)).Nodup := by
      have hpairs := (helements kind List.mem_cons_self).map (Prod.mk_right_injective kind.1)
      rw [List.map_map] at hpairs
      rw [observationsOfCounts, List.map_map]
      exact hpairs
    rw [observationsOf, List.flatMap_cons, List.map_append]
    -- A pair found in both would give the other kinds one of this name.
    refine hfirst.append hothers ?_
    intro pair hpair hother
    obtain ⟨observation, hobservation, rfl⟩ := List.mem_map.1 hpair
    obtain ⟨other, hmem, heq⟩ := List.mem_map.1 hother
    have hkind : other.kind = kind.1 :=
      (congrArg Prod.fst heq).trans (kind_of_mem_observationsOfCounts hobservation)
    exact hnew (hkind ▸ kind_mem_of_mem_observationsOf hmem)

theorem filter_kind_isInfix {entries : Entries} (h : (entries.map Prod.fst).Nodup) (kind : String) :
    ((observationsOf entries).filter fun observation => observation.kind = kind) <:+:
      observationsOf entries := by
  induction entries with
  | nil => exact List.infix_rfl
  | cons head entries ih =>
    rw [List.map_cons, List.nodup_cons] at h
    obtain ⟨hnew, hkinds⟩ := h
    rw [observationsOf, List.flatMap_cons, List.filter_append]
    by_cases hhead : head.1 = kind
    · have hothers : (observationsOf entries).filter (fun observation => observation.kind = kind) =
          [] := by
        refine List.filter_eq_nil_iff.2 fun observation hobservation hkind => hnew ?_
        rw [hhead, ← of_decide_eq_true hkind]
        exact kind_mem_of_mem_observationsOf hobservation
      have hfirst : (observationsOfCounts head.1 head.2).filter
          (fun observation => observation.kind = kind) = observationsOfCounts head.1 head.2 := by
        refine List.filter_eq_self.2 fun observation hobservation => decide_eq_true ?_
        rw [kind_of_mem_observationsOfCounts hobservation, hhead]
      rw [hfirst]
      rw [observationsOf] at hothers
      rw [hothers, List.append_nil]
      exact (List.prefix_append _ _).isInfix
    · have hfirst : (observationsOfCounts head.1 head.2).filter
          (fun observation => observation.kind = kind) = [] := by
        refine List.filter_eq_nil_iff.2 fun observation hobservation hkind => hhead ?_
        rw [← kind_of_mem_observationsOfCounts hobservation, of_decide_eq_true hkind]
      rw [hfirst, List.nil_append]
      exact (ih hkinds).trans (List.suffix_append _ _).isInfix

theorem kind_ne_of_empty {entries : Entries} (h : (entries.map Prod.fst).Nodup) {kind : String}
    (hempty : (kind, []) ∈ entries) :
    ∀ observation ∈ observationsOf entries, observation.kind ≠ kind := by
  intro observation hobservation hkind
  obtain ⟨other, hother, hmem⟩ := List.mem_flatMap.1 hobservation
  have hsame : other = (kind, []) := by
    refine List.inj_on_of_nodup_map h hother hempty ?_
    rw [← hkind, kind_of_mem_observationsOfCounts hmem]
  rw [hsame] at hmem
  exact List.not_mem_nil hmem

theorem hasNoRepeats_of_isProper {entries : Entries} (h : (tableValue entries).IsProper) :
    HasNoRepeats entries := by
  cases h with
  | object hkinds hmembers =>
    rw [List.map_map] at hkinds
    refine ⟨hkinds, fun kind hkind => ?_⟩
    cases hmembers _ (List.mem_map_of_mem hkind) with
    | object helements _ => rwa [List.map_map] at helements

theorem HasNoRepeats.isTable {entries : Entries} (h : HasNoRepeats entries) :
    IsTable entries (observationsOf entries) where
  eq_observationsOf := rfl
  distinct := nodup_observationsOf h
  contiguous := filter_kind_isInfix h.1
  nothing_of_empty _ hempty := kind_ne_of_empty h.1 hempty

theorem isTable_of_readBy
    {reader : Json.TextReader} (hreader : reader.IsFaithful) {text : String}
    {observations : List Observation} (h : readBy reader text = .ok observations) :
    ∃ entries, reader text = .ok (tableValue entries) ∧ IsTable entries observations := by
  obtain ⟨entries, hread, rfl⟩ := readBy_eq_ok_iff.1 h
  exact ⟨entries, hread, (hasNoRepeats_of_isProper (hreader.isProper hread)).isTable⟩

theorem count_lt_of_isProper {entries : Entries} (h : (tableValue entries).IsProper) :
    ∀ observation ∈ observationsOf entries, observation.count < UInt64.size := by
  intro observation hobservation
  obtain ⟨kind, hkind, hmem⟩ := List.mem_flatMap.1 hobservation
  obtain ⟨count, hcount, rfl⟩ := List.mem_map.1 hmem
  cases h with
  | object _ hmembers =>
    cases hmembers _ (List.mem_map_of_mem hkind) with
    | object _ hcounts =>
      cases hcounts _ (List.mem_map_of_mem hcount) with
      | number hfits => exact hfits

theorem count_lt_of_read {text : String} {observations : List Observation}
    (h : read text = .ok observations) :
    ∀ observation ∈ observations, observation.count < UInt64.size := by
  obtain ⟨entries, hread, rfl⟩ := readBy_eq_ok_iff.1 h
  exact count_lt_of_isProper (Json.isProper_of_read hread)

/-- With a faithful reader, such as that of the program, a table is read back from every form in
which it can be written: of what is given more than once the last counts, at the place of the first.
Whatever is read has each pair of a kind and an element once, and the observations of a kind side by
side. -/
theorem read_written :
    Json.TextReader.IsFaithful Json.read ∧
    (∀ entries : Entries, (∀ kind ∈ entries, ∀ count ∈ kind.2, count.2 < UInt64.size) →
      IsWritten entries (tableValue entries).render) ∧
    ∀ reader : Json.TextReader, reader.IsFaithful →
      (∀ (entries : Entries) (text : String), IsWritten entries text →
        readBy reader text = .ok (observationsOf (lastGiven entries)) ∧
          (HasNoRepeats entries → readBy reader text = .ok (observationsOf entries))) ∧
      ∀ (text : String) (observations : List Observation), readBy reader text = .ok observations →
        ∃ entries, reader text = .ok (tableValue entries) ∧ IsTable entries observations := by
  refine ⟨Json.read_isFaithful, fun entries h => isWritten_render h, fun reader hreader =>
    ⟨fun entries text h => ⟨readBy_of_isWritten hreader h, fun hentries => ?_⟩,
      fun text observations h => isTable_of_readBy hreader h⟩⟩
  rw [readBy_of_isWritten hreader h, lastGiven_of_hasNoRepeats hentries]

/-- A kind spelled in two ways, with blanks in between and behind, and a table as it is rendered. -/
theorem read_written_repeated_kind :
    read "\x7b\"k\":\x7b\"a\":1\x7d, \"\\u006B\":\x7b\"b\":2\x7d\x7d\n" =
        .ok [⟨"k", "b", 2⟩] ∧
      read (tableValue [("k", [("a", 1), ("b", 2)]), ("e", [])]).render =
        .ok [⟨"k", "a", 1⟩, ⟨"k", "b", 2⟩] ∧
      ∃ entries, IsTable entries [⟨"k", "a", 1⟩, ⟨"k", "b", 2⟩] := by
  obtain ⟨hfaithful, hrender, hreaders⟩ := read_written
  obtain ⟨hread, htable⟩ := hreaders Json.read hfaithful
  have hnone := Json.isBlanks_nil
  have hspace : IsBlanks [' '] := List.forall_mem_singleton.2 (.inl rfl)
  have hlineFeed : IsBlanks ['\n'] := List.forall_mem_singleton.2 (.inr (.inl rfl))
  have hunit : IsHexUnit 107 ['0', '0', '6', 'B'] :=
    .intro (x := 0) (y := 0) (z := 6) (w := 11) ⟨by decide, .inl rfl⟩ ⟨by decide, .inl rfl⟩
      ⟨by decide, .inl rfl⟩ ⟨by decide, .inr rfl⟩
  have hescape : SpellsChar 'k' ['\\', 'u', '0', '0', '6', 'B'] := .unit hunit
  have hcounts (element : String) (n : Nat) (hn : n < UInt64.size) :
      SpellsObject SpellsCount [(element, n)] _ :=
    .filled hnone
      (.last (.intro (Json.spellsText_escape element.toList) hnone hnone ⟨hn, rfl⟩ hnone))
  have hkinds : SpellsObject (SpellsObject SpellsCount) [("k", [("a", 1)]), ("k", [("b", 2)])] _ :=
    .filled hnone (.more
      (.intro (Json.spellsText_escape "k".toList) hnone hnone (hcounts "a" 1 (by decide)) hnone)
      hspace (.last (.intro (.cons hescape .nil) hnone hnone (hcounts "b" 2 (by decide)) hnone)))
  have hrendered := (hread _ _ (hrender [("k", [("a", 1), ("b", 2)]), ("e", [])] (by decide))).2
    ⟨by decide, by decide⟩
  obtain ⟨entries, -, hentries⟩ := htable _ _ hrendered
  refine ⟨?_, hrendered, entries, hentries⟩
  exact (hread [("k", [("a", 1)]), ("k", [("b", 2)])] _ (.intro hnone hkinds hlineFeed rfl)).1

end PuppetInventory.Usage.Table
