import PuppetInventory.Proofs.UsageTable

/-!
Which tables of usage counts are rejected, and for which of their entries: the first one, kind by
kind and element by element, that has to be. Of entries with one key only the last can be to blame.
-/

namespace PuppetInventory.Usage.Table

open Json (Document resolved)

/-- What there is to see of a table: the members of its objects, which nodes are counts, and how a
node is shown. -/
structure View (α : Type) where
  members? : α → Option (List (String × α))
  IsCount : α → Prop
  text : α → String

namespace View

variable {α β : Type} (view : View α)

def IsKind (node : α) : Prop :=
  ∃ elements, view.members? node = some elements ∧ ∀ element ∈ elements, view.IsCount element.2

def Accepts (node : α) : Prop :=
  ∃ kinds, view.members? node = some kinds ∧ ∀ kind ∈ kinds, view.IsKind kind.2

/-- Why the counts of one kind are rejected. -/
inductive RejectsKind (kind : String) (node : α) : TableError → Prop where
  | noObject (h : view.members? node = none) : RejectsKind kind node (.notAnObject kind)
  | noCount {before after : List (String × α)} {element : String} {count : α}
      (hmembers : view.members? node = some (before ++ (element, count) :: after))
      (hbefore : ∀ other ∈ before, view.IsCount other.2) (hcount : ¬view.IsCount count) :
      RejectsKind kind node (.invalidCount kind element (view.text count))

/-- Why a table is rejected: all kinds in front of the one at fault are in order. -/
inductive Rejects (node : α) : TableError → Prop where
  | noObject (h : view.members? node = none) : Rejects node (.notAnObject TableError.root)
  | kind {before after : List (String × α)} {kind : String} {counts : α} {error : TableError}
      (hmembers : view.members? node = some (before ++ (kind, counts) :: after))
      (hbefore : ∀ other ∈ before, view.IsKind other.2) (h : view.RejectsKind kind counts error) :
      Rejects node error

/-! Everything is accepted or rejected -/

theorem forall_or_exists_first (p : α → Prop) (nodes : List α) :
    (∀ node ∈ nodes, p node) ∨
      ∃ before node after, nodes = before ++ node :: after ∧ (∀ other ∈ before, p other) ∧
        ¬p node := by
  induction nodes with
  | nil => exact .inl fun node hnode => absurd hnode List.not_mem_nil
  | cons head nodes ih =>
    by_cases hhead : p head
    · rcases ih with hall | ⟨before, node, after, rfl, hbefore, hnode⟩
      · exact .inl (List.forall_mem_cons.2 ⟨hhead, hall⟩)
      · exact .inr ⟨head :: before, node, after, rfl, List.forall_mem_cons.2 ⟨hhead, hbefore⟩,
          hnode⟩
    · exact .inr ⟨[], head, nodes, rfl, fun other hother => absurd hother List.not_mem_nil, hhead⟩

theorem isKind_or_rejectsKind (kind : String) (node : α) :
    view.IsKind node ∨ ∃ error, view.RejectsKind kind node error := by
  cases hmembers : view.members? node with
  | none => exact .inr ⟨_, .noObject hmembers⟩
  | some elements =>
    rcases forall_or_exists_first (fun element => view.IsCount element.2) elements with
      hall | ⟨before, ⟨element, count⟩, after, rfl, hbefore, hcount⟩
    · exact .inl ⟨elements, hmembers, hall⟩
    · exact .inr ⟨_, .noCount hmembers hbefore hcount⟩

theorem accepts_or_rejects (node : α) : view.Accepts node ∨ ∃ error, view.Rejects node error := by
  cases hmembers : view.members? node with
  | none => exact .inr ⟨_, .noObject hmembers⟩
  | some kinds =>
    rcases forall_or_exists_first (fun kind => view.IsKind kind.2) kinds with
      hall | ⟨before, ⟨kind, counts⟩, after, rfl, hbefore, hcounts⟩
    · exact .inl ⟨kinds, hmembers, hall⟩
    · obtain ⟨error, herror⟩ := (view.isKind_or_rejectsKind kind counts).resolve_left hcounts
      exact .inr ⟨error, .kind hmembers hbefore herror⟩

/-! Two views of one table -/

/-- What is seen of a node in one view is seen of its image in another. -/
structure Agrees (view : View α) (other : View β) (f : α → β) : Prop where
  members? : ∀ node, other.members? (f node) =
    (view.members? node).map fun members => members.map fun member => (member.1, f member.2)
  isCount : ∀ node, other.IsCount (f node) ↔ view.IsCount node
  text : ∀ node, other.text (f node) = view.text node

namespace Agrees

variable {view} {other : View β} {f : α → β} (h : Agrees view other f)

include h

theorem members?_split {node child : α} {key : String} {before after : List (String × α)}
    (hmembers : view.members? node = some (before ++ (key, child) :: after)) :
    other.members? (f node) = some ((before.map fun member => (member.1, f member.2)) ++
      (key, f child) :: after.map fun member => (member.1, f member.2)) := by
  rw [h.members?, hmembers, Option.map_some, List.map_append, List.map_cons]

theorem isKind (node : α) : view.IsKind node → other.IsKind (f node) := by
  rintro ⟨elements, hmembers, hcounts⟩
  refine ⟨_, by rw [h.members?, hmembers]; rfl, List.forall_mem_map.2 fun element helement => ?_⟩
  exact (h.isCount element.2).2 (hcounts element helement)

theorem accepts (node : α) : view.Accepts node → other.Accepts (f node) := by
  rintro ⟨kinds, hmembers, hkinds⟩
  refine ⟨_, by rw [h.members?, hmembers]; rfl, List.forall_mem_map.2 fun kind hkind => ?_⟩
  exact h.isKind kind.2 (hkinds kind hkind)

theorem rejectsKind {kind : String} {node : α} {error : TableError} :
    view.RejectsKind kind node error → other.RejectsKind kind (f node) error := by
  rintro (hmembers | ⟨hmembers, hbefore, hcount⟩)
  · exact .noObject (by rw [h.members?, hmembers]; rfl)
  · rw [← h.text]
    refine .noCount (h.members?_split hmembers) (List.forall_mem_map.2 fun element helement => ?_)
      ((h.isCount _).not.2 hcount)
    exact (h.isCount element.2).2 (hbefore element helement)

theorem rejects {node : α} {error : TableError} :
    view.Rejects node error → other.Rejects (f node) error := by
  rintro (hmembers | ⟨hmembers, hbefore, hkind⟩)
  · exact .noObject (by rw [h.members?, hmembers]; rfl)
  · refine .kind (h.members?_split hmembers) (List.forall_mem_map.2 fun other hother => ?_)
      (h.rejectsKind hkind)
    exact h.isKind other.2 (hbefore other hother)

end Agrees

/-! What is loaded -/

/-- A table is loaded just when it is accepted, and else its error is the one for which it is
rejected. -/
structure Decides (node : α) (loaded : Except TableError (List Observation)) : Prop where
  ok_iff : (∃ observations, loaded = .ok observations) ↔ view.Accepts node
  error_iff : ∀ error, loaded = .error error ↔ view.Rejects node error

theorem decides_of_accepts_of_rejects
    {node : α} {loaded : Except TableError (List Observation)}
    (hok : view.Accepts node → ∃ observations, loaded = .ok observations)
    (herror : ∀ error, view.Rejects node error → loaded = .error error) :
    view.Decides node loaded := by
  rcases view.accepts_or_rejects node with haccepts | ⟨found, hrejects⟩
  · obtain ⟨observations, hloaded⟩ := hok haccepts
    refine ⟨iff_of_true ⟨observations, hloaded⟩ haccepts, fun error => ⟨fun h => ?_, herror error⟩⟩
    rw [hloaded] at h
    cases h
  · have hloaded := herror found hrejects
    refine ⟨⟨?_, fun haccepts => hok haccepts⟩, fun error => ⟨fun h => ?_, herror error⟩⟩
    · rintro ⟨observations, h⟩
      rw [hloaded] at h
      cases h
    · rw [hloaded] at h
      cases h
      exact hrejects

/-! Values and documents -/

/-- A table as a value that was read. -/
def ofValues : View Json.Value where
  members?
    | .object members => some members
    | _ => none
  IsCount value := ∃ n < UInt64.size, value = .number (.natural n)
  text := Json.Value.render

/-- A table as it is written: the entries of an object that count, and numbers by their form. -/
def ofDocuments : View Document where
  members?
    | .object entries => some (resolved entries)
    | _ => none
  IsCount document := ∃ numeral n, document = .number numeral ∧ numeral.IsPlain n
  text document := document.value.render

theorem agrees_value : Agrees ofDocuments ofValues Document.value where
  members? document := by
    cases document with
    | object entries => rw [Document.value_object]; rfl
    | array items => rw [Document.value_array]; rfl
    | _ => rw [Document.value]; rfl
  isCount document := by
    constructor
    · rintro ⟨n, hn, hvalue⟩
      cases document with
      | number numeral =>
        rw [Document.value] at hvalue
        have hnumber := Json.Value.number.inj hvalue
        exact ⟨numeral, n, rfl, numeral.number_eq_natural_iff.1 hnumber⟩
      | object entries => rw [Document.value_object] at hvalue; cases hvalue
      | array items => rw [Document.value_array] at hvalue; cases hvalue
      | _ => rw [Document.value] at hvalue; cases hvalue
    · rintro ⟨numeral, n, rfl, hplain⟩
      refine ⟨n, hplain.lt_size, ?_⟩
      rw [Document.value, numeral.number_eq_natural_iff.2 hplain]
  text _ := rfl

theorem count?_of_isProper {value : Json.Value} (hproper : value.IsProper)
    (h : ¬ofValues.IsCount value) : count? value = none := by
  cases hcount : count? value with
  | none => rfl
  | some n =>
    rw [count?_eq_some_iff] at hcount
    subst hcount
    cases hproper with
    | number hfits => exact absurd ⟨n, hfits, rfl⟩ h

theorem eq_object_of_members? {value : Json.Value} {members : List (String × Json.Value)}
    (h : ofValues.members? value = some members) : value = .object members := by
  cases value with
  | object found =>
    cases h
    rfl
  | _ => cases h

end View

/-! Loading a value -/

theorem exists_observationsOfKind (kind : String) {members : List (String × Json.Value)}
    (h : ∀ member ∈ members, View.ofValues.IsCount member.2) :
    ∃ observations, observationsOfKind kind members = .ok observations := by
  induction members with
  | nil => exact ⟨[], rfl⟩
  | cons member members ih =>
    obtain ⟨⟨n, -, hn⟩, hmembers⟩ := List.forall_mem_cons.1 h
    obtain ⟨others, hothers⟩ := ih hmembers
    refine ⟨⟨kind, member.1, n⟩ :: others, ?_⟩
    simp only [observationsOfKind, hn, count?, hothers]
    rfl

/-- The first value that is no count is to blame. -/
theorem observationsOfKind_rejects {kind element : String} {count : Json.Value}
    {before after : List (String × Json.Value)}
    (hbefore : ∀ other ∈ before, View.ofValues.IsCount other.2) (hcount : count? count = none) :
    observationsOfKind kind (before ++ (element, count) :: after) =
      .error (.invalidCount kind element count.render) := by
  induction before with
  | nil => simp only [List.nil_append, observationsOfKind, hcount]
  | cons other before ih =>
    obtain ⟨⟨n, -, hn⟩, hbefore⟩ := List.forall_mem_cons.1 hbefore
    simp only [List.cons_append, observationsOfKind, hn, count?, ih hbefore]
    rfl

theorem observationsOfKinds_cons (kind : String) {counts : Json.Value}
    (h : View.ofValues.IsKind counts) :
    ∃ first, ∀ rest : List (String × Json.Value),
      observationsOfKinds ((kind, counts) :: rest) =
        (observationsOfKinds rest).map fun others => first ++ others := by
  obtain ⟨elements, hmembers, hcounts⟩ := h
  obtain ⟨first, hfirst⟩ := exists_observationsOfKind kind hcounts
  refine ⟨first, fun rest => ?_⟩
  rw [View.eq_object_of_members? hmembers, observationsOfKinds, hfirst]
  cases observationsOfKinds rest <;> rfl

theorem exists_observationsOfKinds {members : List (String × Json.Value)}
    (h : ∀ member ∈ members, View.ofValues.IsKind member.2) :
    ∃ observations, observationsOfKinds members = .ok observations := by
  induction members with
  | nil => exact ⟨[], rfl⟩
  | cons member members ih =>
    obtain ⟨hmember, hmembers⟩ := List.forall_mem_cons.1 h
    obtain ⟨others, hothers⟩ := ih hmembers
    obtain ⟨first, hfirst⟩ := observationsOfKinds_cons member.1 hmember
    exact ⟨first ++ others, by rw [hfirst, hothers]; rfl⟩

theorem observationsOfKinds_rejects
    {before rest : List (String × Json.Value)} {error : TableError}
    (hbefore : ∀ other ∈ before, View.ofValues.IsKind other.2)
    (h : observationsOfKinds rest = .error error) :
    observationsOfKinds (before ++ rest) = .error error := by
  induction before with
  | nil => exact h
  | cons other before ih =>
    obtain ⟨hother, hbefore⟩ := List.forall_mem_cons.1 hbefore
    obtain ⟨first, hfirst⟩ := observationsOfKinds_cons other.1 hother
    rw [List.cons_append, hfirst, ih hbefore]
    rfl

theorem observationsOfKinds_rejectsKind {kind : String} {counts : Json.Value}
    (hproper : counts.IsProper) {error : TableError}
    (h : View.ofValues.RejectsKind kind counts error) (rest : List (String × Json.Value)) :
    observationsOfKinds ((kind, counts) :: rest) = .error error := by
  cases h with
  | noObject h =>
    cases counts with
    | object elements => cases h
    | _ => rfl
  | @noCount before after element count hmembers hbefore hcount =>
    have hcounts := View.eq_object_of_members? hmembers
    subst hcounts
    cases hproper with
    | object _ hproper =>
      have hcount := View.count?_of_isProper (hproper (element, count) (by simp)) hcount
      rw [observationsOfKinds, observationsOfKind_rejects hbefore hcount]
      rfl

theorem decides_ofValue {value : Json.Value} (hproper : value.IsProper) :
    View.ofValues.Decides value (ofValue value) := by
  refine View.ofValues.decides_of_accepts_of_rejects ?_ ?_
  · rintro ⟨kinds, hmembers, hkinds⟩
    rw [View.eq_object_of_members? hmembers]
    exact exists_observationsOfKinds hkinds
  · intro error hrejects
    cases hrejects with
    | noObject h =>
      cases value with
      | object members => cases h
      | _ => rfl
    | @kind before after kind counts _ hmembers hbefore hkind =>
      have hkinds := View.eq_object_of_members? hmembers
      subst hkinds
      cases hproper with
      | object _ hproper =>
        have hcounts : counts.IsProper := hproper (kind, counts) (by simp)
        exact observationsOfKinds_rejects hbefore
          (observationsOfKinds_rejectsKind hcounts hkind after)

section

variable {reader : Json.TextReader} {text : String}

theorem readBy_eq_ofValue {value : Json.Value} (h : reader text = .ok value) :
    readBy reader text = ofValue value := by
  rw [readBy, h]

theorem decides_readBy
    (hreader : reader.IsFaithful) {document : Document} (h : document.IsText text) :
    View.ofDocuments.Decides document (readBy reader text) := by
  have hread := hreader.read h
  have hvalue := decides_ofValue (hreader.isProper hread)
  rw [readBy_eq_ofValue hread]
  exact View.ofDocuments.decides_of_accepts_of_rejects
    (fun haccepts => hvalue.ok_iff.2 (View.agrees_value.accepts document haccepts))
    fun error hrejects => (hvalue.error_iff error).2 (View.agrees_value.rejects hrejects)

end

/-- A table is loaded if it is an object of objects of whole numbers below `2 ^ 64` that are written
in digits alone, and its error else names the first kind or count that is none of this. That holds
of all values that a faithful reader, such as that of the program, can read and, by the entries that
count, of all texts of a document. -/
theorem read_rejects_first :
    Json.TextReader.IsFaithful Json.read ∧
    (∀ value : Json.Value, value.IsProper → View.ofValues.Decides value (ofValue value)) ∧
    ∀ reader : Json.TextReader, reader.IsFaithful →
      (∀ (text : String) (value : Json.Value), reader text = .ok value →
        value.IsProper ∧ readBy reader text = ofValue value) ∧
      ∀ (document : Document) (text : String), document.IsText text →
        reader text = .ok document.value ∧
          View.ofDocuments.Decides document (readBy reader text) :=
  ⟨Json.read_isFaithful, fun _ hproper => decides_ofValue hproper, fun _ hreader =>
    ⟨fun _ _ h => ⟨hreader.isProper h, readBy_eq_ofValue h⟩,
      fun _ _ h => ⟨hreader.read h, decides_readBy hreader h⟩⟩⟩

/-- A text is no count, but here a count is given in its place; the negative zero is to blame, and
not the list behind it. -/
theorem read_rejects_negative_zero :
    read "\x7b\"k\":\x7b\"a\":\"x\",\"a\":1,\"b\":-0\x7d,\"e\":[]\x7d" =
        .error (.invalidCount "k" "b" "-0.0") ∧
      ofValue (.object [("k", .object [("a", .number (.natural 1))]), ("e", .null)]) =
        .error (.notAnObject "e") := by
  obtain ⟨hfaithful, hvalues, hreaders⟩ := read_rejects_first
  obtain ⟨-, htexts⟩ := hreaders Json.read hfaithful
  constructor
  · obtain ⟨one, hone, hplain⟩ :
        ∃ numeral : Json.Numeral, numeral.chars = ['1'] ∧ numeral.IsPlain 1 :=
      ⟨⟨false, 1, [], [], .absent, .absent, .natural 1, 1, rfl⟩, rfl, rfl, rfl, rfl, rfl, by decide⟩
    obtain ⟨zero, hzero, hfloat⟩ :
        ∃ numeral : Json.Numeral, numeral.chars = ['-', '0'] ∧
          numeral.number = .float true .zero :=
      ⟨⟨true, 0, [], [], .absent, .absent, .float true .zero, 1, rfl⟩, rfl, rfl⟩
    have hnone := Json.isBlanks_nil
    have hentry {depth : Nat} (key : String) {document : Document} {chars : List Char}
        (h : Json.SpellsDocument depth document chars) :
        Json.SpellsMember (Json.SpellsDocument depth) (key, document) _ :=
      .intro (Json.spellsText_escape key.toList) hnone hnone h hnone
    have hnumber (numeral : Json.Numeral) :
        Json.SpellsDocument 125 (.number numeral) numeral.chars :=
      rfl
    have htext : Json.SpellsDocument 125 (.string "x") ['"', 'x', '"'] :=
      ⟨_, Json.spellsText_escape "x".toList, rfl⟩
    have hcounts : Json.SpellsDocument 126 (.object [("a", .string "x"), ("a", .number one),
        ("b", .number zero)]) _ :=
      Json.SpellsObject.filled hnone (.more (hentry "a" htext) hnone (.more
        (hentry "a" (hnumber one)) hnone (.last (hentry "b" (hnumber zero)))))
    have hlist : Json.SpellsDocument 126 (.array []) ['[', ']'] := Json.SpellsArray.empty hnone
    have htable : Json.SpellsDocument Json.maxDepth (.object [("k", .object [("a", .string "x"),
        ("a", .number one), ("b", .number zero)]), ("e", .array [])]) _ :=
      Json.SpellsObject.filled hnone (.more (hentry "k" hcounts) hnone (.last (hentry "e" hlist)))
    rw [hone, hzero] at htable
    have hrendered : (Document.number zero).value.render = "-0.0" := by
      rw [Document.value, hfloat]
      rfl
    have hcount : View.ofDocuments.IsCount (.number one) := ⟨one, 1, rfl, hplain⟩
    have hnoCount : ¬View.ofDocuments.IsCount (.number zero) := by
      rintro ⟨_, n, ⟨⟩, hzeroPlain⟩
      rw [← zero.number_eq_natural_iff, hfloat] at hzeroPlain
      cases hzeroPlain
    rw [← hrendered]
    refine ((htexts _ _ (.intro hnone htable hnone rfl)).2.error_iff _).2 ?_
    exact @View.Rejects.kind _ _ _ [] [("e", .array [])] "k" _ _ rfl (by simp)
      (@View.RejectsKind.noCount _ _ _ _ [("a", .number one)] [] "b" _ rfl (by simpa using hcount)
        hnoCount)
  · have hone : 1 < UInt64.size := by decide
    have hcounts : (Json.Value.object [("a", .number (.natural 1))]).IsProper :=
      .object (by decide) (List.forall_mem_singleton.2 (.number hone))
    have hproper : (Json.Value.object
        [("k", .object [("a", .number (.natural 1))]), ("e", .null)]).IsProper :=
      .object (by decide) (List.forall_mem_cons.2 ⟨hcounts, List.forall_mem_singleton.2 .null⟩)
    refine ((hvalues _ hproper).error_iff _).2 ?_
    have hkind : View.ofValues.IsKind (.object [("a", .number (.natural 1))]) :=
      ⟨_, rfl, List.forall_mem_singleton.2 ⟨1, hone, rfl⟩⟩
    exact @View.Rejects.kind _ _ _ [("k", .object [("a", .number (.natural 1))])] [] "e" _ _ rfl
      (List.forall_mem_singleton.2 hkind) (.noObject rfl)

end PuppetInventory.Usage.Table
