import PuppetInventory.FileTree.Discovery
import Mathlib.Data.List.Forall2

/-!
Names in the order of their bytes, and paths in the order of their names.
-/

namespace PuppetInventory

def nameBytes (name : String) : List UInt8 :=
  name.toUTF8.data.toList

theorem nameBytes_eq (name : String) :
    nameBytes name = name.toList.flatMap String.utf8EncodeChar := by
  have hbytes : name.toUTF8 = name.toList.utf8Encode := String.utf8Encode_toList.symm
  rw [nameBytes, hbytes, List.utf8Encode, List.toList_data_toByteArray]

theorem ofNat_cons_lt_iff (m n : Nat) (left right : List UInt8) (hm : m < 256) (hn : n < 256) :
    UInt8.ofNat m :: left < UInt8.ofNat n :: right ↔ m < n ∨ m = n ∧ left < right := by
  rw [List.cons_lt_cons_iff, UInt8.lt_iff_toNat_lt, ← UInt8.toNat_inj,
    UInt8.toNat_ofNat_of_lt' hm, UInt8.toNat_ofNat_of_lt' hn]

/-- Of two numbers in base 64, the first digit in which they differ decides. -/
theorem digits_lt {m n : Nat} (hlt : m < n) :
    m / 262144 < n / 262144 ∨ m / 262144 = n / 262144 ∧
      (m / 4096 % 64 < n / 4096 % 64 ∨ m / 4096 % 64 = n / 4096 % 64 ∧
        (m / 64 % 64 < n / 64 % 64 ∨ m / 64 % 64 = n / 64 % 64 ∧ m % 64 < n % 64)) := by
  have hdigit {i j : Nat} (h : i < j) : i / 64 < j / 64 ∨ i / 64 = j / 64 ∧ i % 64 < j % 64 := by
    omega
  have hlower (k : Nat) : k / 4096 = k / 64 / 64 := (Nat.div_div_eq_div_mul k 64 64).symm
  have hupper (k : Nat) : k / 262144 = k / 64 / 64 / 64 := by
    rw [Nat.div_div_eq_div_mul, Nat.div_div_eq_div_mul]
  rw [hlower, hlower, hupper, hupper]
  rcases hdigit hlt with hlt | ⟨heq, hlast⟩
  · rcases hdigit hlt with hlt | ⟨heq, hlast⟩
    · rcases hdigit hlt with hlt | ⟨heq, hlast⟩
      · exact .inl hlt
      · exact .inr ⟨heq, .inl hlast⟩
    · rw [heq]
      exact .inr ⟨rfl, .inr ⟨rfl, .inl hlast⟩⟩
  · rw [heq]
    exact .inr ⟨rfl, .inr ⟨rfl, .inr ⟨rfl, hlast⟩⟩⟩

/-- The first byte in which the encodings of two characters differ decides: a longer encoding has
the greater first byte, and encodings of one length spell a number from its highest digit on. -/
theorem utf8EncodeChar_append_lt (c d : Char) (left right : List UInt8) (hlt : c < d) :
    String.utf8EncodeChar c ++ left < String.utf8EncodeChar d ++ right := by
  have hvalue : c.val.toNat < d.val.toNat := by
    simpa [Char.lt_def, UInt32.lt_iff_toNat_lt] using hlt
  have hbound : d.val.toNat < 0x110000 := by
    rcases d.valid with hlow | ⟨-, hhigh⟩ <;> omega
  have hdigits := digits_lt hvalue
  have hfirst (k : Nat) (h : k < 0x110000) : k / 262144 % 8 = k / 262144 :=
    Nat.mod_eq_of_lt (by omega)
  unfold String.utf8EncodeChar
  generalize c.val.toNat = m at *
  generalize d.val.toNat = n at *
  simp only
  split_ifs <;>
    simp (disch := omega) only [List.cons_append, List.nil_append, ofNat_cons_lt_iff,
      hfirst] <;>
    omega

theorem utf8EncodeChar_ne_nil (c : Char) : String.utf8EncodeChar c ≠ [] := by
  unfold String.utf8EncodeChar
  simp only
  split_ifs <;> simp

theorem flatMap_utf8EncodeChar_lt {first second : List Char} (hlt : first < second) :
    first.flatMap String.utf8EncodeChar < second.flatMap String.utf8EncodeChar := by
  induction first generalizing second with
  | nil =>
    cases second with
    | nil => exact absurd hlt (List.lt_irrefl [])
    | cons d second =>
      obtain ⟨byte, bytes, hbytes⟩ := List.exists_cons_of_ne_nil (utf8EncodeChar_ne_nil d)
      rw [List.flatMap_nil, List.flatMap_cons, hbytes]
      exact List.nil_lt_cons byte _
  | cons c first ih =>
    cases second with
    | nil => exact absurd hlt (List.not_lt_nil _)
    | cons d second =>
      rw [List.flatMap_cons, List.flatMap_cons]
      rcases List.cons_lt_cons_iff.mp hlt with hchar | ⟨rfl, hrest⟩
      · exact utf8EncodeChar_append_lt c d _ _ hchar
      · exact List.append_left_lt (ih hrest)

/-- The order of texts is the order of their bytes. -/
theorem nameBytes_lt_iff (first second : String) :
    nameBytes first < nameBytes second ↔ first < second := by
  have hmono (a b : String) (hlt : a < b) : nameBytes a < nameBytes b := by
    rw [nameBytes_eq, nameBytes_eq]
    exact flatMap_utf8EncodeChar_lt (String.lt_iff.mp hlt)
  constructor
  · intro hlt
    rcases Std.lt_trichotomy first second with hbefore | rfl | hafter
    · exact hbefore
    · exact absurd hlt (List.lt_irrefl _)
    · exact absurd (hmono second first hafter) (List.lt_asymm hlt)
  · exact hmono first second

theorem nameBytes_le_iff (first second : String) :
    nameBytes first ≤ nameBytes second ↔ first ≤ second := by
  rw [← List.not_lt, ← String.not_lt, nameBytes_lt_iff]

theorem nameBytes_injective : Function.Injective nameBytes := by
  intro first second heq
  rcases Std.lt_trichotomy first second with hbefore | rfl | hafter
  · exact absurd ((nameBytes_lt_iff first second).mpr hbefore) (heq ▸ List.lt_irrefl _)
  · rfl
  · exact absurd ((nameBytes_lt_iff second first).mpr hafter) (heq ▸ List.lt_irrefl _)

theorem nameBytes_lt_of_le_of_ne {first second : String}
    (hle : nameBytes first ≤ nameBytes second) (hne : first ≠ second) :
    nameBytes first < nameBytes second :=
  (nameBytes_lt_iff first second).mpr
    (Std.lt_of_le_of_ne ((nameBytes_le_iff first second).mp hle) hne)

/-! ### The components of a path -/

theorem exists_pathParts_eq_cons (path : List Char) :
    ∃ part others, pathParts path = part :: others := by
  cases path with
  | nil => exact ⟨[], [], rfl⟩
  | cons c rest =>
    simp only [pathParts]
    split
    · exact ⟨_, _, rfl⟩
    · split <;> exact ⟨_, _, rfl⟩

theorem pathParts_append_slash (front rest : List Char) :
    pathParts (front ++ '/' :: rest) = pathParts front ++ pathParts rest := by
  induction front with
  | nil =>
    obtain ⟨part, others, hrest⟩ := exists_pathParts_eq_cons rest
    simp [pathParts, hrest]
  | cons c front ih =>
    obtain ⟨part, others, hfront⟩ := exists_pathParts_eq_cons front
    rw [List.cons_append, pathParts, ih, pathParts, hfront, List.cons_append]
    by_cases hc : c = '/' <;> simp [hc]

theorem pathParts_of_not_mem (path : List Char) (hpath : '/' ∉ path) : pathParts path = [path] := by
  induction path with
  | nil => rfl
  | cons c rest ih =>
    obtain ⟨hc, hrest⟩ : '/' ≠ c ∧ '/' ∉ rest := by simpa using hpath
    rw [pathParts, ih hrest]
    exact if_neg (Ne.symm hc)

@[simp]
theorem pathComponents_empty : pathComponents "" = [] := by
  simp [pathComponents, pathParts]

theorem pathComponents_append_slash (front rest : String) :
    pathComponents (front ++ "/" ++ rest) = pathComponents front ++ pathComponents rest := by
  have hparts :
      pathParts (front ++ "/" ++ rest).toList =
        pathParts front.toList ++ pathParts rest.toList := by
    rw [← pathParts_append_slash]
    simp
  rw [pathComponents, hparts, List.filter_append, List.map_append]
  rfl

/-- What a directory may call one of its entries. -/
def IsEntryName (name : String) : Prop :=
  name ≠ "" ∧ '/' ∉ name.toList

instance (name : String) : Decidable (IsEntryName name) :=
  inferInstanceAs (Decidable (_ ∧ _))

theorem pathComponents_entryName (name : String) (hname : IsEntryName name) :
    pathComponents name = [name] := by
  obtain ⟨hne, hslash⟩ := hname
  have hlist : name.toList ≠ [] := fun h => hne (String.toList_eq_nil_iff.mp h)
  simp [pathComponents, pathParts_of_not_mem _ hslash, hlist]

theorem pathComponents_intercalate (names : List String)
    (hnames : ∀ name ∈ names, IsEntryName name) :
    pathComponents (String.intercalate "/" names) = names := by
  induction names with
  | nil => exact pathComponents_empty
  | cons name rest ih =>
    have hname := pathComponents_entryName name (hnames name List.mem_cons_self)
    cases rest with
    | nil => simpa using hname
    | cons next rest =>
      rw [String.intercalate_cons_cons, pathComponents_append_slash, hname,
        ih fun other hother => hnames other (List.mem_cons_of_mem name hother)]
      rfl

theorem pathComponents_joinPath (path : String) (names : List String)
    (hnames : ∀ name ∈ names, IsEntryName name) :
    pathComponents (joinPath path names) = pathComponents path ++ names := by
  have hrest := pathComponents_intercalate names hnames
  unfold joinPath
  by_cases hempty : path = ""
  · simp [hempty, hrest]
  by_cases hslash : path.toList.getLast? = some '/'
  · obtain ⟨front, hfront⟩ := List.getLast?_eq_some_iff.mp hslash
    have hpath : path = String.ofList front ++ "/" := by
      rw [← String.toList_inj]
      simpa using hfront
    have hcomponents : pathComponents path = pathComponents (String.ofList front) := by
      rw [hpath, ← String.append_empty (s := String.ofList front ++ "/"),
        pathComponents_append_slash, pathComponents_empty, List.append_nil]
    simp only [hslash, decide_true, Bool.or_true, if_true]
    rw [hcomponents, hpath, pathComponents_append_slash, hrest]
  · simp only [hempty, hslash, decide_false, Bool.or_false, Bool.false_eq_true, if_false]
    rw [pathComponents_append_slash, hrest]

/-! ### The order of paths -/

/-- A list of names stands before another: the first names in which they differ decide by their
bytes, and a list stands before its continuations. -/
def NamesBefore (first second : List String) : Prop :=
  first.map nameBytes < second.map nameBytes

def PathBefore (first second : String) : Prop :=
  NamesBefore (pathComponents first) (pathComponents second)

namespace NamesBefore

theorem nil_cons (name : String) (names : List String) : NamesBefore [] (name :: names) :=
  List.nil_lt_cons _ _

theorem cons_cons_iff (first second : String) (left right : List String) :
    NamesBefore (first :: left) (second :: right) ↔
      nameBytes first < nameBytes second ∨ first = second ∧ NamesBefore left right := by
  simp only [NamesBefore, List.map_cons, List.cons_lt_cons_iff, nameBytes_injective.eq_iff]

theorem irrefl (names : List String) : ¬NamesBefore names names :=
  List.lt_irrefl _

theorem append_left (front : List String) {first second : List String}
    (hbefore : NamesBefore first second) : NamesBefore (front ++ first) (front ++ second) := by
  rw [NamesBefore, List.map_append, List.map_append]
  exact List.append_left_lt hbefore

theorem not_lt {first second : List String} (hbefore : NamesBefore first second) :
    ¬second < first := by
  intro hlt
  have hmap : second.map nameBytes < first.map nameBytes :=
    List.map_lt (fun a b => (nameBytes_lt_iff a b).mpr) hlt
  exact List.lt_asymm hbefore hmap

end NamesBefore

theorem PathBefore.pathLe {first second : String} (hbefore : PathBefore first second) :
    pathLe first second = true := by
  simpa [PuppetInventory.pathLe] using NamesBefore.not_lt hbefore

theorem PathBefore.ne {first second : String} (hbefore : PathBefore first second) :
    first ≠ second := by
  rintro rfl
  exact NamesBefore.irrefl _ hbefore

theorem pathBefore_joinPath (path : String) {first second : List String}
    (hfirst : ∀ name ∈ first, IsEntryName name) (hsecond : ∀ name ∈ second, IsEntryName name)
    (hbefore : NamesBefore first second) :
    PathBefore (joinPath path first) (joinPath path second) := by
  rw [PathBefore, pathComponents_joinPath path first hfirst,
    pathComponents_joinPath path second hsecond]
  exact hbefore.append_left _

end PuppetInventory
