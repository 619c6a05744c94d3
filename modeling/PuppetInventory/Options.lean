import PuppetInventory.Value

/-!
The options of a module statement: a table from keys to values, kept in the order of the keys. The
last value given to a key counts.
-/

namespace PuppetInventory

inductive OptionValue where
  | text (content : String)
  | list (items : List OptionValue)
  | absent
  | source (content : String)
deriving Repr, BEq, Inhabited

namespace OptionValue

mutual

def render : OptionValue → String
  | .text content => "'" ++ content ++ "'"
  | .list items => "[" ++ String.intercalate ", " (renderItems items) ++ "]"
  | .absent => "nil"
  | .source content => content

def renderItems : List OptionValue → List String
  | [] => []
  | item :: rest => render item :: renderItems rest

end

mutual

/-- Symbols count as texts inside options, and a hash is kept as it would be shown. -/
def ofValue : Value → OptionValue
  | .text content => .text content
  | .symbol name => .text name
  | .absent => .absent
  | .list items => .list (ofItems items)
  | .hash pairs => .source (Value.hash pairs).render
  | .source content => .source content

def ofItems : List Value → List OptionValue
  | [] => []
  | item :: rest => ofValue item :: ofItems rest

end

/-- The plain text of a value; `nil` has none. -/
def plain? : OptionValue → Option String
  | .absent => none
  | .text content => some content
  | value => some value.render

end OptionValue

structure Options where
  entries : List (String × OptionValue)
  keys_sorted : entries.Pairwise fun first second => first.1 < second.1

namespace Options

def empty : Options where
  entries := []
  keys_sorted := .nil

def insertEntry (key : String) (value : OptionValue) :
    List (String × OptionValue) → List (String × OptionValue)
  | [] => [(key, value)]
  | (other, present) :: rest =>
    if key < other then (key, value) :: (other, present) :: rest
    else if other < key then (other, present) :: insertEntry key value rest
    else (key, value) :: rest

theorem mem_insertEntry
    {key : String} {value : OptionValue} {entries : List (String × OptionValue)}
    {entry : String × OptionValue} (h : entry ∈ insertEntry key value entries) :
    entry = (key, value) ∨ entry ∈ entries := by
  induction entries with
  | nil => simpa [insertEntry] using h
  | cons head rest ih =>
    simp only [insertEntry] at h
    split at h
    · simpa using h
    · split at h
      · rcases List.mem_cons.1 h with rfl | h
        · simp
        · rcases ih h with rfl | h <;> simp_all
      · rcases List.mem_cons.1 h with rfl | h <;> simp_all

theorem insertEntry_sorted
    (key : String) (value : OptionValue) {entries : List (String × OptionValue)}
    (h : entries.Pairwise fun first second => first.1 < second.1) :
    (insertEntry key value entries).Pairwise fun first second => first.1 < second.1 := by
  induction entries with
  | nil => simp [insertEntry]
  | cons head rest ih =>
    obtain ⟨hhead, hrest⟩ := List.pairwise_cons.1 h
    simp only [insertEntry]
    split
    · next hlt =>
      refine List.pairwise_cons.2 ⟨fun entry hentry => ?_, h⟩
      rcases List.mem_cons.1 hentry with rfl | hentry
      · exact hlt
      · exact String.lt_trans hlt (hhead entry hentry)
    · next hge =>
      split
      · next hgt =>
        refine List.pairwise_cons.2 ⟨fun entry hentry => ?_, ih hrest⟩
        rcases mem_insertEntry hentry with rfl | hentry
        · exact hgt
        · exact hhead entry hentry
      · next hle =>
        have heq : key = head.1 :=
          String.le_antisymm (String.not_lt.1 hle) (String.not_lt.1 hge)
        refine List.pairwise_cons.2 ⟨fun entry hentry => ?_, hrest⟩
        rw [heq]
        exact hhead entry hentry

def insert (options : Options) (key : String) (value : OptionValue) : Options where
  entries := insertEntry key value options.entries
  keys_sorted := insertEntry_sorted key value options.keys_sorted

def get? (options : Options) (key : String) : Option OptionValue :=
  options.entries.lookup key

def contains (options : Options) (key : String) : Bool :=
  (options.get? key).isSome

def ofEntries (entries : List (String × OptionValue)) : Options :=
  entries.foldl (fun options entry => options.insert entry.1 entry.2) empty

def ofPairs (pairs : List (String × Value)) : Options :=
  ofEntries (pairs.map fun pair => (pair.1, .ofValue pair.2))

/-- The plain text of the first of `keys` that has one. -/
def firstPlain? (options : Options) (keys : List String) : Option String :=
  keys.findSome? fun key => (options.get? key).bind OptionValue.plain?

def render (options : Options) : String :=
  "\x7b" ++
    String.intercalate ", "
      (options.entries.map fun entry => ":" ++ entry.1 ++ " => " ++ entry.2.render) ++
    "\x7d"

end Options

/-- The second argument of a `mod` statement. -/
inductive Payload where
  /-- No argument, `nil` or `:latest`. -/
  | missing
  /-- A version in the registry. -/
  | version (text : String)
  | options (given : Options)
  /-- Anything else, as it would be shown. -/
  | unsupported (text : String)

namespace Payload

def ofArgument : Option Value → Payload
  | none => .missing
  | some .absent => .missing
  | some (.symbol name) => if name = "latest" then .missing else .version name
  | some (.text text) => .version text
  | some (.hash pairs) => .options (.ofPairs pairs)
  | some value => .unsupported value.render

def render : Payload → String
  | .missing => "nil"
  | .version text => "'" ++ text ++ "'"
  | .options given => given.render
  | .unsupported text => text

end Payload

end PuppetInventory
