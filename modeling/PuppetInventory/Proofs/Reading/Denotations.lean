import PuppetInventory.Proofs.Reading.Meaning
import PuppetInventory.Proofs.Reading.Spellings

/-!
What items stand for. An item denotes a value if it is built from literals and its tree stands for
the value wherever the item is in a document; brackets carry this over from their items to the
whole.
-/

namespace PuppetInventory.Syntax

/-! Roles -/

theorem Tree.value_withRole (document : Array Char) (tree : Tree) (role : Role) :
    Tree.value document (tree.withRole role) = Tree.value document tree := by
  obtain ⟨tag, trees⟩ := tree
  rw [Tree.withRole, Tree.value, Tree.value]
  rfl

namespace Item

/-- Whether the tree of an item stands for a value. -/
structure Means (item : Item) (value : Value) : Prop where
  named (position : Position) : (item.tree position).tag.named = true
  kind_ne (position : Position) :
    (item.tree position).kind ≠ .comment ∧ (item.tree position).kind ≠ .pair
  isPlain (document : Array Char) (position : Position) : (item.tree position).IsPlain document
  value_eq {document : Array Char} {position : Position}
    (h : Stands document position item.chars) : Tree.value document (item.tree position) = value

/-! Lists of items -/

/-- Every item stands where its tree starts. -/
theorem exists_places {α : Type} {document : Array Char} (items : α → Item) (entries : List α)
    {position : Position} (h : Stands document position (allChars (entries.map items))) :
    ∃ places : List (α × Position), places.map Prod.fst = entries ∧
      trees position (entries.map items) = places.map (fun place => (items place.1).tree place.2) ∧
      ∀ place ∈ places, Stands document place.2 (items place.1).chars := by
  induction entries generalizing position with
  | nil => exact ⟨[], rfl, rfl, fun _ hplace => by cases hplace⟩
  | cons entry entries ih =>
    have hentry : Stands document position (items entry).chars := h.left
    cases entries with
    | nil =>
      refine ⟨[(entry, position)], rfl, rfl, fun place hplace => ?_⟩
      rw [List.mem_singleton.1 hplace]
      exact hentry
    | cons other entries =>
      have hmore : Stands document ((items entry).stop position)
          ([',', ' '] ++ allChars ((other :: entries).map items)) := by
        have hbehind := h.right
        rwa [List.map_cons, moreChars_cons] at hbehind
      obtain ⟨places, hplaces, htrees, hstands⟩ := ih hmore.right
      refine ⟨(entry, position) :: places, ?_, ?_, fun place hplace => ?_⟩
      · rw [List.map_cons, hplaces]
      · rw [List.map_cons, trees, htrees, List.map_cons]
      · rcases List.mem_cons.1 hplace with rfl | hplace
        · exact hentry
        · exact hstands place hplace

theorem exists_of_mem_trees {items : List Item} {position : Position} {tree : Tree}
    (h : tree ∈ trees position items) : ∃ item ∈ items, ∃ place, tree = item.tree place := by
  induction items generalizing position with
  | nil => cases h
  | cons item items ih =>
    rcases List.mem_cons.1 h with rfl | h
    · exact ⟨item, List.mem_cons_self, position, rfl⟩
    · obtain ⟨other, hother, place, rfl⟩ := ih h
      exact ⟨other, List.mem_cons_of_mem item hother, place, rfl⟩

theorem length_allChars (items : List Item) :
    items.length ≤ (allChars items).length + 1 ∧
      ∀ item ∈ items, item.chars.length ≤ (allChars items).length := by
  have hmore (items : List Item) : items.length ≤ (moreChars items).length ∧
      ∀ item ∈ items, item.chars.length ≤ (moreChars items).length := by
    induction items with
    | nil => exact ⟨Nat.le_refl 0, fun _ h => by cases h⟩
    | cons item items ih =>
      have hlength : (moreChars (item :: items)).length =
          item.chars.length + (moreChars items).length + 2 := by
        rw [moreChars_cons, allChars]
        simp only [List.length_cons, List.length_append]
      rw [hlength, List.length_cons]
      refine ⟨by omega, fun other hother => ?_⟩
      rcases List.mem_cons.1 hother with rfl | hother
      · omega
      · have hother := ih.2 other hother
        omega
  cases items with
  | nil => exact ⟨Nat.zero_le 1, fun _ h => by cases h⟩
  | cons item items =>
    have hitems := hmore items
    rw [allChars, List.length_append, List.length_cons]
    refine ⟨by omega, fun other hother => ?_⟩
    rcases List.mem_cons.1 hother with rfl | hother
    · omega
    · have hother := hitems.2 other hother
      omega

/-! Items that are built from literals -/

inductive IsLiteral : Item → Prop where
  | symbol (name : Name) : IsLiteral (symbol name)
  | delimited {literal : Literal} (h : literal.IsSpelled) (hkind : literal.form.kind = .symbol) :
    IsLiteral literal.item
  | texts {chain : Chain} (h : chain.IsSpelled) : IsLiteral chain.item
  | absent : IsLiteral absent
  | array {items : List Item} (h : ∀ item ∈ items, IsLiteral item) : IsLiteral (array items)
  | hash {pairs : List (Name × Item)} (h : ∀ pair ∈ pairs, IsLiteral pair.2) :
    IsLiteral (hash pairs)

/-- Items that are built from literals are values. They have no more tokens than characters, and a
bracket nests less deeply than three rules for each of its characters. -/
theorem IsLiteral.isValue {item : Item} (h : item.IsLiteral) {size depth : Nat}
    (hsize : item.chars.length ≤ size) (hdepth : 3 * item.chars.length ≤ depth) :
    item.IsValue size depth := by
  induction h generalizing depth with
  | symbol name =>
    have hlength : 0 < (Item.symbol name).chars.length := by
      rw [Item.symbol, chars_single]
      exact Nat.zero_lt_succ _
    obtain ⟨depth, rfl⟩ := Nat.exists_eq_add_of_le' (show 2 ≤ depth by omega)
    exact isValue_symbol name size depth
  | @delimited literal h hkind =>
    have hlength : 0 < literal.item.chars.length := literal.length_pos
    obtain ⟨depth, rfl⟩ := Nat.exists_eq_add_of_le' (show 2 ≤ depth by omega)
    exact h.isWritten.isValue hkind hsize depth
  | @texts chain h =>
    have hlength : 0 < chain.item.chars.length := by
      have hfirst := chain.first.length_pos
      rw [Chain.chars_item, Chain.chars, List.length_append]
      omega
    rw [Chain.chars_item] at hsize
    obtain ⟨depth, rfl⟩ := Nat.exists_eq_add_of_le' (show 2 ≤ depth by omega)
    exact h.isWritten.isValue hsize depth
  | absent =>
    have hlength : Item.absent.chars.length = 3 := rfl
    obtain ⟨depth, rfl⟩ := Nat.exists_eq_add_of_le' (show 2 ≤ depth by omega)
    exact isValue_absent size depth
  | @array items h ih =>
    have hlength : (Item.array items).chars.length = (allChars items).length + 2 :=
      length_enclosed _ _ _ _ _
    obtain ⟨hcount, hitems⟩ := length_allChars items
    obtain ⟨depth, rfl⟩ := Nat.exists_eq_add_of_le' (show 3 ≤ depth by omega)
    refine isValue_array (fun item hitem => ?_) (by omega)
    have hitem' := hitems item hitem
    exact ih item hitem (by omega) (by omega)
  | @hash pairs h ih =>
    let items := pairs.map fun entry => pair entry.1 entry.2
    have hlength : (Item.hash pairs).chars.length = (allChars items).length + 2 :=
      length_enclosed _ _ _ _ _
    obtain ⟨hcount, hitems⟩ := length_allChars items
    have hpairs : items.length = pairs.length := List.length_map _
    obtain ⟨depth, rfl⟩ := Nat.exists_eq_add_of_le' (show 5 ≤ depth by omega)
    refine isValue_hash (fun entry hentry => ?_) (by omega)
    have hitem := hitems (pair entry.1 entry.2) (List.mem_map_of_mem hentry)
    have hpair : (pair entry.1 entry.2).chars.length =
        entry.1.chars.length + entry.2.chars.length + 5 := by
      simp [pair, chars]
      omega
    exact ih entry hentry (by omega) (by omega)

/-- Whether an item is built from literals that stand for a value. -/
structure Denotes (item : Item) (value : Value) : Prop extends item.Means value where
  isLiteral : item.IsLiteral

/-! Items between marks -/

section

variable {document : Array Char} {position : Position} {kind : Kind} {mark : Mark}
  {first final : Char}

theorem stands_inside {items : List Item}
    (h : Stands document position (enclosed kind mark first final items).chars) :
    Stands document (position.past [first]) (allChars items) := by
  have hbehind : Stands document (position.past [first]) (allChars items ++ [final]) := h.right
  exact hbehind.left

theorem isPlain_enclosed
    (hkind : kind.isPlain = true) {items : List Item}
    (hitems : ∀ item ∈ items, ∀ place, (item.tree place).IsPlain document) :
    ((enclosed kind mark first final items).tree position).IsPlain document := by
  refine Tree.isPlain_node hkind fun tree htree => ?_
  obtain ⟨item, hitem, place, rfl⟩ := exists_of_mem_trees htree
  exact hitems item hitem place

variable {entries : List (Item × Value)} (hentries : ∀ entry ∈ entries, entry.1.Means entry.2)

include hentries

theorem isPlain_enclosedEntries (hkind : kind.isPlain = true) :
    ((enclosed kind mark first final (entries.map Prod.fst)).tree position).IsPlain document := by
  refine isPlain_enclosed hkind fun item hitem place => ?_
  obtain ⟨entry, hentry, rfl⟩ := List.mem_map.1 hitem
  exact (hentries entry hentry).isPlain document place

/-- The trees of items that stand for values are values. -/
theorem isItem_of_mem_trees {tree : Tree}
    (htree : tree ∈ trees position (entries.map Prod.fst)) :
    tree.tag.named = true ∧ tree.kind ≠ .comment ∧ tree.kind ≠ .pair := by
  obtain ⟨item, hitem, place, rfl⟩ := exists_of_mem_trees htree
  obtain ⟨entry, hentry, rfl⟩ := List.mem_map.1 hitem
  exact ⟨(hentries entry hentry).named place, (hentries entry hentry).kind_ne place⟩

/-- Items, each of which stands for a value, stand for these values. -/
theorem values_trees
    (h : Stands document position (allChars (entries.map Prod.fst))) :
    (trees position (entries.map Prod.fst)).map (Tree.value document) =
      entries.map Prod.snd := by
  obtain ⟨places, hplaces, htrees, hstands⟩ := exists_places Prod.fst entries h
  rw [htrees, ← hplaces, List.map_map, List.map_map]
  refine List.map_congr_left fun place hplace => ?_
  have hmem : place.1 ∈ entries := hplaces ▸ List.mem_map_of_mem hplace
  exact (hentries _ hmem).value_eq (hstands place hplace)

end

/-! Symbols and `nil` -/

theorem denotes_symbol (name : Name) :
    (symbol name).Denotes (.symbol (String.ofList name.chars)) where
  named position := rfl
  kind_ne position := ⟨nofun, nofun⟩
  isPlain document position := Tree.isPlain_leaf .child _ rfl
  value_eq h := by
    rw [symbol, chars_single] at h
    exact congrArg Value.symbol (symbolName_leaf .child h)
  isLiteral := .symbol name

theorem denotes_absent : absent.Denotes .absent where
  named _ := rfl
  kind_ne _ := ⟨nofun, nofun⟩
  isPlain _ _ := Tree.isPlain_leaf .child _ rfl
  value_eq _ := rfl
  isLiteral := .absent

/-! Arrays -/

section

variable {document : Array Char} {position : Position} {entries : List (Item × Value)}

theorem itemValues_eq_map {trees : List Tree}
    (h : ∀ tree ∈ trees, tree.tag.named = true ∧ tree.kind ≠ .comment) :
    Tree.itemValues document trees = trees.map (Tree.value document) := by
  induction trees with
  | nil => rfl
  | cons tree trees ih =>
    obtain ⟨tag, parts⟩ := tree
    obtain ⟨hnamed, hkind⟩ := h _ List.mem_cons_self
    have hvalue : (tag.named && decide (tag.kind ≠ .comment)) = true :=
      Bool.and_eq_true_iff.2 ⟨hnamed, decide_eq_true hkind⟩
    rw [Tree.itemValues, if_pos hvalue,
      ih fun other hother => h other (List.mem_cons_of_mem _ hother), List.map_cons]

theorem denotes_array (hentries : ∀ entry ∈ entries, entry.1.Denotes entry.2) :
    (array (entries.map Prod.fst)).Denotes (.list (entries.map Prod.snd)) where
  named position := rfl
  kind_ne position := ⟨nofun, nofun⟩
  isPlain document position :=
    isPlain_enclosedEntries (fun entry hentry => (hentries entry hentry).toMeans) rfl
  value_eq {document position} h := by
    have hmeans : ∀ entry ∈ entries, entry.1.Means entry.2 := fun entry hentry =>
      (hentries entry hentry).toMeans
    have htrees : ∀ tree ∈ trees (position.past ['[']) (entries.map Prod.fst),
        tree.tag.named = true ∧ tree.kind ≠ .comment := fun tree htree =>
      ⟨(isItem_of_mem_trees hmeans htree).1, (isItem_of_mem_trees hmeans htree).2.1⟩
    have hvalues := values_trees hmeans (stands_inside h)
    rw [← itemValues_eq_map htrees] at hvalues
    have hvalue : Tree.value document ((array (entries.map Prod.fst)).tree position) =
        .list (Tree.itemValues document
          (trees (position.past ['[']) (entries.map Prod.fst))) := by
      show Tree.value document (.node _ _) = _
      rw [Tree.value]
    rw [hvalue, hvalues]
  isLiteral := by
    refine .array fun item hitem => ?_
    obtain ⟨entry, hentry, rfl⟩ := List.mem_map.1 hitem
    exact (hentries entry hentry).isLiteral

end

/-! Hashes -/

section

variable {document : Array Char} {position : Position} {key : Name} {item : Item} {value : Value}

theorem isPlain_pair (h : item.Means value) : ((pair key item).tree position).IsPlain document := by
  refine Tree.isPlain_node rfl fun tree htree => ?_
  rw [List.mem_cons, List.mem_singleton] at htree
  rcases htree with rfl | rfl
  · exact Tree.isPlain_leaf .key _ rfl
  · exact (h.isPlain document _).withRole .value

theorem pair?_pair
    (h : item.Means value) (hstands : Stands document position (pair key item).chars) :
    Tree.pair? document ((pair key item).tree position) =
      some (String.ofList key.chars, value) := by
  have hitem : Stands document (pairStart key position) item.chars := by
    have hbehind : Stands document (position.past (':' :: key.chars))
        ([' ', '=', '>'] ++ ([' '] ++ item.chars)) := hstands.right
    exact hbehind.right.right
  have hkey : ((pair key item).tree position).child? .key =
      some ((Tree.leaf .simpleSymbol
        ⟨position, position.past (':' :: key.chars)⟩).withRole .key) := rfl
  have hname : Tree.keyText? document ((Tree.leaf .simpleSymbol
      ⟨position, position.past (':' :: key.chars)⟩).withRole .key) =
        some (String.ofList key.chars) :=
    congrArg some (symbolName_leaf .key hstands.left)
  have hvalue : ((pair key item).tree position).child? .value =
      some ((item.tree (pairStart key position)).withRole .value) := by
    show List.find? _ [_, (item.tree (pairStart key position)).withRole .value] = _
    cases item.tree (pairStart key position)
    rfl
  rw [Tree.pair?_eq, hkey, hvalue, Option.bind_some, hname, Option.bind_some, Option.map_some,
    Tree.value_withRole, h.value_eq hitem]

theorem pairs_map {α : Type} {node : α → Tree} {entry : α → String × Value} {sources : List α}
    (h : ∀ source ∈ sources, (node source).tag.named = true ∧ (node source).kind = .pair ∧
      Tree.pair? document (node source) = some (entry source)) :
    Tree.pairs document (sources.map node) = sources.map entry := by
  induction sources with
  | nil => rfl
  | cons source sources ih =>
    obtain ⟨hnamed, hkind, hpair⟩ := h source List.mem_cons_self
    rw [List.map_cons, Tree.pairs_cons_of_pair hnamed hkind, hpair,
      ih fun other hother => h other (List.mem_cons_of_mem _ hother), List.map_cons]
    rfl

/-- The pairs of a hash, each with a value that its item stands for. -/
def pairItems (entries : List (Name × Item × Value)) : List Item :=
  entries.map fun entry => pair entry.1 entry.2.1

theorem hash_eq_enclosed (entries : List (Name × Item × Value)) :
    hash (entries.map fun entry => (entry.1, entry.2.1)) =
      enclosed .hash .openBrace '{' '}' (pairItems entries) := by
  rw [hash, List.map_map]
  rfl

theorem pairs_trees
    {entries : List (Name × Item × Value)} (hentries : ∀ entry ∈ entries, entry.2.1.Means entry.2.2)
    (h : Stands document position (allChars (pairItems entries))) :
    Tree.pairs document (trees position (pairItems entries)) =
      entries.map fun entry => (String.ofList entry.1.chars, entry.2.2) := by
  obtain ⟨places, hplaces, hmap, hstands⟩ :=
    exists_places (fun entry => pair entry.1 entry.2.1) entries h
  rw [pairItems, hmap, ← hplaces, List.map_map]
  refine pairs_map fun place hplace => ⟨rfl, rfl, ?_⟩
  have hmem : place.1 ∈ entries := hplaces ▸ List.mem_map_of_mem hplace
  exact pair?_pair (hentries _ hmem) (hstands place hplace)

theorem denotes_hash {entries : List (Name × Item × Value)}
    (hentries : ∀ entry ∈ entries, entry.2.1.Denotes entry.2.2) :
    (hash (entries.map fun entry => (entry.1, entry.2.1))).Denotes
      (.hash (entries.map fun entry => (String.ofList entry.1.chars, entry.2.2))) where
  named position := rfl
  kind_ne position := ⟨nofun, nofun⟩
  isPlain document position := by
    rw [hash_eq_enclosed]
    refine isPlain_enclosed rfl fun item hitem place => ?_
    obtain ⟨entry, hentry, rfl⟩ := List.mem_map.1 hitem
    exact isPlain_pair (hentries entry hentry).toMeans
  value_eq {document position} h := by
    rw [hash_eq_enclosed] at h ⊢
    have hpairs := pairs_trees (fun entry hentry => (hentries entry hentry).toMeans)
      (stands_inside h)
    have hvalue : Tree.value document
        ((enclosed .hash .openBrace '{' '}' (pairItems entries)).tree position) =
          .hash (Tree.pairs document (trees (position.past ['{']) (pairItems entries))) := by
      show Tree.value document (.node _ _) = _
      rw [Tree.value]
    rw [hvalue, hpairs]
  isLiteral := by
    refine .hash fun pair hpair => ?_
    obtain ⟨entry, hentry, rfl⟩ := List.mem_map.1 hpair
    exact (hentries entry hentry).isLiteral

end

end Item

/-! Literals -/

section

variable {document : Array Char} {position : Position} {literal : Literal}

theorem Literal.isPlain_tree (h : literal.form.isTextual = true) :
    (literal.tree position).IsPlain document := by
  have hkind : (Grammar.literalTreeKind literal.form.kind).isPlain = true := by
    rcases LiteralForm.kind_of_isTextual h with hkind | hkind <;> rw [hkind] <;> rfl
  refine Tree.isPlain_node hkind fun tree htree => ?_
  obtain ⟨part, -, span, rfl⟩ := named_of_mem_trees htree
  cases part <;> exact Tree.isPlain_leaf .child span rfl

theorem Literal.IsSpelled.denotes (h : literal.IsSpelled) (hkind : literal.form.kind = .symbol) :
    literal.item.Denotes (.symbol (String.ofList literal.value)) where
  named position := rfl
  kind_ne position := by
    have hsymbol : (literal.item.tree position).kind = .delimitedSymbol :=
      congrArg Grammar.literalTreeKind hkind
    rw [hsymbol]
    exact ⟨nofun, nofun⟩
  isPlain document position := Literal.isPlain_tree h.isWritten.textual
  value_eq {document position} hstands :=
    Tree.value_delimitedSymbol (congrArg Grammar.literalTreeKind hkind)
      (literal.literalChars?_tree h.isWritten.opening_ne hstands)
  isLiteral := .delimited h hkind

end

namespace Chain

/-- The characters that texts stand for that follow each other. -/
def value (chain : Chain) : List Char :=
  chain.literals.flatMap Literal.value

section

variable {document : Array Char} {position : Position} {chain : Chain}

theorem exists_of_mem_moreTrees {others : List (Bool × Literal)} {tree : Tree}
    (h : tree ∈ moreTrees position others) :
    ∃ other ∈ others, ∃ start, tree = other.2.tree start := by
  induction others generalizing position with
  | nil => cases h
  | cons other others ih =>
    rcases List.mem_cons.1 h with rfl | h
    · exact ⟨other, List.mem_cons_self, _, rfl⟩
    · obtain ⟨another, hanother, start, rfl⟩ := ih h
      exact ⟨another, List.mem_cons_of_mem other hanother, start, rfl⟩

theorem mapM_moreTrees
    {others : List (Bool × Literal)}
    (hothers : ∀ other ∈ others, other.2.IsWritten ∧ other.2.form.kind = .text)
    (h : Stands document position (moreChars others)) :
    (moreTrees position others).mapM (fun part =>
        if part.kind = .string then Tree.literalChars? document part else none) =
      some (others.map fun other => other.2.value) := by
  induction others generalizing position with
  | nil => rfl
  | cons other others ih =>
    obtain ⟨hwritten, hkind⟩ := hothers other List.mem_cons_self
    rw [moreChars_cons] at h
    have hother := h.right.left
    have hrest := ih (fun another hanother => hothers another (List.mem_cons_of_mem _ hanother))
      h.right.right
    have hstring : (other.2.tree (position.past (gap other.1))).kind = .string :=
      congrArg Grammar.literalTreeKind hkind
    rw [moreTrees, List.mapM_cons, hstring, if_pos rfl,
      other.2.literalChars?_tree hwritten.opening_ne hother, hrest]
    rfl

theorem isPlain_tree (h : chain.IsWritten) : (chain.tree position).IsPlain document := by
  have hliteral : ∀ literal ∈ chain.literals, ∀ place : Position,
      (literal.tree place).IsPlain document := fun literal hliteral place =>
    Literal.isPlain_tree (h.literals literal hliteral).textual
  rw [tree]
  split
  · exact hliteral _ List.mem_cons_self _
  · refine Tree.isPlain_node rfl fun tree htree => ?_
    rcases List.mem_cons.1 htree with rfl | htree
    · exact hliteral _ List.mem_cons_self _
    · obtain ⟨other, hother, start, rfl⟩ := exists_of_mem_moreTrees htree
      exact hliteral _ (List.mem_cons_of_mem _ (List.mem_map_of_mem hother)) start

theorem value_tree (h : chain.IsWritten) (hstands : Stands document position chain.chars) :
    Tree.value document (chain.tree position) = .text (String.ofList chain.value) := by
  obtain ⟨first, others⟩ := chain
  have hwritten := h.literals first List.mem_cons_self
  have hkind := h.texts first List.mem_cons_self
  have hfirst := first.literalChars?_tree hwritten.opening_ne hstands.left
  cases others with
  | nil =>
    have hall : value ⟨first, []⟩ = first.value := List.append_nil _
    rw [tree, List.isEmpty_nil, if_pos rfl, hall]
    exact Tree.value_string (congrArg Grammar.literalTreeKind hkind) hfirst
  | cons other others =>
    let whole : Chain := ⟨first, other :: others⟩
    let parts := first.tree position :: moreTrees (position.past first.chars) (other :: others)
    have hothers : ∀ another ∈ other :: others,
        another.2.IsWritten ∧ another.2.form.kind = .text := by
      intro another hanother
      have hmem : another.2 ∈ whole.literals :=
        List.mem_cons_of_mem first (List.mem_map_of_mem hanother)
      exact ⟨h.literals _ hmem, h.texts _ hmem⟩
    have hstring : (first.tree position).kind = .string := congrArg Grammar.literalTreeKind hkind
    have hparts : parts.mapM (fun part =>
          if part.kind = .string then Tree.literalChars? document part else none) =
        some (first.value :: (other :: others).map fun another => another.2.value) := by
      rw [List.mapM_cons, hstring, if_pos rfl, hfirst, mapM_moreTrees hothers hstands.right]
      rfl
    have hnamed : (tree whole position).namedChildren = parts := by
      refine List.filter_eq_self.2 fun part hpart => ?_
      rcases List.mem_cons.1 hpart with rfl | hpart
      · rfl
      · obtain ⟨another, -, start, rfl⟩ := exists_of_mem_moreTrees hpart
        rfl
    have hall : (first.value :: (other :: others).map fun another => another.2.value).flatten =
        value whole := by
      rw [value, literals, List.flatMap_cons, List.flatMap_map, List.flatten_cons,
        ← List.flatMap_def]
    rw [← hall]
    exact Tree.value_chainedString rfl (hnamed ▸ hparts)

end

end Chain

theorem Chain.kind_tree {chain : Chain} (h : chain.first.form.kind = .text) (position : Position) :
    (chain.tree position).kind = if chain.others.isEmpty then .string else .chainedString := by
  rw [tree]
  split
  · exact congrArg Grammar.literalTreeKind h
  · rfl

/-- Texts that follow each other stand for what they spell together. -/
theorem Chain.IsSpelled.denotes {chain : Chain} (h : chain.IsSpelled) :
    chain.item.Denotes (.text (String.ofList chain.value)) where
  named position := by
    show (chain.tree position).tag.named = true
    rw [tree]
    split <;> rfl
  kind_ne position := by
    have hkind := kind_tree (h.texts chain.first List.mem_cons_self) position
    show (chain.tree position).kind ≠ .comment ∧ (chain.tree position).kind ≠ .pair
    rw [hkind]
    split <;> exact ⟨nofun, nofun⟩
  isPlain document position := Chain.isPlain_tree h.isWritten
  value_eq hstands := Chain.value_tree h.isWritten (chain.chars_item ▸ hstands)
  isLiteral := .texts h

theorem Literal.IsSpelled.denotes_alone
    {literal : Literal} (h : literal.IsSpelled) (hkind : literal.form.kind = .text) :
    (Chain.item ⟨literal, []⟩).Denotes (.text (String.ofList literal.value)) := by
  have hspelled : Chain.IsSpelled ⟨literal, []⟩ := by
    refine ⟨fun other hother => ?_, fun other hother => ?_⟩
    · rwa [List.mem_singleton.1 hother]
    · rwa [List.mem_singleton.1 hother]
  have hvalue : Chain.value ⟨literal, []⟩ = literal.value := List.append_nil _
  exact hvalue ▸ hspelled.denotes

theorem Literal.chars_alone (literal : Literal) :
    (Chain.item ⟨literal, []⟩).chars = literal.chars := by
  rw [Chain.chars_item]
  exact List.append_nil _

end PuppetInventory.Syntax
