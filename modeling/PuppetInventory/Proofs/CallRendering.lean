import PuppetInventory.Diagnostic
import PuppetInventory.Proofs.Reading.Calls

/-!
Calls as they are shown in messages. A call whose arguments are built from literals is a document of
its own: read back, it gives the call again. So no two such calls are shown alike.
-/

namespace PuppetInventory

open Syntax

/-! Literal calls -/

namespace Value

mutual

/-- Whether a value is built from texts without quotes and backslashes, plain names as symbols and
keys, and `nil`. -/
def isLiteral : Value → Bool
  | .text content => content.toList.all fun c => c ≠ '\'' && c ≠ '\\'
  | .symbol name => isName name.toList
  | .absent => true
  | .hash pairs => arePairsLiteral pairs
  | .list items => areItemsLiteral items
  | .source _ => false

def arePairsLiteral : List (String × Value) → Bool
  | [] => true
  | (key, value) :: rest => isName key.toList && isLiteral value && arePairsLiteral rest

def areItemsLiteral : List Value → Bool
  | [] => true
  | item :: rest => isLiteral item && areItemsLiteral rest

end

end Value

/-- Whether a call stands alone on the first line, its name is no keyword, and its arguments are
literals. -/
structure Call.IsLiteral (call : Call) : Prop where
  isName : isName call.name.toList = true
  notKeyword : Keyword.ofWord? call.name.toList = none
  arguments : Value.areItemsLiteral call.arguments = true
  line_eq : call.line = 1
  children_eq : call.children = []

/-! Items of literal values -/

namespace Value

theorem spellsQuoted_of_plain {text : List Char} (h : ∀ c ∈ text, c ≠ '\'' ∧ c ≠ '\\') :
    SpellsQuoted text text := by
  induction text with
  | nil => exact .nil
  | cons c text ih =>
    obtain ⟨hquote, hslash⟩ := h c List.mem_cons_self
    exact .plain hquote hslash (ih fun d hd => h d (List.mem_cons_of_mem c hd))

/-- Items with commas between them are their texts with commas between them. -/
theorem allChars_eq_shown {α : Type} {item : α → Item} {shown : α → String}
    {entries : List α} (h : ∀ entry ∈ entries, (item entry).chars = (shown entry).toList) :
    Item.allChars (entries.map item) = (String.intercalate ", " (entries.map shown)).toList := by
  have hentries : entries.map (Item.chars ∘ item) = entries.map (String.toList ∘ shown) :=
    List.map_congr_left h
  rw [Item.allChars_eq_intercalate, String.toList_intercalate, List.map_map, List.map_map,
    hentries]
  rfl

theorem exists_item_text {content : String} (h : SpellsQuoted content.toList content.toList) :
    ∃ item : Item, item.chars = (Value.text content).render.toList ∧
      item.Denotes (.text content) := by
  have hdenotes := (Literal.IsSpelled.singleQuoted h).denotes_alone rfl
  rw [h.value_eq, String.ofList_toList] at hdenotes
  refine ⟨_, ?_, hdenotes⟩
  rw [Literal.chars_alone, Literal.chars_singleQuoted, render, String.toList_append,
    String.toList_append]
  rfl

theorem exists_item_symbol {name : String} (h : isName name.toList = true) :
    ∃ item : Item, item.chars = (Value.symbol name).render.toList ∧
      item.Denotes (.symbol name) := by
  have hdenotes := Item.denotes_symbol ⟨name.toList, h⟩
  rw [String.ofList_toList] at hdenotes
  refine ⟨_, ?_, hdenotes⟩
  rw [Item.symbol, Item.chars_single, render, String.toList_append]
  rfl

mutual

/-- A literal value is shown as an item that denotes it. -/
theorem exists_item (value : Value) (h : value.isLiteral = true) :
    ∃ item : Item, item.chars = value.render.toList ∧ item.Denotes value := by
  match value with
  | .text content =>
    have hplain : ∀ c ∈ content.toList, c ≠ '\'' ∧ c ≠ '\\' := by
      simpa [isLiteral] using h
    exact exists_item_text (spellsQuoted_of_plain hplain)
  | .symbol name => exact exists_item_symbol h
  | .absent => exact ⟨Item.absent, rfl, Item.denotes_absent⟩
  | .hash pairs =>
    obtain ⟨entries, rfl, hentries⟩ := exists_pairs pairs h
    refine ⟨_, ?_, Item.denotes_hash fun entry hentry => (hentries entry hentry).2⟩
    have hinside : Item.allChars (Item.pairItems entries) =
        (String.intercalate ", " (renderPairs
          (entries.map fun entry => (String.ofList entry.1.chars, entry.2.2)))).toList := by
      rw [renderPairs_eq_map, List.map_map]
      refine allChars_eq_shown fun entry hentry => ?_
      rw [Item.chars_pair, (hentries entry hentry).1]
      simp only [Function.comp_apply, String.toList_append, String.toList_ofList,
        List.append_assoc]
      rfl
    rw [Item.hash_eq_enclosed, Item.chars_enclosed, hinside, render, String.toList_append,
      String.toList_append]
    rfl
  | .list items =>
    obtain ⟨entries, rfl, hentries⟩ := exists_items items h
    refine ⟨_, ?_, Item.denotes_array fun entry hentry => (hentries entry hentry).2⟩
    have hinside : Item.allChars (entries.map Prod.fst) =
        (String.intercalate ", " (renderItems (entries.map Prod.snd))).toList := by
      rw [renderItems_eq_map, List.map_map]
      exact allChars_eq_shown fun entry hentry => (hentries entry hentry).1
    rw [Item.array, Item.chars_enclosed, hinside, render, String.toList_append,
      String.toList_append]
    rfl
  | .source content => cases h

theorem exists_pairs (pairs : List (String × Value)) (h : arePairsLiteral pairs = true) :
    ∃ entries : List (Name × Item × Value),
      entries.map (fun entry => (String.ofList entry.1.chars, entry.2.2)) = pairs ∧
      ∀ entry ∈ entries, entry.2.1.chars = entry.2.2.render.toList ∧
        entry.2.1.Denotes entry.2.2 := by
  match pairs with
  | [] => exact ⟨[], rfl, fun _ hentry => by cases hentry⟩
  | (key, value) :: rest =>
    rw [arePairsLiteral, Bool.and_eq_true, Bool.and_eq_true] at h
    obtain ⟨item, hchars, hdenotes⟩ := exists_item value h.1.2
    obtain ⟨entries, hrest, hentries⟩ := exists_pairs rest h.2
    refine ⟨(⟨key.toList, h.1.1⟩, item, value) :: entries, ?_, fun entry hentry => ?_⟩
    · rw [List.map_cons, hrest, String.ofList_toList]
    · rcases List.mem_cons.1 hentry with rfl | hentry
      · exact ⟨hchars, hdenotes⟩
      · exact hentries entry hentry

theorem exists_items (items : List Value) (h : areItemsLiteral items = true) :
    ∃ entries : List (Item × Value), entries.map Prod.snd = items ∧
      ∀ entry ∈ entries, entry.1.chars = entry.2.render.toList ∧ entry.1.Denotes entry.2 := by
  match items with
  | [] => exact ⟨[], rfl, fun _ hentry => by cases hentry⟩
  | value :: rest =>
    rw [areItemsLiteral, Bool.and_eq_true] at h
    obtain ⟨item, hchars, hdenotes⟩ := exists_item value h.1
    obtain ⟨entries, hrest, hentries⟩ := exists_items rest h.2
    refine ⟨(item, value) :: entries, ?_, fun entry hentry => ?_⟩
    · rw [List.map_cons, hrest]
    · rcases List.mem_cons.1 hentry with rfl | hentry
      · exact ⟨hchars, hdenotes⟩
      · exact hentries entry hentry

end

end Value

/-! Calls -/

namespace Call

variable {call other : Call}

/-- A literal call is shown as a document that lowers to it alone. -/
theorem IsLiteral.callsBy_render {parser : Parser} (hparser : parser.IsFaithful)
    (h : call.IsLiteral) : Document.callsBy parser call.render = .ok [call] := by
  obtain ⟨name, arguments, line, children⟩ := call
  obtain ⟨hname, hkeyword, harguments, rfl, rfl⟩ := h
  obtain ⟨entries, rfl, hentries⟩ := Value.exists_items arguments harguments
  have hshown : Item.allChars (entries.map Prod.fst) =
      (String.intercalate ", " ((entries.map Prod.snd).map Value.render)).toList := by
    rw [List.map_map]
    exact Value.allChars_eq_shown fun entry hentry => (hentries entry hentry).1
  have hrender : render ⟨name, entries.map Prod.snd, 1, []⟩ =
      String.ofList (Document.callChars ⟨name.toList, hname⟩ (entries.map Prod.fst)) := by
    rw [← String.toList_inj, String.toList_ofList, Document.callChars, Item.argumentList,
      Item.chars_enclosed, hshown, render]
    simp only [String.toList_append, List.append_assoc]
    rfl
  have hnotKeyword : Keyword.ofWord? (Name.mk name.toList hname).chars = none := hkeyword
  have hcalls := Document.callsBy_callChars hparser hnotKeyword fun entry hentry =>
    (hentries entry hentry).2
  rw [String.ofList_toList] at hcalls
  rw [hrender, hcalls]

theorem IsLiteral.eq_of_render_eq (h : call.IsLiteral) (hother : other.IsLiteral)
    (hrender : call.render = other.render) : call = other := by
  have hcalls := h.callsBy_render Document.tree_isFaithful
  rw [hrender, hother.callsBy_render Document.tree_isFaithful] at hcalls
  exact ((List.cons.inj (Except.ok.inj hcalls)).1).symm

end Call

/-- A literal call as it is shown is a document that is accepted, and whose only root is the call.
So different literal calls are shown differently, also in what is reported of unknown calls. -/
theorem Call.render_reads_back :
    Parser.IsFaithful Document.tree ∧
    (∀ parser : Parser, parser.IsFaithful →
      ∀ call : Call, call.IsLiteral → Document.callsBy parser call.render = .ok [call]) ∧
    ∀ call other : Call, call.IsLiteral → other.IsLiteral → call ≠ other →
      call.render ≠ other.render ∧
      ∀ line otherLine : Nat,
        (Diagnostic.mk (.unrecognizedCall call) line).message ≠
          (Diagnostic.mk (.unrecognizedCall other) otherLine).message := by
  refine ⟨Document.tree_isFaithful, fun parser hparser call h => h.callsBy_render hparser,
    fun call other h hother hne => ?_⟩
  have hrender : call.render ≠ other.render := fun heq => hne (h.eq_of_render_eq hother heq)
  refine ⟨hrender, fun line otherLine hmessage => hrender ?_⟩
  have hchars : "Unexpected invocation of ".toList ++ call.render.toList =
      "Unexpected invocation of ".toList ++ other.render.toList := by
    rw [← String.toList_append, ← String.toList_append]
    exact congrArg String.toList hmessage
  exact String.toList_inj.1 (List.append_cancel_left hchars)

theorem Call.render_reads_back_nested :
    let pairs := [("b", Value.hash []), ("a", .list [.list [], .absent]), ("b", .symbol "end")]
    let call : Call := ⟨"load", [.list [], .hash pairs, .text "x, \x7by\x7d"], 1, []⟩
    let other : Call := ⟨"load", [], 1, []⟩
    call.render =
        "load([], \x7b:b => \x7b\x7d, :a => [[], nil], :b => :end\x7d, 'x, \x7by\x7d')" ∧
      call.IsLiteral ∧ other.IsLiteral ∧ call ≠ other ∧
      Document.calls call.render = .ok [call] ∧ call.render ≠ other.render := by
  intro pairs call other
  have hcall : call.IsLiteral := ⟨by decide, by decide, by decide, rfl, rfl⟩
  have hother : other.IsLiteral := ⟨by decide, by decide, rfl, rfl, rfl⟩
  have hne : call ≠ other := fun heq =>
    absurd (congrArg (fun call : Call => call.arguments.length) heq) (by decide)
  obtain ⟨hfaithful, hread, hshown⟩ := render_reads_back
  exact ⟨by decide, hcall, hother, hne, hread Document.tree hfaithful call hcall,
    (hshown call other hcall hother hne).1⟩

end PuppetInventory
