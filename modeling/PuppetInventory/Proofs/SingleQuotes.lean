import PuppetInventory.Proofs.Reading.Calls

/-!
Texts between single quotes. However a text is cut into pieces, and whichever way its backslashes
are written, the pieces one behind the other stand for the text again; and of any content whatever,
the rule for single quotes tells what it stands for.
-/

namespace PuppetInventory.Syntax

/-! The rule for single quotes -/

/-- What the content between single quotes stands for, from left to right: two backslashes for one,
a backslash and a quote for the quote, and all else for itself. -/
inductive ReadsQuoted : List Char → List Char → Prop where
  | nil : ReadsQuoted [] []
  | slash {content text : List Char} (h : ReadsQuoted content text) :
    ReadsQuoted ('\\' :: '\\' :: content) ('\\' :: text)
  | quote {content text : List Char} (h : ReadsQuoted content text) :
    ReadsQuoted ('\\' :: '\'' :: content) ('\'' :: text)
  | plain {c : Char} {content text : List Char} (hslash : c ≠ '\\')
    (h : ReadsQuoted content text) : ReadsQuoted (c :: content) (c :: text)
  /-- A backslash before neither of the two, the last one of a content included. -/
  | alone {content text : List Char} (hnext : ∀ c ∈ content.head?, c ≠ '\\' ∧ c ≠ '\'')
    (h : ReadsQuoted content text) : ReadsQuoted ('\\' :: content) ('\\' :: text)

namespace ReadsQuoted

variable {content text : List Char}

theorem unescapeSingle_alone (hnext : ∀ c ∈ content.head?, c ≠ '\\' ∧ c ≠ '\'') :
    unescapeSingle ('\\' :: content) = '\\' :: unescapeSingle content := by
  cases content with
  | nil => rfl
  | cons c content =>
    obtain ⟨hslash, hquote⟩ := hnext c rfl
    simp [unescapeSingle, hslash]

theorem unescapeSingle_eq (h : ReadsQuoted content text) : unescapeSingle content = text := by
  induction h with
  | nil => rfl
  | slash h ih => rw [unescapeSingle, ih]
  | quote h ih => rw [unescapeSingle, ih]
  | plain hslash h ih => simp [unescapeSingle, hslash, ih]
  | alone hnext h ih => rw [unescapeSingle_alone hnext, ih]

/-- The content is taken apart in pairs, but the character behind a backslash that stays is read as
if it came first. -/
theorem unescapeSingle (content : List Char) : ReadsQuoted content (unescapeSingle content) := by
  fun_induction Syntax.unescapeSingle content with
  | case1 content ih => exact .slash ih
  | case2 content ih => exact .quote ih
  | case3 c content hslash hquote ih =>
    exact .alone (fun d hd => by cases hd; exact ⟨hslash, hquote⟩) (.plain hslash ih)
  | case4 c content hslash hquote hpair ih =>
    by_cases hc : c = '\\'
    · subst hc
      cases content with
      | nil => exact .alone (fun d hd => by cases hd) ih
      | cons d content => exact absurd rfl (hpair d content rfl)
    · exact .plain hc ih
  | case5 => exact .nil

end ReadsQuoted

/-! Pieces of a text -/

/-- A piece of a text, with a way to write it between single quotes. -/
structure QuotedPiece where
  text : List Char
  content : List Char
  spells : SpellsQuoted text content

def QuotedPiece.chars (piece : QuotedPiece) : List Char :=
  '\'' :: (piece.content ++ ['\''])

/-- A text that is cut into pieces. -/
structure QuotedText where
  first : QuotedPiece
  /-- The other pieces, each with whether a space comes before it. -/
  others : List (Bool × QuotedPiece)

namespace QuotedText

variable (text : QuotedText)

def pieces : List QuotedPiece :=
  text.first :: text.others.map Prod.snd

/-- The text that the pieces make up. -/
def content : List Char :=
  text.pieces.flatMap QuotedPiece.text

def chars : List Char :=
  text.first.chars ++ text.others.flatMap fun other => gap other.1 ++ other.2.chars

/-- The pieces as literals that follow each other. -/
def chain : Chain where
  first := .singleQuoted text.first.content
  others := text.others.map fun other => (other.1, .singleQuoted other.2.content)

theorem literals_chain :
    text.chain.literals = text.pieces.map fun piece => Literal.singleQuoted piece.content := by
  rw [Chain.literals, chain, pieces, List.map_cons, List.map_map, List.map_map]
  rfl

theorem chars_chain : text.chain.item.chars = text.chars := by
  have hmore : Chain.moreChars text.chain.others =
      text.others.flatMap fun other => gap other.1 ++ other.2.chars := by
    rw [Chain.moreChars, chain, List.flatMap_map]
    simp only [Literal.chars_singleQuoted, QuotedPiece.chars]
  rw [Chain.chars_item, Chain.chars, hmore, chain, Literal.chars_singleQuoted]
  rfl

theorem value_chain : text.chain.value = text.content := by
  rw [Chain.value, literals_chain, List.flatMap_map, content]
  exact congrArg (text.pieces.flatMap ·) (funext fun piece => piece.spells.value_eq)

theorem isSpelled_chain : text.chain.IsSpelled := by
  refine ⟨fun literal hliteral => ?_, fun literal hliteral => ?_⟩ <;>
    rw [literals_chain] at hliteral <;>
    obtain ⟨piece, -, rfl⟩ := List.mem_map.1 hliteral
  · exact .singleQuoted piece.spells
  · rfl

theorem denotes : text.chain.item.Denotes (.text (String.ofList text.content)) :=
  text.value_chain ▸ text.isSpelled_chain.denotes

end QuotedText

/-! Trees -/

namespace Tree

/-- Whether a tree is a piece between single quotes whose parts are plain text. -/
structure IsQuotedPiece (document : Array Char) (tree : Tree) (piece : QuotedPiece) : Prop where
  kind_eq : tree.kind = .string
  chars_eq : tree.span.chars document = piece.chars
  plain : ∀ part ∈ tree.namedChildren, part.kind = .stringContent
  content_eq : (tree.namedChildren.map fun part => part.span.chars document).flatten =
    piece.content

/-- Whether a tree is a piece, or pieces that follow each other. -/
inductive IsQuotedText (document : Array Char) (tree : Tree) : List QuotedPiece → Prop where
  | single {piece : QuotedPiece} (h : tree.IsQuotedPiece document piece) :
    IsQuotedText document tree [piece]
  | chained {entries : List (Tree × QuotedPiece)} (hkind : tree.kind = .chainedString)
    (hchildren : tree.namedChildren = entries.map Prod.fst)
    (hentries : ∀ entry ∈ entries, entry.1.IsQuotedPiece document entry.2) :
    IsQuotedText document tree (entries.map Prod.snd)

variable {document : Array Char} {tree : Tree}

theorem IsQuotedPiece.literalChars?_eq
    {piece : QuotedPiece} (h : tree.IsQuotedPiece document piece) :
    literalChars? document tree = some piece.text := by
  have hparts : tree.namedChildren.mapM (pieceChars? document) =
      some (tree.namedChildren.map fun part => part.span.chars document) := by
    refine mapM_eq_some fun part hpart => ?_
    rw [pieceChars?, h.plain part hpart]
  have hvalue : literalChars? document tree = some (Syntax.unescapeSingle piece.content) := by
    rw [literalChars?, hparts, Option.map_some, h.content_eq, h.chars_eq]
    rfl
  rw [hvalue, piece.spells.unescapeSingle_eq]

/-- However a text is cut, its pieces stand for it. -/
theorem IsQuotedText.value_eq {pieces : List QuotedPiece} (h : tree.IsQuotedText document pieces) :
    value document tree = .text (String.ofList (pieces.flatMap QuotedPiece.text)) := by
  cases h with
  | @single piece h =>
    rw [List.flatMap_singleton]
    exact value_string h.kind_eq h.literalChars?_eq
  | @chained entries hkind hchildren hentries =>
    have hparts : tree.namedChildren.mapM (fun part =>
          if part.kind = .string then literalChars? document part else none) =
        some (entries.map fun entry => entry.2.text) := by
      rw [hchildren, List.mapM_map]
      refine mapM_eq_some fun entry hentry => ?_
      have hpiece := hentries entry hentry
      rw [Function.comp_apply, if_pos hpiece.kind_eq, hpiece.literalChars?_eq]
    rw [List.flatMap_map, List.flatMap_def]
    exact value_chainedString hkind hparts

end Tree

/-! Exactness -/

/-- Pieces between single quotes stand for the text that they spell together, as trees and in
documents that a faithful parser reads, and any content is read by the rule for single quotes. -/
theorem singleQuoted_exact :
    (∀ (document : Array Char) (tree : Tree) (pieces : List QuotedPiece),
      tree.IsQuotedText document pieces →
        Tree.value document tree =
          .text (String.ofList (pieces.flatMap QuotedPiece.text))) ∧
    Parser.IsFaithful Document.tree ∧
    (∀ parser : Parser, parser.IsFaithful →
      ∀ (name : Name) (arguments : List QuotedText), Keyword.ofWord? name.chars = none →
        Document.callsBy parser
            (String.ofList (Document.callOf name (arguments.map QuotedText.chars))) =
          .ok [⟨String.ofList name.chars,
            arguments.map fun argument => .text (String.ofList argument.content), 1, []⟩]) ∧
    ∀ content text : List Char, unescapeSingle content = text ↔ ReadsQuoted content text :=
  ⟨fun _ _ _ h => h.value_eq, Document.tree_isFaithful, fun _ hparser _ arguments hname =>
    Document.callsBy_callOf hparser hname QuotedText.chars_chain QuotedText.denotes arguments,
    fun content _ =>
      ⟨fun h => h ▸ ReadsQuoted.unescapeSingle content, fun h => h.unescapeSingle_eq⟩⟩

theorem singleQuoted_exact_cut :
    let first : QuotedPiece :=
      ⟨['x', '\\'], ['x', '\\', '\\'], .plain (by decide) (by decide) (.doubled .nil)⟩
    let second : QuotedPiece :=
      ⟨['\'', '\\', 'y'], ['\\', '\'', '\\', 'y'], .quote (.alone (by decide) (by decide) .nil)⟩
    let text : QuotedText := ⟨first, [(true, second)]⟩
    let tree := text.chain.tree .start
    let document := text.chars.toArray
    let name : Name := ⟨['m', 'o', 'd'], by decide⟩
    String.ofList (Document.callOf name [text.chars]) = "mod('x\\\\' '\\'\\y')" ∧
      tree.IsQuotedText document [first, second] ∧ Keyword.ofWord? name.chars = none ∧
      Tree.value document tree = .text "x\\'\\y" ∧
      Document.calls "mod('x\\\\' '\\'\\y')" = .ok [⟨"mod", [.text "x\\'\\y"], 1, []⟩] ∧
      ReadsQuoted ['a', '\\', '\\', '\\'] ['a', '\\', '\\'] := by
  intro first second text tree document name
  have hname : Keyword.ofWord? name.chars = none := by decide
  have htree : tree.IsQuotedText document [first, second] := by
    let entries : List (Tree × QuotedPiece) :=
      [((Literal.singleQuoted first.content).tree .start, first),
        ((Literal.singleQuoted second.content).tree ⟨6, 0⟩, second)]
    refine Tree.IsQuotedText.chained rfl (show tree.namedChildren = entries.map Prod.fst from rfl)
      fun entry hentry => ?_
    rw [List.mem_cons, List.mem_singleton] at hentry
    rcases hentry with rfl | rfl
    · exact ⟨rfl, by decide, by decide, by decide⟩
    · exact ⟨rfl, by decide, by decide, by decide⟩
  obtain ⟨hvalue, hfaithful, hcalls, hreads⟩ := singleQuoted_exact
  exact ⟨by decide, htree, hname, hvalue document tree _ htree,
    hcalls Document.tree hfaithful name [text] hname, (hreads _ _).1 rfl⟩

end PuppetInventory.Syntax
