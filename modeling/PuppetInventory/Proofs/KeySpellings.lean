import PuppetInventory.Proofs.ArgumentValues
import PuppetInventory.Proofs.Walk
import PuppetInventory.Puppetfile

/-!
The ways to write the key of an option. Keys that are identifiers are the same in all of them, each
pair may be written in a way of its own, and a call comes to the same whichever are chosen.
-/

namespace PuppetInventory

namespace Syntax

def isIdentifier : List Char → Bool
  | [] => false
  | c :: rest => startsWord c && rest.all isWordChar

theorem isWordChar_of_isIdentifier {chars : List Char} (h : isIdentifier chars = true) {c : Char}
    (hc : c ∈ chars) : isWordChar c = true := by
  cases chars with
  | nil => cases hc
  | cons first rest =>
    rw [isIdentifier, startsWord, Bool.and_eq_true, Bool.and_eq_true, List.all_eq_true] at h
    rcases List.mem_cons.1 hc with rfl | hc
    · exact h.1.1
    · exact h.2 c hc

theorem ne_of_isWordChar {c d : Char} (hc : isWordChar c = true) (hd : isWordChar d = false) :
    c ≠ d := by
  rintro rfl
  rw [hc] at hd
  cases hd

inductive KeyStyle where
  /-- As in `k: v`. -/
  | label
  /-- As in `:k => v`. -/
  | symbol
  /-- As in `'k' => v`. -/
  | singleQuoted
  /-- As in `"k" => v` and `"k": v`, which differ behind the key alone. -/
  | doubleQuoted
  /-- As in `:'k' => v`. -/
  | singleQuotedSymbol
  /-- As in `:"k" => v`. -/
  | doubleQuotedSymbol
deriving Repr, DecidableEq, Inhabited

namespace KeyStyle

def kind : KeyStyle → Kind
  | .label => .hashKeySymbol
  | .symbol => .simpleSymbol
  | .singleQuoted => .string
  | .doubleQuoted => .string
  | .singleQuotedSymbol => .delimitedSymbol
  | .doubleQuotedSymbol => .delimitedSymbol

/-- The characters before the key. -/
def opening : KeyStyle → List Char
  | .label => []
  | .symbol => [':']
  | .singleQuoted => ['\'']
  | .doubleQuoted => ['"']
  | .singleQuotedSymbol => [':', '\'']
  | .doubleQuotedSymbol => [':', '"']

/-- The characters behind the key: the quote, if there is one. -/
def closing : KeyStyle → List Char
  | .label => []
  | .symbol => []
  | .singleQuoted => ['\'']
  | .doubleQuoted => ['"']
  | .singleQuotedSymbol => ['\'']
  | .doubleQuotedSymbol => ['"']

/-- A node writes a key in a style. Between quotes the key is a part of its own. -/
structure Spells (style : KeyStyle) (document : Array Char) (key : String) (tree : Tree) :
    Prop where
  kind_eq : tree.kind = style.kind
  chars_eq : tree.span.chars document = style.opening ++ (key.toList ++ style.closing)
  exists_content : style.closing ≠ [] → ∃ content, tree.namedChildren = [content] ∧
    content.kind = .stringContent ∧ content.span.chars document = key.toList

end KeyStyle

/-! Keys -/

section Keys

variable {document : Array Char} {key : String} {tree : Tree}

theorem unescapeSingle_of_not_mem {chars : List Char} (h : '\\' ∉ chars) :
    unescapeSingle chars = chars := by
  induction chars with
  | nil => rfl
  | cons c chars ih =>
    rw [List.mem_cons, not_or] at h
    obtain ⟨hc, hchars⟩ := h
    have hcons : unescapeSingle (c :: chars) = c :: unescapeSingle chars := by
      rw [unescapeSingle.eq_def]
      split <;> simp_all
    rw [hcons, ih hchars]

theorem dropColons_of_isIdentifier {chars : List Char} (h : isIdentifier chars = true) :
    (':' :: chars).dropWhile (· = ':') = chars := by
  cases chars with
  | nil => cases h
  | cons c rest =>
    have hc : c ≠ ':' :=
      ne_of_isWordChar (isWordChar_of_isIdentifier h List.mem_cons_self) (by decide)
    simp [hc]

/-- The text of a literal with one part, in which nothing is escaped. -/
theorem literalText?_of_content {content : Tree} (hcontent : tree.namedChildren = [content])
    (hkind : content.kind = .stringContent) (hchars : content.span.chars document = key.toList)
    (hkey : '\\' ∉ key.toList) : Tree.literalText? document tree = some key := by
  have hpieces : (tree.namedChildren.mapM (Tree.pieceChars? document)).map List.flatten =
      some key.toList := by
    simp [hcontent, Tree.pieceChars?, hkind, hchars]
  have hliteral : Tree.literalChars? document tree = some key.toList := by
    rw [Tree.literalChars?, hpieces]
    split
    · rw [Option.map_some, unescapeSingle_of_not_mem hkey]
    · rfl
  rw [Tree.literalText?, hliteral, Option.map_some, String.ofList_toList]

/-- An identifier is the same key in every style. -/
theorem KeyStyle.Spells.keyText?_eq {style : KeyStyle} (h : style.Spells document key tree)
    (hkey : isIdentifier key.toList = true) : Tree.keyText? document tree = some key := by
  obtain ⟨hkind, hchars, hcontent⟩ := h
  have hplain : '\\' ∉ key.toList := fun hmem =>
    ne_of_isWordChar (isWordChar_of_isIdentifier hkey hmem) (by decide) rfl
  have hquoted (hclosing : style.closing ≠ []) : Tree.literalText? document tree = some key := by
    obtain ⟨content, hchildren, hcontentKind, hcontentChars⟩ := hcontent hclosing
    exact literalText?_of_content hchildren hcontentKind hcontentChars hplain
  rw [Tree.keyText?, hkind]
  cases style with
  | label =>
    show some (Tree.text document tree) = some key
    rw [Tree.text, Span.text, hchars]
    simp [opening, closing]
  | symbol =>
    show some (Tree.symbolName document tree) = some key
    rw [Tree.symbolName, hchars]
    simp only [opening, closing, List.append_nil, List.singleton_append,
      dropColons_of_isIdentifier hkey, String.ofList_toList]
  | singleQuoted => exact hquoted (by decide)
  | doubleQuoted => exact hquoted (by decide)
  | singleQuotedSymbol => exact hquoted (by decide)
  | doubleQuotedSymbol => exact hquoted (by decide)

end Keys

/-! Options -/

/-- A pair whose key is written in some style. -/
structure SpellsPair (document : Array Char) (option : String × Value) (tree : Tree) : Prop where
  named : tree.tag.named = true
  kind_eq : tree.kind = .pair
  exists_key : ∃ (style : KeyStyle) (key : Tree),
    tree.child? .key = some key ∧ style.Spells document option.1 key
  exists_value : ∃ found, tree.child? .value = some found ∧ Tree.value document found = option.2

/-- The pairs of options, each in a style of its own, with commas and comments between them. -/
inductive SpellsOptions (document : Array Char) : List (String × Value) → List Tree → Prop where
  | nil : SpellsOptions document [] []
  | pair {option : String × Value} {options : List (String × Value)} {tree : Tree}
      {rest : List Tree} (h : SpellsPair document option tree)
      (hrest : SpellsOptions document options rest) :
      SpellsOptions document (option :: options) (tree :: rest)
  | between {options : List (String × Value)} {tree : Tree} {rest : List Tree}
      (h : tree.tag.named = true → tree.kind = .comment)
      (hrest : SpellsOptions document options rest) : SpellsOptions document options (tree :: rest)

def AreIdentifiers (options : List (String × Value)) : Prop :=
  ∀ option ∈ options, isIdentifier option.1.toList = true

section Options

variable {document : Array Char} {options : List (String × Value)} {parts : List Tree}

theorem SpellsPair.pair?_eq {option : String × Value} {tree : Tree}
    (h : SpellsPair document option tree) (hkey : isIdentifier option.1.toList = true) :
    Tree.pair? document tree = some option := by
  obtain ⟨style, key, hkeyTree, hspells⟩ := h.exists_key
  obtain ⟨found, hvalueTree, hvalue⟩ := h.exists_value
  rw [Tree.pair?_eq, hkeyTree, hvalueTree, Option.bind_some, hspells.keyText?_eq hkey,
    Option.bind_some, Option.map_some, hvalue]

/-- The lowered pairs are the options, whatever the styles of their keys. -/
theorem SpellsOptions.pairs_eq (h : SpellsOptions document options parts)
    (hkeys : AreIdentifiers options) : Tree.pairs document parts = options := by
  induction h with
  | nil => rfl
  | pair hpair hrest ih =>
    obtain ⟨hkey, hkeys⟩ := List.forall_mem_cons.1 hkeys
    rw [Tree.pairs_cons_of_pair hpair.named hpair.kind_eq, hpair.pair?_eq hkey, ih hkeys]
    rfl
  | @between options tree rest hbetween hrest ih =>
    have hnoPair (hnamed : tree.tag.named = true) : tree.kind ≠ .pair := by
      rw [hbetween hnamed]
      decide
    rw [Tree.pairs_cons_of_not_pair hnoPair, ih hkeys]

theorem SpellsOptions.value_eq (h : SpellsOptions document options parts)
    (hkeys : AreIdentifiers options) {brace : Tag} (hbrace : brace.kind = .hash) :
    Tree.value document (.node brace parts) = .hash options := by
  rw [Tree.value, hbrace]
  exact congrArg Value.hash (h.pairs_eq hkeys)

theorem SpellsOptions.isOptionPart (h : SpellsOptions document options parts) :
    ∀ part ∈ parts, part.IsOptionPart := by
  induction h with
  | nil => exact fun part hpart => absurd hpart List.not_mem_nil
  | pair hpair hrest ih => exact List.forall_mem_cons.2 ⟨fun _ => .inl hpair.kind_eq, ih⟩
  | between hbetween hrest ih =>
    exact List.forall_mem_cons.2 ⟨fun hnamed => .inr (hbetween hnamed), ih⟩

end Options

/-! Calls -/

/-- The trees of arguments: positional ones with given values, and options behind them, which may
stand between braces. -/
inductive SpellsArguments (document : Array Char) (positional : List Value)
    (options : List (String × Value)) : Bool → List Tree → Prop where
  | bare {trees parts : List Tree} (htrees : ∀ tree ∈ trees, tree.kind ≠ .pair)
      (hpositional : positionalValues document trees = positional)
      (hoptions : SpellsOptions document options parts) :
      SpellsArguments document positional options false (trees ++ parts)
  | braced {trees parts : List Tree} {brace : Tag} (htrees : ∀ tree ∈ trees, tree.kind ≠ .pair)
      (hpositional : positionalValues document trees = positional)
      (hbrace : brace.named = true ∧ brace.kind = .hash)
      (hoptions : SpellsOptions document options parts) :
      SpellsArguments document positional options true (trees ++ [.node brace parts])

/-- Positional values with a hash of options behind them. Braces stand for a hash even if there are
no options. -/
def givenValues (positional : List Value) (options : List (String × Value)) (braced : Bool) :
    List Value :=
  positional ++ if options = [] ∧ braced = false then [] else [.hash options]

/-- A call without a receiver, by its name and what its arguments stand for. -/
structure SpellsCall (document : Array Char) (name : String) (positional : List Value)
    (options : List (String × Value)) (braced : Bool) (tree : Tree) : Prop where
  named : tree.tag.named = true
  kind_eq : tree.kind = .call
  receiver_eq : tree.child? .receiver = none
  exists_method : ∃ method, tree.child? .method = some method ∧ method.text document = name
  exists_arguments : ∃ list, tree.child? .arguments = some list ∧
    SpellsArguments document positional options braced list.children

section Calls

variable {document : Array Char} {name : String} {positional : List Value}
  {options : List (String × Value)} {braced : Bool} {tree : Tree}

theorem SpellsArguments.argumentValues_eq {children : List Tree}
    (h : SpellsArguments document positional options braced children)
    (hkeys : AreIdentifiers options) (list : Tag) :
    Tree.argumentValues document (.node list children) =
      givenValues positional options braced := by
  cases h with
  | bare htrees hpositional hoptions =>
    rw [Tree.argumentValues_bare htrees hoptions.isOptionPart, hoptions.pairs_eq hkeys,
      hpositional]
    simp [givenValues]
  | braced htrees hpositional hbrace hoptions =>
    rw [Tree.argumentValues_braced hbrace htrees, hoptions.pairs_eq hkeys, hpositional]
    simp [givenValues]

/-- What a call is lowered to, by its name and what its arguments stand for. -/
theorem SpellsCall.calls_eq (h : SpellsCall document name positional options braced tree)
    (hkeys : AreIdentifiers options) :
    ∃ inner, Tree.calls document tree =
      [⟨name, givenValues positional options braced, tree.line, inner⟩] := by
  obtain ⟨hnamed, hkind, hreceiver, ⟨method, hmethod, hname⟩, ⟨list, arguments⟩, hlist,
    harguments⟩ := h
  have hcalled : Tree.calledMethod? tree = some method := by
    rw [Tree.calledMethod?, hkind, hreceiver, hmethod]
    rfl
  obtain ⟨tag, children⟩ := tree
  have htag : tag.named = true := hnamed
  have hvalues : Tree.argumentValues document (.node list arguments) =
      givenValues positional options braced := harguments.argumentValues_eq hkeys list
  refine ⟨Tree.callsOfAll document children, ?_⟩
  rw [Tree.calls, if_pos htag, hcalled, hlist]
  simp only [Option.map_some, Option.getD_some, hvalues, hname]
  rfl

end Calls

end Syntax

namespace Outcome

/-- The calls inside a call matter neither to what it declares nor to what is reported of it. -/
theorem ofCall_of_arguments (settings : Settings) (name : String) (arguments : List Value)
    (line : Nat) (children inner : List Call) :
    (ofCall settings ⟨name, arguments, line, children⟩).declarations =
        (ofCall settings ⟨name, arguments, line, inner⟩).declarations ∧
      (ofCall settings ⟨name, arguments, line, children⟩).diagnostics.map Diagnostic.render =
        (ofCall settings ⟨name, arguments, line, inner⟩).diagnostics.map Diagnostic.render := by
  rw [ofCall, ofCall, Call.statement, Call.statement]
  by_cases hmod : name = "mod"
  · rw [if_pos hmod, if_pos hmod]
    exact ⟨rfl, rfl⟩
  by_cases hdirective : name = "forge" ∨ name = "moduledir"
  · rw [if_neg hmod, if_pos hdirective, if_neg hmod, if_pos hdirective]
    exact ⟨rfl, rfl⟩
  by_cases halias : name = "github" ∧ settings.githubAlias = true
  · rw [if_neg hmod, if_neg hdirective, if_pos halias, if_neg hmod, if_neg hdirective,
      if_pos halias]
    unfold Call.aliasDeclaration
    dsimp only
    split
    · split <;> exact ⟨rfl, rfl⟩
    · exact ⟨rfl, rfl⟩
  · rw [if_neg hmod, if_neg hdirective, if_neg halias, if_neg hmod, if_neg hdirective,
      if_neg halias]
    exact ⟨rfl, rfl⟩

end Outcome

namespace Syntax

/-- Options whose keys are identifiers are lowered to the same keys and values in the same order in
every mixture of styles, also inside braces. So two calls of one name, with the same positional
values and the same options, are lowered to the same arguments, and declare and report the same. -/
theorem key_styles_agree :
    (∀ (document : Array Char) (options : List (String × Value)) (parts : List Tree),
      AreIdentifiers options → SpellsOptions document options parts →
        Tree.pairs document parts = options ∧
          ∀ brace : Tag, brace.kind = .hash →
            Tree.value document (.node brace parts) = .hash options) ∧
    ∀ (document other : Array Char) (name : String) (positional : List Value)
      (options : List (String × Value)) (braced otherBraced : Bool) (call otherCall : Tree),
      AreIdentifiers options → (braced = otherBraced ∨ options ≠ []) →
      SpellsCall document name positional options braced call →
      SpellsCall other name positional options otherBraced otherCall →
        let arguments := givenValues positional options braced
        ∃ children inner : List Call,
          Tree.calls document call = [⟨name, arguments, call.line, children⟩] ∧
          Tree.calls other otherCall = [⟨name, arguments, otherCall.line, inner⟩] ∧
          (call.line = otherCall.line → ∀ settings : Settings,
            let outcome := Outcome.ofCall settings ⟨name, arguments, call.line, children⟩
            let otherOutcome := Outcome.ofCall settings ⟨name, arguments, otherCall.line, inner⟩
            outcome.declarations = otherOutcome.declarations ∧
              outcome.diagnostics.map Diagnostic.render =
                otherOutcome.diagnostics.map Diagnostic.render) := by
  constructor
  · exact fun document options parts hkeys h =>
      ⟨h.pairs_eq hkeys, fun brace hbrace => h.value_eq hkeys hbrace⟩
  · intro document other name positional options braced otherBraced call otherCall hkeys hbraces
      hcall hother arguments
    obtain ⟨children, hcalls⟩ := hcall.calls_eq hkeys
    obtain ⟨inner, hotherCalls⟩ := hother.calls_eq hkeys
    have hgiven : givenValues positional options otherBraced = arguments := by
      rcases hbraces with rfl | hne
      · rfl
      · simp [arguments, givenValues, hne]
    rw [hgiven] at hotherCalls
    refine ⟨children, inner, hcalls, hotherCalls, fun hline settings => ?_⟩
    rw [← hline]
    exact Outcome.ofCall_of_arguments settings name arguments call.line children inner

/-- Three options in six styles. -/
theorem key_styles_agree_mixed :
    let document := "mod 'x', git: 'u', :ref => 'v', 'a' => 'w'".toList.toArray
    let other := "mod 'x', \"git\" => 'u', :'ref' => 'v', :\"a\" => 'w'".toList.toArray
    let options : List (String × Value) :=
      [("git", .text "u"), ("ref", .text "v"), ("a", .text "w")]
    let span (start stop : Nat) : Span := ⟨⟨start, 0⟩, ⟨stop, 0⟩⟩
    let literal (kind : Kind) (start inner stop : Nat) : Tree :=
      .branch kind (span start stop) [.leaf .stringContent (span inner (stop - 1))]
    let text (start stop : Nat) : Tree := literal .string start (start + 1) stop
    let pair (key value : Tree) : Tree :=
      .branch .pair (span 0 0) [key.withRole .key, value.withRole .value]
    let call (parts : List Tree) : Tree :=
      .branch .call (span 0 3) [(Tree.leaf .identifier (span 0 3)).withRole .method,
        (Tree.branch .argumentList (span 4 4) ([text 4 7] ++ parts)).withRole .arguments]
    let parts := [pair (.leaf .hashKeySymbol (span 9 12)) (text 14 17),
      pair (.leaf .simpleSymbol (span 19 23)) (text 27 30), pair (text 32 35) (text 39 42)]
    let others := [pair (text 9 14) (text 18 21),
      pair (literal .delimitedSymbol 23 25 29) (text 33 36),
      pair (literal .delimitedSymbol 38 40 42) (text 46 49)]
    SpellsOptions document options parts ∧ SpellsOptions other options others ∧
    ∃ children inner : List Call,
      let arguments := [.text "x", .hash options]
      Tree.calls document (call parts) = [⟨"mod", arguments, 1, children⟩] ∧
      Tree.calls other (call others) = [⟨"mod", arguments, 1, inner⟩] ∧
      (Outcome.ofCall {} ⟨"mod", arguments, 1, children⟩).declarations =
        (Outcome.ofCall {} ⟨"mod", arguments, 1, inner⟩).declarations := by
  intro document other options span literal text pair call parts others
  have hkeys : AreIdentifiers options :=
    List.forall_mem_cons.2 ⟨by decide, List.forall_mem_cons.2 ⟨by decide,
      List.forall_mem_singleton.2 (by decide)⟩⟩
  have hparts : SpellsOptions document options parts :=
    .pair ⟨rfl, rfl, ⟨.label, _, rfl, rfl, rfl, fun h => absurd rfl h⟩, _, rfl, rfl⟩
      (.pair ⟨rfl, rfl, ⟨.symbol, _, rfl, rfl, rfl, fun h => absurd rfl h⟩, _, rfl, rfl⟩
        (.pair ⟨rfl, rfl, ⟨.singleQuoted, _, rfl, rfl, rfl, fun _ => ⟨_, rfl, rfl, rfl⟩⟩, _, rfl,
          rfl⟩ .nil))
  have hothers : SpellsOptions other options others :=
    .pair ⟨rfl, rfl, ⟨.doubleQuoted, _, rfl, rfl, rfl, fun _ => ⟨_, rfl, rfl, rfl⟩⟩, _, rfl, rfl⟩
      (.pair ⟨rfl, rfl, ⟨.singleQuotedSymbol, _, rfl, rfl, rfl, fun _ => ⟨_, rfl, rfl, rfl⟩⟩, _,
        rfl, rfl⟩
        (.pair ⟨rfl, rfl, ⟨.doubleQuotedSymbol, _, rfl, rfl, rfl, fun _ => ⟨_, rfl, rfl, rfl⟩⟩, _,
          rfl, rfl⟩ .nil))
  have hname : ∀ tree ∈ [text 4 7], tree.kind ≠ .pair := by
    intro tree htree
    rw [List.mem_singleton.1 htree]
    decide
  have hcall : SpellsCall document "mod" [.text "x"] options false (call parts) :=
    ⟨rfl, rfl, rfl, ⟨_, rfl, rfl⟩, _, rfl, .bare hname rfl hparts⟩
  have hother : SpellsCall other "mod" [.text "x"] options false (call others) :=
    ⟨rfl, rfl, rfl, ⟨_, rfl, rfl⟩, _, rfl, .bare hname rfl hothers⟩
  obtain ⟨children, inner, hcalls, hotherCalls, hagree⟩ :=
    key_styles_agree.2 document other "mod" [.text "x"] options false false (call parts)
      (call others) hkeys (.inl rfl) hcall hother
  exact ⟨hparts, hothers, children, inner, hcalls, hotherCalls, (hagree rfl {}).1⟩

example :
    let mixed := Outcome.ofText {} ("mod 'x', a: 1, :b => 2, 'c' => 3, \"d\" => 4, \"e\": 5, " ++
      ":'f' => 6, :\"g\" => 7\n")
    let labels := Outcome.ofText {} "mod 'x', a: 1, b: 2, c: 3, d: 4, e: 5, f: 6, g: 7\n"
    mixed.diagnostics.map Diagnostic.render = labels.diagnostics.map Diagnostic.render := by
  decide +kernel

end Syntax

end PuppetInventory
