import PuppetInventory.Proofs.AliasExpansion

/-!
Options in another order, and options that are given again. Of the options of a call only the last
value of each key counts, so two lists with the same last values come to the same. A report that
shows the options shows each key once, in the order of the keys.
-/

namespace PuppetInventory

/-- Two lists that give the same keys, and each key the same last value. A key that is given has a
last value. -/
def SameOptions (pairs others : List (String × Value)) : Prop :=
  ∀ key value, IsLast pairs key value ↔ IsLast others key value

theorem isLast_iff_mem {pairs : List (String × Value)} (hdistinct : (pairs.map Prod.fst).Nodup)
    {key : String} {value : Value} : IsLast pairs key value ↔ (key, value) ∈ pairs := by
  constructor
  · rintro ⟨before, after, rfl, -⟩
    exact List.mem_append_right before List.mem_cons_self
  · intro hmem
    obtain ⟨before, after, rfl⟩ := List.append_of_mem hmem
    refine ⟨before, after, rfl, ?_⟩
    rw [List.map_append, List.map_cons, List.nodup_append] at hdistinct
    exact (List.nodup_cons.1 hdistinct.2.1).1

theorem sameOptions_iff {pairs others : List (String × Value)} :
    SameOptions pairs others ↔
      ∀ key, pairs.reverse.lookup key = others.reverse.lookup key := by
  refine forall_congr' fun key => ?_
  rw [Option.ext_iff]
  simp only [isLast_iff]

namespace SameOptions

variable {pairs others : List (String × Value)}

theorem append (h : SameOptions pairs others) (rest : List (String × Value)) :
    SameOptions (pairs ++ rest) (others ++ rest) := by
  rw [sameOptions_iff] at h ⊢
  intro key
  rw [List.reverse_append, List.reverse_append, List.lookup_append, List.lookup_append, h key]

theorem ofPairs_eq (h : SameOptions pairs others) :
    Options.ofPairs pairs = Options.ofPairs others := by
  apply Options.ext_get?
  intro key
  rw [Options.get?_ofPairs, Options.get?_ofPairs, sameOptions_iff.1 h key]

/-- Keys that are different from each other may come in any order. -/
theorem of_perm (hperm : pairs.Perm others) (hdistinct : (pairs.map Prod.fst).Nodup) :
    SameOptions pairs others := by
  intro key value
  rw [isLast_iff_mem hdistinct, isLast_iff_mem ((hperm.map Prod.fst).nodup_iff.1 hdistinct),
    hperm.mem_iff]

/-- A value that is given to a key before another one can be left out. -/
theorem of_given_again {before after : List (String × Value)} {key : String}
    (hagain : key ∈ after.map Prod.fst) (value : Value) :
    SameOptions (before ++ (key, value) :: after) (before ++ after) := by
  rw [sameOptions_iff]
  intro other
  rw [List.reverse_append, List.reverse_append, List.reverse_cons, List.lookup_append,
    List.lookup_append, List.lookup_append, Options.lookup_cons]
  by_cases h : other = key
  · obtain ⟨last, hlast⟩ := exists_isLast_iff.2 hagain
    rw [h, isLast_iff.1 hlast]
    rfl
  · rw [if_neg h, List.lookup_nil, Option.or_none]

end SameOptions

/-! Reports -/

/-- What a report shows of options: each key once, in the order of the code points, with the text of
its last value. -/
structure IsShown (pairs : List (String × Value)) (shown : List (String × String)) : Prop where
  keys_ascending : shown.Pairwise fun first second => first.1 < second.1
  mem_iff : ∀ key text, (key, text) ∈ shown ↔ ∃ value, IsLast pairs key value ∧ text = value.itemText

theorem isShown_entries (pairs : List (String × Value)) :
    IsShown pairs ((Options.ofPairs pairs).entries.map fun entry => (entry.1, entry.2.render)) := by
  constructor
  · rw [List.pairwise_map]
    exact (Options.ofPairs pairs).keys_sorted
  · intro key text
    rw [List.mem_map]
    constructor
    · rintro ⟨⟨key, option⟩, hentry, heq⟩
      cases heq
      rw [Options.mem_entries_iff, Options.get?_ofPairs, Option.map_eq_some_iff] at hentry
      obtain ⟨value, hvalue, rfl⟩ := hentry
      exact ⟨value, isLast_iff.2 hvalue, OptionValue.render_ofValue value⟩
    · rintro ⟨value, hvalue, rfl⟩
      refine ⟨(key, .ofValue value), ?_, by rw [OptionValue.render_ofValue]⟩
      rw [Options.mem_entries_iff, Options.get?_ofPairs, isLast_iff.1 hvalue]
      rfl

theorem exists_message_unknownOptions (name : String) (pairs : List (String × Value)) (line : Nat) :
    ∃ shown, IsShown pairs shown ∧
      Diagnostic.message ⟨.unknownOptions name (.ofPairs pairs), line⟩ =
        "Unknown args format: mod('" ++ name ++ "', \x7b" ++
          String.intercalate ", " (shown.map fun entry => ":" ++ entry.1 ++ " => " ++ entry.2) ++
          "\x7d)" := by
  refine ⟨_, isShown_entries pairs, ?_⟩
  show "Unknown args format: mod('" ++ name ++ "', " ++ (Options.ofPairs pairs).render ++ ")" = _
  rw [Options.render, List.map_map]
  simp only [String.append_assoc]
  rfl

namespace Outcome

variable {settings : Settings} {pairs others : List (String × Value)} {line : Nat}
  {children inner : List Call}

theorem ofCall_mod_of_sameOptions (h : SameOptions pairs others) (name : Value) (rest : List Value) :
    ofCall settings ⟨"mod", name :: .hash pairs :: rest, line, children⟩ =
      ofCall settings ⟨"mod", name :: .hash others :: rest, line, inner⟩ := by
  have hpayload : Payload.ofArgument (some (.hash pairs)) = .ofArgument (some (.hash others)) := by
    rw [Payload.ofArgument, Payload.ofArgument, h.ofPairs_eq]
  rw [ofCall, ofCall, Call.statement, Call.statement, if_pos rfl, if_pos rfl,
    Call.moduleDeclaration, Call.moduleDeclaration]
  simp only [List.head?_cons, List.getElem?_cons_succ, List.getElem?_cons_zero, hpayload]

/-- A `github` call that declares something is one that the alias takes. -/
theorem areAliasArguments_of_ofCall_github {arguments : List Value} {declaration : Declaration}
    (h : ofCall settings ⟨"github", arguments, line, children⟩ = ⟨[declaration], []⟩) :
    settings.githubAlias = true ∧
      ∃ name version pairs, Call.AreAliasArguments arguments name version pairs := by
  have henabled : settings.githubAlias = true := by
    by_contra hdisabled
    have hsettings : settings = { githubAlias := false } := by
      rw [← Bool.eq_false_iff.2 hdisabled]
    rw [ofCall, hsettings, Call.statement_github_disabled rfl] at h
    cases h
  refine ⟨henabled, ?_⟩
  by_contra hmalformed
  rw [ofCall_github_of_malformed henabled hmalformed] at h
  cases h

theorem ofCall_github_of_sameOptions
    (h : SameOptions pairs others) {name version : Value} {rest : List Value}
    {declaration : Declaration}
    (haccepted : ofCall settings ⟨"github", name :: version :: .hash pairs :: rest, line, children⟩ =
      ⟨[declaration], []⟩) :
    ofCall settings ⟨"github", name :: version :: .hash others :: rest, line, inner⟩ =
      ⟨[declaration], []⟩ := by
  obtain ⟨henabled, text, given, _, hname, hnonempty, hversion, hoptions⟩ :=
    areAliasArguments_of_ofCall_github haccepted
  cases hoptions
  have hpairs : Call.AreAliasArguments (name :: version :: .hash pairs :: rest) text given pairs :=
    ⟨hname, hnonempty, hversion, .hash pairs⟩
  have hothers : Call.AreAliasArguments (name :: version :: .hash others :: rest) text given others :=
    ⟨hname, hnonempty, hversion, .hash others⟩
  rw [← haccepted, ofCall_github_of_areAliasArguments henabled hpairs [],
    ofCall_github_of_areAliasArguments henabled hothers []]
  exact (ofCall_mod_of_sameOptions (h.append _) (.text text) []).symm

/-- The order of options, and values that are given before the last one, do not matter to a `mod`
call, nor to a `github` call that declares a module. The report of options that name no source shows
each key once, in ascending order. -/
theorem ofCall_same_options (settings : Settings) (line : Nat) :
    (∀ pairs others, SameOptions pairs others →
      (∀ (name : Value) (rest : List Value) (children inner : List Call),
        ofCall settings ⟨"mod", name :: .hash pairs :: rest, line, children⟩ =
          ofCall settings ⟨"mod", name :: .hash others :: rest, line, inner⟩) ∧
      ∀ (name version : Value) (rest : List Value) (children inner : List Call) declaration,
        ofCall settings ⟨"github", name :: version :: .hash pairs :: rest, line, children⟩ =
          ⟨[declaration], []⟩ →
        ofCall settings ⟨"github", name :: version :: .hash others :: rest, line, inner⟩ =
          ⟨[declaration], []⟩) ∧
    (∀ pairs others, pairs.Perm others → (pairs.map Prod.fst).Nodup → SameOptions pairs others) ∧
    (∀ before key value after, key ∈ after.map Prod.fst →
      SameOptions (before ++ (key, value) :: after) (before ++ after)) ∧
    ∀ name pairs (rest : List Value) (children : List Call), name ≠ "" →
      (∀ key ∈ ["git", "svn", "repo", "boxen"], key ∉ pairs.map Prod.fst) →
      ∃ diagnostic shown,
        ofCall settings ⟨"mod", .text name :: .hash pairs :: rest, line, children⟩ =
          ⟨[], [diagnostic]⟩ ∧
        IsShown pairs shown ∧
        diagnostic.message =
          "Unknown args format: mod('" ++ name ++ "', \x7b" ++
            String.intercalate ", " (shown.map fun entry => ":" ++ entry.1 ++ " => " ++ entry.2) ++
            "\x7d)" := by
  refine ⟨fun pairs others hsame => ⟨?_, ?_⟩, ?_, ?_, ?_⟩
  · exact fun name rest children inner => ofCall_mod_of_sameOptions hsame name rest
  · exact fun name version rest children inner declaration haccepted =>
      ofCall_github_of_sameOptions hsame haccepted
  · exact fun pairs others hperm hdistinct => .of_perm hperm hdistinct
  · exact fun before key value after hagain => .of_given_again hagain value
  · intro name pairs rest children hname hkeys
    obtain ⟨shown, hshown, hmessage⟩ := exists_message_unknownOptions name pairs line
    have hunknown : IsUnknown name (some (.hash pairs)) (.unknownOptions name (.ofPairs pairs)) :=
      .options hkeys
    exact ⟨_, shown, ofCall_mod_of_isUnknown settings hname _ line children hunknown, hshown,
      hmessage⟩

/-- A value that is given again and keys in another order, in options that name no source and in
those of the alias. -/
theorem ofCall_same_options_reordered :
    let pairs : List (String × Value) :=
      [("z", .text "1"), ("z", .list [.symbol "b"]), ("a", .absent)]
    let once : List (String × Value) := [("z", .list [.symbol "b"]), ("a", .absent)]
    let reordered : List (String × Value) := [("a", .absent), ("z", .list [.symbol "b"])]
    let declaration : Declaration := ⟨"x", .directRepo, none, .exact "2", 1⟩
    "z" ∈ once.map Prod.fst ∧ (once.map Prod.fst).Nodup ∧ once.Perm reordered ∧
    SameOptions pairs reordered ∧
    ofCall {} ⟨"mod", [.text "x", .hash pairs], 1, []⟩ =
      ofCall {} ⟨"mod", [.text "x", .hash reordered], 1, []⟩ ∧
    (ofCall {} ⟨"mod", [.text "x", .hash pairs], 1, []⟩).diagnostics.map Diagnostic.message =
      ["Unknown args format: mod('x', \x7b:a => nil, :z => ['b']\x7d)"] ∧
    ofCall {} ⟨"github", [.text "x", .text "2", .hash pairs], 1, []⟩ = ⟨[declaration], []⟩ ∧
    ofCall {} ⟨"github", [.text "x", .text "2", .hash reordered], 1, []⟩ =
      ⟨[declaration], []⟩ := by
  intro pairs once reordered declaration
  have hagain : "z" ∈ once.map Prod.fst := by decide
  have hdistinct : (once.map Prod.fst).Nodup := by decide
  have hperm : once.Perm reordered := .swap _ _ []
  obtain ⟨hsame, hreordered, hgiven, -⟩ := ofCall_same_options {} 1
  have hpairs : SameOptions pairs reordered := fun key value =>
    (hgiven [] "z" (.text "1") once hagain key value).trans
      (hreordered once reordered hperm hdistinct key value)
  obtain ⟨hmod, hgithub⟩ := hsame pairs reordered hpairs
  have haccepted : ofCall {} ⟨"github", [.text "x", .text "2", .hash pairs], 1, []⟩ =
      ⟨[declaration], []⟩ := rfl
  refine ⟨hagain, hdistinct, hperm, hpairs, hmod (.text "x") [] [] [], by decide +kernel,
    haccepted, ?_⟩
  exact hgithub (.text "x") (.text "2") [] [] [] declaration haccepted

end Outcome

end PuppetInventory
