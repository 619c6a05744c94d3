import PuppetInventory.Proofs.ArgumentValues
import PuppetInventory.Proofs.Precedence

/-!
Options with and without braces. A `mod` call comes to the same either way if one of its options can
be read. If none can, it asks for the newest module of the registry without the braces, and is
reported with them.
-/

namespace PuppetInventory

namespace Outcome

/-- A module that is given options is none of the registry. -/
theorem kind_ne_forge_of_options
    {settings : Settings} {call : Call} {pairs : List (String × Value)} {declaration : Declaration}
    (hoptions : call.arguments[1]? = some (.hash pairs))
    (h : declaration ∈ (ofCall settings call).declarations) : declaration.kind ≠ .forge := by
  intro hforge
  have hchoose := (Call.declares_of_statement (statement_of_mem_ofCall h)).canChoose
  rw [hforge] at hchoose
  obtain ⟨-, hversion⟩ := hchoose
  rw [hoptions] at hversion
  cases hversion

end Outcome

namespace Syntax.Tree

/-- Options without braces have the value that they have between braces exactly if one of them can
be read, and the module is then none of the registry. Otherwise the braces alone tell a `mod` call
that there are options. -/
theorem bare_eq_braced_iff
    (document : Array Char) (list other brace : Tag) (positional parts : List Tree)
    (hbrace : brace.named = true ∧ brace.kind = .hash)
    (hpositional : ∀ tree ∈ positional, tree.kind ≠ .pair)
    (hparts : ∀ part ∈ parts, part.IsOptionPart) :
    let bare := argumentValues document (.node list (positional ++ parts))
    let braced := argumentValues document (.node other (positional ++ [.node brace parts]))
    let readable := ∃ part ∈ parts, IsReadablePair document part
    (bare = braced ↔ readable) ∧
    (¬readable → braced = bare ++ [.hash []]) ∧
    ∀ (settings : Settings) (name : String) (line : Nat) (children : List Call),
      positionalValues document positional = [.text name] →
      let outcome := fun arguments => Outcome.ofCall settings ⟨"mod", arguments, line, children⟩
      (readable →
        outcome bare = outcome braced ∧
          ∀ declaration ∈ (outcome bare).declarations, declaration.kind ≠ .forge) ∧
      (¬readable → name ≠ "" →
        outcome bare = ⟨[.named name .forge none .latest line], []⟩ ∧
          outcome braced = ⟨[], [⟨.unknownOptions name .empty, line⟩]⟩) := by
  intro bare braced readable
  have hbraced : braced = positionalValues document positional ++ [.hash (pairs document parts)] :=
    argumentValues_braced hbrace hpositional
  have hagree (h : readable) : bare = braced := by
    rw [hbraced]
    exact argumentValues_bare_of_readable hpositional hparts h
  have hempty (h : ¬readable) : pairs document parts = [] :=
    pairs_eq_nil_iff.2 fun part hpart hpair => h ⟨part, hpart, hpair⟩
  have hbare (h : ¬readable) : bare = positionalValues document positional :=
    argumentValues_bare_of_unreadable hpositional hparts (hempty h)
  have hlonger (h : ¬readable) : braced = bare ++ [.hash []] := by
    rw [hbraced, hbare h, hempty h]
  refine ⟨⟨?_, hagree⟩, hlonger, ?_⟩
  · intro heq
    by_cases h : readable
    · exact h
    · rw [hlonger h, List.self_eq_append_right] at heq
      cases heq
  · intro settings name line children hvalues outcome
    rw [hvalues] at hbraced hbare
    constructor
    · intro h
      refine ⟨congrArg outcome (hagree h), fun declaration hdeclaration => ?_⟩
      have hoptions : bare[1]? = some (.hash (pairs document parts)) := by
        rw [hagree h, hbraced]
        rfl
      exact Outcome.kind_ne_forge_of_options hoptions hdeclaration
    · intro h hname
      have hunknown : IsUnknown name (some (.hash [])) (.unknownOptions name .empty) :=
        .options fun key _ => List.not_mem_nil
      constructor
      · calc outcome bare = outcome [.text name] := congrArg outcome (hbare h)
          _ = ⟨[.named name .forge none .latest line], []⟩ :=
            Outcome.ofCall_mod_of_isClassified settings hname [] line children .missing
      · calc outcome braced = outcome [.text name, .hash []] := by
              rw [hbraced, hempty h]
              rfl
          _ = ⟨[], [⟨.unknownOptions name .empty, line⟩]⟩ :=
            Outcome.ofCall_mod_of_isUnknown settings hname [.hash []] line children hunknown

/-- A pair whose key is interpolated, beside one that can be read and alone. -/
theorem bare_eq_braced_iff_interpolated :
    let document := "'x' a: 'b' \"#\x7bc\x7d\": 'd'".toList.toArray
    let span (start stop : Nat) : Span := ⟨⟨start, 0⟩, ⟨stop, 0⟩⟩
    let literal (role : Role) (start stop : Nat) : Tree :=
      .node ⟨.string, role, true, span start stop⟩ [leaf .stringContent (span (start + 1) (stop - 1))]
    let name := literal .child 0 3
    let read := branch .pair (span 4 10)
      [(leaf .hashKeySymbol (span 4 5)).withRole .key, literal .value 7 10]
    let unread := branch .pair (span 11 22)
      [(branch .string (span 11 17) [leaf .interpolation (span 12 16)]).withRole .key,
        literal .value 19 22]
    let list : Tag := ⟨.argumentList, .arguments, true, span 0 22⟩
    let brace : Tag := ⟨.hash, .child, true, span 4 22⟩
    (brace.named = true ∧ brace.kind = .hash) ∧ name.kind ≠ .pair ∧
    read.IsOptionPart ∧ unread.IsOptionPart ∧
    IsReadablePair document read ∧ ¬IsReadablePair document unread ∧
    argumentValues document (.node list [name, unread, read]) =
      argumentValues document (.node list [name, .node brace [unread, read]]) ∧
    Outcome.ofCall {} ⟨"mod", argumentValues document (.node list [name, unread]), 1, []⟩ =
      ⟨[⟨"x", .forge, none, .latest, 1⟩], []⟩ := by
  intro document span literal name read unread list brace
  have hbrace : brace.named = true ∧ brace.kind = .hash := ⟨rfl, rfl⟩
  have hname : name.kind ≠ .pair := by decide
  have hread : read.IsOptionPart := fun _ => .inl rfl
  have hunread : unread.IsOptionPart := fun _ => .inl rfl
  have hreadable : IsReadablePair document read := ⟨rfl, rfl, ⟨_, rfl, rfl⟩, rfl⟩
  have hunreadable : ¬IsReadablePair document unread := by
    intro hpair
    obtain ⟨key, hkey, htext⟩ := hpair.exists_key
    cases hkey
    cases htext
  have hpositional : ∀ tree ∈ [name], tree.kind ≠ .pair := by
    intro tree htree
    rw [List.mem_singleton.1 htree]
    exact hname
  have hboth : ∀ part ∈ [unread, read], part.IsOptionPart :=
    List.forall_mem_cons.2 ⟨hunread, List.forall_mem_singleton.2 hread⟩
  obtain ⟨hagree, -⟩ :=
    bare_eq_braced_iff document list list brace [name] [unread, read] hbrace hpositional hboth
  obtain ⟨-, -, hcalls⟩ :=
    bare_eq_braced_iff document list list brace [name] [unread] hbrace hpositional
      (List.forall_mem_singleton.2 hunread)
  have hnone : ¬∃ part ∈ [unread], IsReadablePair document part := by
    rintro ⟨part, hpart, hpair⟩
    rw [List.mem_singleton.1 hpart] at hpair
    exact hunreadable hpair
  refine ⟨hbrace, hname, hread, hunread, hreadable, hunreadable, ?_, ?_⟩
  · exact hagree.2 ⟨read, by simp, hreadable⟩
  · exact ((hcalls {} "x" 1 [] rfl).2 hnone (by decide)).1

end Syntax.Tree

/-- The braces decide what a `mod` call with an interpolated key comes to. -/
theorem Outcome.bare_ne_braced_interpolated :
    let bare := Outcome.ofText {} "mod 'x', \"g#\x7b1\x7dt\": 'u'\n"
    let braced := Outcome.ofText {} "mod 'x', \x7b\"g#\x7b1\x7dt\": 'u'\x7d\n"
    bare.declarations = [⟨"x", .forge, none, .latest, 1⟩] ∧ bare.diagnostics.length = 0 ∧
      braced.declarations = [] ∧
      braced.diagnostics.map Diagnostic.render =
        ["warning:1: Unknown args format: mod('x', \x7b\x7d)"] := by
  decide +kernel

end PuppetInventory
