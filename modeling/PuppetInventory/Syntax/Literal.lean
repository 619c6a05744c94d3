import PuppetInventory.Syntax.Characters

/-!
Literals between delimiters and heredoc bodies: how they are announced, and how far their runs of
plain text go. A run stops at an escape, at an interpolation, at the end of an item, and at the end
of the literal.
-/

namespace PuppetInventory.Syntax

/-! Escapes and interpolations -/

namespace Input

/-- The place behind the escape that starts here, unless it is malformed. -/
def afterEscape? (input : Input) : Option Input :=
  match input.rest with
  | '\\' :: 'u' :: '{' :: rest =>
    let inner := rest.takeWhile fun c => isHexDigit c || c = ' '
    if inner.isEmpty || (rest.drop inner.length).head? ≠ some '}' then none
    else some (input.skip (inner.length + 4))
  | '\\' :: 'u' :: a :: b :: c :: d :: _ =>
    if isHexDigit a && isHexDigit b && isHexDigit c && isHexDigit d then some (input.skip 6)
    else none
  | '\\' :: 'u' :: _ => none
  | '\\' :: 'x' :: rest =>
    let digits := (rest.take 2).takeWhile isHexDigit
    if digits.isEmpty then none else some (input.skip (digits.length + 2))
  | '\\' :: c :: rest =>
    if c.toNat = 0 then none
    else if isOctalDigit c then
      some (input.skip (1 + ((c :: rest.take 2).takeWhile isOctalDigit).length))
    else some (input.skip 2)
  | _ => none

end Input

/-- What a number sign inside a literal means. -/
inductive NumberSign where
  /-- An interpolation between braces. -/
  | braced
  /-- An interpolation of a bare variable. -/
  | bare
  /-- Plain text; some of the characters behind it cannot end the text. -/
  | plain (shielded : Nat)
deriving Repr, DecidableEq, Inhabited

/-- The meaning of a number sign, judged by what follows it. -/
def numberSign : List Char → NumberSign
  | '{' :: _ => .braced
  | '@' :: '@' :: c :: _ => if isSymbolChar c && !c.isDigit then .bare else .plain 2
  | '@' :: c :: _ => if isSymbolChar c && !c.isDigit then .bare else .plain 1
  | '$' :: '-' :: c :: _ => if c.isAlpha || c = '_' then .bare else .plain 2
  | '$' :: c :: _ => if isVariableMark c || isPlainWordChar c then .bare else .plain 1
  | ['$'] => .bare
  | _ => .plain 0

/-! Delimited literals -/

inductive LiteralKind where
  | text
  | symbol
  | regularExpression
  | subshell
  | words
  | symbols
deriving Repr, DecidableEq, Inhabited

/-- How a literal is delimited and read. -/
structure LiteralForm where
  kind : LiteralKind
  opening : Char
  closing : Char
  /-- Whether escapes and interpolations are read. -/
  interpolates : Bool
deriving Repr, DecidableEq, Inhabited

namespace LiteralForm

/-- Whether blanks divide the content into items. -/
def dividesItems (form : LiteralForm) : Bool :=
  form.kind = .words || form.kind = .symbols

/-- The length of the run of plain text that goes on here, and how many delimiters are open behind
it. Before this place, `depth` of them are open and the run has `passed` characters. -/
def plainRun (form : LiteralForm) (depth passed : Nat) : List Char → Nat × Nat
  | [] => (passed, depth)
  | c :: rest =>
    if form.dividesItems && isSpace c then (passed, depth)
    else if c = form.closing then
      if depth = 0 then (passed, depth) else plainRun form (depth - 1) (passed + 1) rest
    else if c = form.opening then plainRun form (depth + 1) (passed + 1) rest
    else if c = '\\' then
      if form.interpolates then (passed, depth)
      else
        match rest with
        | [] => (passed + 1, depth)
        | _ :: rest => plainRun form depth (passed + 2) rest
    else if form.interpolates && c = '#' then
      match numberSign rest, rest with
      | .plain 1, _ :: rest => plainRun form depth (passed + 2) rest
      | .plain 2, _ :: _ :: rest => plainRun form depth (passed + 3) rest
      | .plain _, rest => plainRun form depth (passed + 1) rest
      | _, _ => (passed, depth)
    else plainRun form depth (passed + 1) rest

def afterClosing (form : LiteralForm) (input : Input) : Input :=
  if form.kind = .regularExpression then input.step.skipWhile Char.isLower else input.step

end LiteralForm

/-! Heredocs -/

structure Heredoc where
  /-- The word that ends the body. A character of it that matches nothing is missing. -/
  word : List (Option Char)
  /-- Whether blanks may come before that word. -/
  indented : Bool
  interpolates : Bool
deriving Repr, DecidableEq, Inhabited

/-- What comes next in a heredoc body. -/
inductive HeredocPiece where
  /-- Plain text of some length. -/
  | content (length : Nat)
  /-- The word that ends the body, of some length, or the end of the text. -/
  | word (length : Nat)
  | escape
  /-- An interpolation between braces. -/
  | braced
  /-- An interpolation of a bare variable. -/
  | bare
  /-- A line that starts with a number sign behind another piece, and with something that is no plain
  text behind that. -/
  | comment
  /-- The start of the closing word before an escape or an interpolation, which cannot be read. -/
  | broken
deriving Repr, DecidableEq, Inhabited

/-- How far a run of plain text in a heredoc body has been followed. -/
structure HeredocRun where
  passed : Nat := 0
  /-- The characters that surely belong to the run. -/
  kept : Nat := 0
  /-- Whether the run holds any. -/
  found : Bool := false
  /-- Whether the closing word can stand here. -/
  looking : Bool := true
  /-- The first character of the run. -/
  first : Option Char
  /-- What is left of the closing word. -/
  word : List (Option Char)
deriving Repr, Inhabited

namespace HeredocRun

/-- The run with all characters that have been passed. -/
def keep (run : HeredocRun) : HeredocRun :=
  { run with kept := run.passed }

def keepFound (run : HeredocRun) : HeredocRun :=
  if run.found then run.keep else run

def pass (run : HeredocRun) (count : Nat) : HeredocRun :=
  { run with passed := run.passed + count }

/-- What comes next when a run ends at something that is no plain text. -/
def stoppedBy (run : HeredocRun) (piece : HeredocPiece) : HeredocPiece :=
  if run.found then .content run.kept
  else if run.passed = 0 then piece
  else if run.first = some '#' then .comment
  else if run.first = some '\\' then .escape
  else .broken

/-- What comes next when a run ends at the closing word or at the end of the text. -/
def ended (run : HeredocRun) : HeredocPiece :=
  if run.found then .content run.kept else .word run.kept

end HeredocRun

namespace Heredoc

def endsLine : List Char → Bool
  | [] => true
  | c :: _ => c = '\n' || c = '\r'

def lineBlanks (rest : List Char) : Nat :=
  (rest.takeWhile fun c => c = ' ' || c = '\t').length

/-- What comes next in a body. The closing word counts at the start of a line and where a run of
plain text starts. -/
def follow (heredoc : Heredoc) : Nat → HeredocRun → List Char → HeredocPiece
  | 0, run, _ => run.ended
  | fuel + 1, run, rest =>
    if run.word.isEmpty then
      let run := if run.found then run else run.keep
      let blanks := lineBlanks rest
      let rest := rest.drop blanks
      if endsLine rest then run.ended
      else follow heredoc fuel { run.pass blanks with found := true, word := heredoc.word } rest
    else
      match rest with
      | [] => run.keep.ended
      | c :: more =>
        if run.looking && run.word.head? = some (some c) then
          follow heredoc fuel { run.pass 1 with word := run.word.drop 1 } more
        else
          let run := { run with word := heredoc.word, looking := false }
          if heredoc.interpolates && c = '\\' then run.stoppedBy .escape
          else if heredoc.interpolates && c = '#' then
            match numberSign more with
            | .braced => run.keepFound.stoppedBy .braced
            | .bare => run.keepFound.stoppedBy .bare
            | .plain shielded =>
              follow heredoc fuel (run.keepFound.pass (1 + shielded)) (more.drop shielded)
          else if c = '\r' || c = '\n' then
            let line := if c = '\r' && more.head? = some '\n' then 2 else 1
            let rest := rest.drop line
            let blanks := lineBlanks rest
            let looking := heredoc.indented || blanks = 0
            follow heredoc fuel
              { run.pass (line + blanks) with found := true, looking := looking }.keep
              (rest.drop blanks)
          else follow heredoc fuel { run.pass 1 with found := true }.keep more

/-- What comes next in a body; no run is longer than `size`. -/
def piece (heredoc : Heredoc) (size : Nat) (rest : List Char) : HeredocPiece :=
  heredoc.follow (2 * size + 2) { word := heredoc.word, first := rest.head? } rest

/-- Only the low byte of a character of a quoted closing word counts, and only if it is ASCII. -/
def closingChar (c : Char) : Option Char :=
  if c.toNat % 256 < 128 then some (Char.ofNat (c.toNat % 256)) else none

/-- The heredoc that is announced behind two angle brackets, and the place behind the
announcement. -/
def announced? (input : Input) : Option (Heredoc × Input) :=
  let indented := input.next? = some '-' || input.next? = some '~'
  let named := if indented then input.step else input
  match named.rest with
  | quote :: rest =>
    if quote = '\'' || quote = '"' || quote = '`' then
      let word := rest.takeWhile (· ≠ quote)
      if word.isEmpty then none
      else some (⟨word.map closingChar, indented, quote ≠ '\''⟩, named.skip (word.length + 2))
    else
      let word := named.rest.takeWhile isPlainWordChar
      if word.isEmpty then none
      else some (⟨word.map some, indented, true⟩, named.skip word.length)
  | [] => none

end Heredoc

end PuppetInventory.Syntax
