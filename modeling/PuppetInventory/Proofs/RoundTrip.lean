import PuppetInventory.Proofs.OptionTable
import PuppetInventory.Proofs.Reading.Calls

/-!
Writing a Puppetfile and reading it back. A written file has one module statement on each line, and
reading it gives the modules that were written.
-/

namespace PuppetInventory

/-! Calls that declare modules -/

namespace Outcome

theorem visit_of_children_eq_nil
    (settings : Settings) (outcome : Outcome) {call : Call} (h : call.children = []) :
    visit settings outcome call = outcome.record (call.statement settings) := by
  obtain ⟨name, arguments, line, children⟩ := call
  cases h
  rfl

/-- Calls that declare a module each, and hold no other calls, leave their declarations. -/
theorem visitAll_mapIdx
    {α : Type} {settings : Settings} {call : Nat → α → Call} {declaration : Nat → α → Declaration}
    (hchildren : ∀ i item, (call i item).children = [])
    (hstatement : ∀ i item, (call i item).statement settings = some (.ok (declaration i item)))
    (outcome : Outcome) (items : List α) :
    visitAll settings outcome (items.mapIdx call) =
      { outcome with declarations := outcome.declarations ++ items.mapIdx declaration } := by
  induction items generalizing outcome call declaration with
  | nil =>
    rw [List.mapIdx_nil, List.mapIdx_nil, List.append_nil]
    rfl
  | cons item items ih =>
    have hrest := ih (fun i => hchildren (i + 1)) (fun i => hstatement (i + 1))
      (outcome.record (some (.ok (declaration 0 item))))
    rw [List.mapIdx_cons, List.mapIdx_cons, visitAll,
      visit_of_children_eq_nil _ _ (hchildren 0 item), hstatement, hrest, record]
    simp

end Outcome

namespace Puppetfile

/-! Written files -/

def isControl (c : Char) : Bool :=
  c.toNat < 32 || (127 ≤ c.toNat && c.toNat < 160)

/-- A text without control characters. -/
structure PlainText where
  text : String
  noControls : ∀ c ∈ text.toList, isControl c = false

theorem noControls_of_all {text : String} (h : text.toList.all (fun c => !isControl c) = true) :
    ∀ c ∈ text.toList, isControl c = false := by
  intro c hc
  simpa using List.all_eq_true.1 h c hc

structure ModuleName extends PlainText where
  nonempty : text ≠ ""

inductive GitKey where
  | ref
  | tag
  | commit
  | branch

inductive SvnKey where
  | rev
  | revision

def GitKey.name : GitKey → String
  | .ref => "ref"
  | .tag => "tag"
  | .commit => "commit"
  | .branch => "branch"

def SvnKey.name : SvnKey → String
  | .rev => "rev"
  | .revision => "revision"

/-- What a module statement says. -/
inductive Entry where
  /-- The newest version in the registry. -/
  | newest (name : ModuleName)
  | pinned (name : ModuleName) (version : PlainText)
  | git (name : ModuleName) (url : PlainText) (key : GitKey) (version : PlainText)
  | svn (name : ModuleName) (url : PlainText) (key : SvnKey) (version : PlainText)

/-- A text between single quotes. -/
def PlainText.quote (text : PlainText) : String :=
  String.ofList (Syntax.quoted text.text.toList)

namespace Entry

def write : Entry → String
  | .newest name => "mod " ++ name.quote
  | .pinned name version => "mod " ++ name.quote ++ ", " ++ version.quote
  | .git name url key version =>
    "mod " ++ name.quote ++ ", :git => " ++ url.quote ++ ", :" ++ key.name ++ " => " ++
      version.quote
  | .svn name url key version =>
    "mod " ++ name.quote ++ ", svn: " ++ url.quote ++ ", " ++ key.name ++ ": " ++ version.quote

/-- A module name with its parts separated by dashes. -/
def dashed (name : ModuleName) : String :=
  name.text.map fun c => if c = '/' then '-' else c

/-- The module that a statement on a line declares. -/
def declaration (line : Nat) : Entry → Declaration
  | .newest name => ⟨dashed name, .forge, none, .latest, line⟩
  | .pinned name version => ⟨dashed name, .forge, none, .exact version.text, line⟩
  | .git name url _ version => ⟨dashed name, .git, some url.text, .exact version.text, line⟩
  | .svn name url _ version => ⟨dashed name, .svn, some url.text, .exact version.text, line⟩

end Entry

/-- A file with one statement on each line. -/
def write (entries : List Entry) : String :=
  String.intercalate "\n" (entries.map Entry.write)

/-! Written statements as commands -/

open Syntax (Name Argument Command)

def modName : Name := ⟨['m', 'o', 'd'], by decide⟩

def GitKey.word : GitKey → Name
  | .ref => ⟨['r', 'e', 'f'], by decide⟩
  | .tag => ⟨['t', 'a', 'g'], by decide⟩
  | .commit => ⟨['c', 'o', 'm', 'm', 'i', 't'], by decide⟩
  | .branch => ⟨['b', 'r', 'a', 'n', 'c', 'h'], by decide⟩

def SvnKey.word : SvnKey → Name
  | .rev => ⟨['r', 'e', 'v'], by decide⟩
  | .revision => ⟨['r', 'e', 'v', 'i', 's', 'i', 'o', 'n'], by decide⟩

theorem GitKey.ofList_word (key : GitKey) : String.ofList key.word.chars = key.name := by
  cases key <;> rfl

theorem SvnKey.ofList_word (key : SvnKey) : String.ofList key.word.chars = key.name := by
  cases key <;> rfl

namespace Entry

def moduleName : Entry → ModuleName
  | .newest name => name
  | .pinned name _ => name
  | .git name _ _ _ => name
  | .svn name _ _ _ => name

/-- The arguments behind the name of a module. -/
def options : Entry → List Argument
  | .newest _ => []
  | .pinned _ version => [.text version.text.toList]
  | .git _ url key version =>
    [.arrowPair ⟨['g', 'i', 't'], by decide⟩ url.text.toList,
      .arrowPair key.word version.text.toList]
  | .svn _ url key version =>
    [.colonPair ⟨['s', 'v', 'n'], by decide⟩ url.text.toList,
      .colonPair key.word version.text.toList]

/-- The command that a statement is written as. -/
def command (entry : Entry) : Command where
  name := modName
  notKeyword := by decide
  first := .text entry.moduleName.text.toList
  others := entry.options

theorem toList_write (entry : Entry) : entry.write.toList = entry.command.write := by
  have hmod : "mod ".toList = ['m', 'o', 'd', ' '] := rfl
  have hcomma : ", ".toList = [',', ' '] := rfl
  have hgit : ", :git => ".toList = [',', ' ', ':', 'g', 'i', 't', ' ', '=', '>', ' '] := rfl
  have hsymbol : ", :".toList = [',', ' ', ':'] := rfl
  have harrow : " => ".toList = [' ', '=', '>', ' '] := rfl
  have hsvn : ", svn: ".toList = [',', ' ', 's', 'v', 'n', ':', ' '] := rfl
  have hcolon : ": ".toList = [':', ' '] := rfl
  have hquote (text : PlainText) : text.quote.toList = Syntax.quoted text.text.toList := by
    simp [PlainText.quote]
  cases entry with
  | newest name =>
    simp [write, command, Command.write, moduleName, options, modName, Syntax.moreWritten, hquote,
      hmod]
  | pinned name version =>
    simp [write, command, Command.write, moduleName, options, modName, Syntax.moreWritten, hquote,
      hmod, hcomma]
  | git name url key version =>
    have hkey : key.name.toList = key.word.chars := by cases key <;> rfl
    simp [write, command, Command.write, moduleName, options, modName, Syntax.moreWritten, hquote,
      hmod, hgit, hsymbol, harrow, hkey]
  | svn name url key version =>
    have hkey : key.name.toList = key.word.chars := by cases key <;> rfl
    simp [write, command, Command.write, moduleName, options, modName, Syntax.moreWritten, hquote,
      hmod, hsvn, hcomma, hcolon, hkey]

theorem lineBreak_not_mem_quoted (text : PlainText) : '\n' ∉ Syntax.quoted text.text.toList := by
  intro hmem
  rcases Syntax.mem_quoted hmem with h | h | h
  · have hcontrol := text.noControls '\n' h
    cases hcontrol
  · cases h
  · cases h

theorem lineBreak_not_mem_write (entry : Entry) : '\n' ∉ entry.command.write := by
  have hname := lineBreak_not_mem_quoted entry.moduleName.toPlainText
  cases entry with
  | newest name => simpa [command, Command.write, modName, options, Syntax.moreWritten] using hname
  | pinned name version =>
    have hversion := lineBreak_not_mem_quoted version
    simpa [command, Command.write, modName, options, Syntax.moreWritten, hversion] using hname
  | git name url key version =>
    have hurl := lineBreak_not_mem_quoted url
    have hversion := lineBreak_not_mem_quoted version
    have hkey : '\n' ∉ key.word.chars := by cases key <;> decide
    simpa [command, Command.write, modName, options, Syntax.moreWritten, hurl, hversion, hkey]
      using hname
  | svn name url key version =>
    have hurl := lineBreak_not_mem_quoted url
    have hversion := lineBreak_not_mem_quoted version
    have hkey : '\n' ∉ key.word.chars := by cases key <;> decide
    simpa [command, Command.write, modName, options, Syntax.moreWritten, hurl, hversion, hkey]
      using hname

/-! What a statement declares -/

theorem normalName_eq_dashed (name : ModuleName) :
    Declaration.normalName name.text = dashed name :=
  Declaration.normalName_eq_map name.text

/-- The values of the arguments behind the name of a module. -/
def optionValues : Entry → List Value
  | .newest _ => []
  | .pinned _ version => [.text version.text]
  | .git _ url key version => [.hash [("git", .text url.text), (key.name, .text version.text)]]
  | .svn _ url key version => [.hash [("svn", .text url.text), (key.name, .text version.text)]]

theorem values_command (entry : Entry) :
    entry.command.values = .text entry.moduleName.text :: entry.optionValues := by
  cases entry with
  | newest name =>
    have hvalues : (Entry.newest name).command.values =
        [.text (String.ofList name.text.toList)] := rfl
    rw [hvalues, String.ofList_toList]
    rfl
  | pinned name version =>
    have hvalues : (Entry.pinned name version).command.values =
        [.text (String.ofList name.text.toList), .text (String.ofList version.text.toList)] := rfl
    rw [hvalues, String.ofList_toList, String.ofList_toList]
    rfl
  | git name url key version =>
    have hvalues : (Entry.git name url key version).command.values =
        [.text (String.ofList name.text.toList),
          .hash [("git", .text (String.ofList url.text.toList)),
            (String.ofList key.word.chars, .text (String.ofList version.text.toList))]] := rfl
    rw [hvalues, GitKey.ofList_word]
    simp only [String.ofList_toList]
    rfl
  | svn name url key version =>
    have hvalues : (Entry.svn name url key version).command.values =
        [.text (String.ofList name.text.toList),
          .hash [("svn", .text (String.ofList url.text.toList)),
            (String.ofList key.word.chars, .text (String.ofList version.text.toList))]] := rfl
    rw [hvalues, SvnKey.ofList_word]
    simp only [String.ofList_toList]
    rfl

theorem ofOptions?_git
    (name : String) (url : String) (key : GitKey) (version : String) (line : Nat) :
    Declaration.ofOptions? name (.ofPairs [("git", .text url), (key.name, .text version)]) line =
      some (.named name .git (some url) (.exact version) line) := by
  have hgit : (Options.ofPairs [("git", .text url), (key.name, .text version)]).get? "git" =
      some (.text url) := by
    rw [Options.get?_ofPairs]
    cases key <;> rfl
  have hversion : (Options.ofPairs [("git", .text url), (key.name, .text version)]).firstPlain?
      Declaration.gitVersionKeys = some version := by
    simp only [Options.firstPlain?, Options.get?_ofPairs]
    cases key <;> rfl
  rw [Declaration.ofOptions?, hgit]
  simp only [hversion]
  rfl

theorem ofOptions?_svn
    (name : String) (url : String) (key : SvnKey) (version : String) (line : Nat) :
    Declaration.ofOptions? name (.ofPairs [("svn", .text url), (key.name, .text version)]) line =
      some (.named name .svn (some url) (.exact version) line) := by
  have hgit : (Options.ofPairs [("svn", .text url), (key.name, .text version)]).get? "git" =
      none := by
    rw [Options.get?_ofPairs]
    cases key <;> rfl
  have hsvn : (Options.ofPairs [("svn", .text url), (key.name, .text version)]).get? "svn" =
      some (.text url) := by
    rw [Options.get?_ofPairs]
    cases key <;> rfl
  have hversion : (Options.ofPairs [("svn", .text url), (key.name, .text version)]).firstPlain?
      Declaration.svnVersionKeys = some version := by
    simp only [Options.firstPlain?, Options.get?_ofPairs]
    cases key <;> rfl
  rw [Declaration.ofOptions?, hgit]
  simp only [hsvn, hversion]
  rfl

theorem statement_call (settings : Settings) (entry : Entry) (line : Nat) :
    (entry.command.call line).statement settings = some (.ok (entry.declaration line)) := by
  have hmod : (entry.command.call line).name = "mod" := rfl
  have harguments : (entry.command.call line).arguments =
      .text entry.moduleName.text :: entry.optionValues := values_command entry
  have hmodule : (entry.command.call line).moduleDeclaration =
      Declaration.ofPayload entry.moduleName.text (.ofArgument entry.optionValues.head?) line := by
    have hhead : entry.optionValues.head? = entry.optionValues[0]? := List.head?_eq_getElem?
    rw [Call.moduleDeclaration, harguments, hhead]
    exact if_neg entry.moduleName.nonempty
  rw [Call.statement, if_pos hmod, hmodule]
  cases entry with
  | newest name =>
    rw [declaration, ← normalName_eq_dashed]
    rfl
  | pinned name version =>
    rw [declaration, ← normalName_eq_dashed]
    rfl
  | git name url key version =>
    have hoptions := ofOptions?_git name.text url.text key version.text line
    rw [declaration, ← normalName_eq_dashed]
    simp only [optionValues, List.head?_cons, Payload.ofArgument, Declaration.ofPayload, moduleName,
      hoptions]
    rfl
  | svn name url key version =>
    have hoptions := ofOptions?_svn name.text url.text key version.text line
    rw [declaration, ← normalName_eq_dashed]
    simp only [optionValues, List.head?_cons, Payload.ofArgument, Declaration.ofPayload, moduleName,
      hoptions]
    rfl

end Entry

theorem toList_write (entries : List Entry) :
    (write entries).toList = Syntax.Document.written (entries.map Entry.command) := by
  cases entries with
  | nil => rfl
  | cons entry entries =>
    rw [write, List.map_cons, List.map_cons, Syntax.Document.written]
    induction entries generalizing entry with
    | nil => simp [Entry.toList_write, Syntax.linesWritten]
    | cons other entries ih =>
      have hbreak : "\n".toList = ['\n'] := rfl
      rw [List.map_cons, List.map_cons, String.intercalate_cons_cons, String.toList_append,
        String.toList_append, ih other, Entry.toList_write, Syntax.linesWritten_cons, hbreak,
        List.append_assoc]
      rfl

/-- Reading a written file with a faithful parser, such as that of the program, gives the modules
that were written, each on its line. -/
theorem ofText_write (settings : Settings) (entries : List Entry) :
    Syntax.Parser.IsFaithful Syntax.Document.tree ∧
    ∀ parser : Syntax.Parser, parser.IsFaithful →
      (∃ calls, Syntax.Document.callsBy parser (write entries) = .ok calls) ∧
        Outcome.ofTextBy parser settings (write entries) =
          ⟨entries.mapIdx fun i entry => entry.declaration (i + 1), []⟩ := by
  refine ⟨Syntax.Document.tree_isFaithful, fun parser hparser => ?_⟩
  let commands := entries.map Entry.command
  have hlines : ∀ command ∈ commands, '\n' ∉ command.write := by
    intro command hcommand
    obtain ⟨entry, _, rfl⟩ := List.mem_map.1 hcommand
    exact entry.lineBreak_not_mem_write
  have hwrite : write entries = String.ofList (Syntax.Document.written commands) := by
    rw [← toList_write, String.ofList_toList]
  have hmap : (commands.mapIdx fun i command => command.call (i + 1)) =
      entries.mapIdx fun i entry => entry.command.call (i + 1) := by
    refine List.ext_getElem? fun i => ?_
    rw [List.getElem?_mapIdx, List.getElem?_mapIdx, List.getElem?_map, Option.map_map]
    rfl
  have hcalls : Syntax.Document.callsBy parser (write entries) =
      .ok (entries.mapIdx fun i entry => entry.command.call (i + 1)) := by
    rw [hwrite, Syntax.Document.callsBy_written hparser commands hlines, hmap]
  refine ⟨⟨_, hcalls⟩, ?_⟩
  rw [Outcome.ofTextBy_of_ok hcalls settings, Outcome.ofCalls,
    Outcome.visitAll_mapIdx (fun _ _ => rfl) fun i entry => entry.statement_call settings (i + 1)]
  rfl

/-- A module by its name alone, and one from a repository whose address holds a quote. -/
theorem ofText_write_two_lines :
    let name : ModuleName := ⟨⟨"acme/stdlib", noControls_of_all (by decide)⟩, by decide⟩
    let url : PlainText := ⟨"it's", noControls_of_all (by decide)⟩
    let version : PlainText := ⟨"v1", noControls_of_all (by decide)⟩
    let entries : List Entry := [.newest name, .git name url .tag version]
    write entries = "mod 'acme/stdlib'\nmod 'acme/stdlib', :git => 'it\\'s', :tag => 'v1'" ∧
      Outcome.ofText {} (write entries) =
        ⟨[⟨"acme-stdlib", .forge, none, .latest, 1⟩,
          ⟨"acme-stdlib", .git, some "it's", .exact "v1", 2⟩], []⟩ := by
  intro name url version entries
  obtain ⟨hfaithful, hread⟩ := ofText_write {} entries
  obtain ⟨-, houtcome⟩ := hread Syntax.Document.tree hfaithful
  have hname : Entry.dashed name = "acme-stdlib" := by decide +kernel
  refine ⟨by decide, houtcome.trans ?_⟩
  simp [entries, Entry.declaration, hname, url, version]

end Puppetfile

end PuppetInventory
