/-!
Options and positional values of a command: how they are told apart, and what is wrong with an
argument that fits nowhere. A value that comes as an argument of its own is judged only when the
next option is reached.
-/

namespace PuppetInventory.CommandLine

inductive UsageError where
  | unexpectedArgument (argument : String)
  | unrecognizedCommand (name : String)
  | missingArguments
  | missingValue (option : String)
  | invalidValue (value option reason : String)
  | unexpectedValue (value option : String)
  | repeatedArgument (option : String)
deriving Repr, DecidableEq, Inhabited

def UsageError.message : UsageError → String
  | .unexpectedArgument argument => "error: unexpected argument '" ++ argument ++ "' found"
  | .unrecognizedCommand name => "error: unrecognized subcommand '" ++ name ++ "'"
  | .missingArguments => "error: the following required arguments were not provided:"
  | .missingValue option =>
    "error: a value is required for '" ++ option ++ "' but none was supplied"
  | .invalidValue value option reason =>
    "error: invalid value '" ++ value ++ "' for '" ++ option ++ "': " ++ reason
  | .unexpectedValue value option =>
    "error: unexpected value '" ++ value ++ "' for '" ++ option ++
      "' found; no more were expected"
  | .repeatedArgument option =>
    "error: the argument '" ++ option ++ "' cannot be used multiple times"

/-- What an option takes. -/
inductive ValueRule where
  /-- Nothing: the option is a switch. -/
  | none
  | text
  /-- Text that commas divide into several values; the option can be repeated. -/
  | list
  /-- Text that is not empty. -/
  | path
  /-- Text that a check accepts, or refuses for a reason. -/
  | checked (check : String → Option String)
  /-- Nothing, and the command stops to tell about itself. -/
  | stop

structure OptionRule where
  /-- The name under which the values are found. -/
  name : String
  short : Option Char
  long : Option String
  /-- How the option is shown in messages. -/
  shown : String
  value : ValueRule

def OptionRule.takesValue (rule : OptionRule) : Bool :=
  match rule.value with
  | .none => false
  | .stop => false
  | _ => true

def OptionRule.isList (rule : OptionRule) : Bool :=
  match rule.value with
  | .list => true
  | _ => false

structure CommandRules where
  options : List OptionRule
  positionals : List OptionRule

/-- What has been read of the arguments. -/
structure Reading where
  /-- The values of each option, in the order of the arguments. -/
  given : List (String × List String)
  /-- An option whose values have not been judged yet. -/
  pending : Option (OptionRule × List String)
  positionals : Nat
  /-- Whether all further arguments are positional. -/
  escaped : Bool
  /-- The option that stops the command, if one was given. -/
  stopped : Option String

namespace Reading

def start : Reading where
  given := []
  pending := none
  positionals := 0
  escaped := false
  stopped := none

def values? (reading : Reading) (name : String) : Option (List String) :=
  match (reading.given.filter fun entry => entry.1 = name).map (·.2) with
  | [] => none
  | found => some found.flatten

def value? (reading : Reading) (name : String) : Option String :=
  (reading.values? name).bind List.head?

def isGiven (reading : Reading) (name : String) : Bool :=
  reading.given.any fun entry => entry.1 = name

end Reading

def splitCommas : List Char → List (List Char)
  | [] => [[]]
  | c :: rest =>
    match splitCommas rest with
    | [] => [[c]]
    | part :: others => if c = ',' then [] :: part :: others else (c :: part) :: others

def judgeValue (rule : OptionRule) (value : String) : Except UsageError (List String) :=
  match rule.value with
  | .list => .ok ((splitCommas value.toList).map String.ofList)
  | .path => if value = "" then .error (.missingValue rule.shown) else .ok [value]
  | .checked check =>
    match check value with
    | some reason => .error (.invalidValue value rule.shown reason)
    | none => .ok [value]
  | _ => .ok [value]

/-- Takes an option with its values. -/
def take (reading : Reading) (rule : OptionRule) (values : List String) :
    Except UsageError Reading := do
  if rule.takesValue && values.isEmpty then .error (.missingValue rule.shown)
  else if reading.isGiven rule.name && !rule.isList then .error (.repeatedArgument rule.shown)
  else
    let judged ← values.mapM (judgeValue rule)
    .ok { reading with given := reading.given ++ [(rule.name, judged.flatten)] }

/-- Judges the option that is pending. -/
def settle (reading : Reading) : Except UsageError Reading :=
  match reading.pending with
  | none => .ok reading
  | some (rule, values) => take { reading with pending := none } rule values

def takeSwitch (reading : Reading) (rule : OptionRule) : Except UsageError Reading := do
  let reading ← settle reading
  match rule.value with
  | .stop => .ok { reading with stopped := some rule.name }
  | _ => take reading rule []

/-- An option that takes a value, which may be attached to it. -/
def takeOption (reading : Reading) (rule : OptionRule) (attached : Option String) :
    Except UsageError Reading := do
  let reading ← settle reading
  match attached with
  | some value => take reading rule [value]
  | none => .ok { reading with pending := some (rule, []) }

def takeLong (rules : CommandRules) (reading : Reading) (name : String)
    (attached : Option String) : Except UsageError Reading :=
  match rules.options.find? fun rule => rule.long = some name, attached with
  | none, _ => .error (.unexpectedArgument ("--" ++ name))
  | some rule, attached =>
    if rule.takesValue then takeOption reading rule attached
    else
      match attached with
      | some value => .error (.unexpectedValue value rule.shown)
      | none => takeSwitch reading rule

/-- A group of short options. The rest of the group is the value of the first one that takes a
value. -/
def takeShorts (rules : CommandRules) : Reading → List Char → Except UsageError Reading
  | reading, [] => .ok reading
  | reading, c :: rest =>
    match rules.options.find? fun rule => rule.short = some c with
    | none => .error (.unexpectedArgument (String.ofList ['-', c]))
    | some rule =>
      if rule.takesValue then
        match rest with
        | [] => takeOption reading rule none
        | '=' :: value => takeOption reading rule (some (String.ofList value))
        | value => takeOption reading rule (some (String.ofList value))
      else do
        let reading ← takeSwitch reading rule
        if reading.stopped.isSome then .ok reading else takeShorts rules reading rest

def takePositional (rules : CommandRules) (reading : Reading) (value : String) :
    Except UsageError Reading :=
  match rules.positionals[reading.positionals]? with
  | none => .error (.unexpectedArgument value)
  | some rule => do
    let reading ← settle reading
    .ok
      { reading with
        pending := some (rule, [value])
        positionals := reading.positionals + 1 }

def awaitsValue (reading : Reading) : Option OptionRule :=
  match reading.pending with
  | some (rule, []) => some rule
  | _ => none

def takeArgument (rules : CommandRules) (reading : Reading) (argument : String) :
    Except UsageError Reading :=
  if reading.escaped then takePositional rules reading argument
  else
    match argument.toList with
    | ['-', '-'] => .ok { reading with escaped := true }
    | '-' :: '-' :: option =>
      let name := option.takeWhile (· ≠ '=')
      let attached :=
        if name.length < option.length then some (String.ofList (option.drop (name.length + 1)))
        else none
      takeLong rules reading (String.ofList name) attached
    | '-' :: c :: rest => takeShorts rules reading (c :: rest)
    | _ =>
      match awaitsValue reading with
      | some rule => .ok { reading with pending := some (rule, [argument]) }
      | none => takePositional rules reading argument

/-- Reads the arguments of a command up to an option that stops it. -/
def takeArguments (rules : CommandRules) : Reading → List String → Except UsageError Reading
  | reading, [] => settle reading
  | reading, argument :: rest => do
    let reading ← takeArgument rules reading argument
    if reading.stopped.isSome then .ok reading else takeArguments rules reading rest

end PuppetInventory.CommandLine
