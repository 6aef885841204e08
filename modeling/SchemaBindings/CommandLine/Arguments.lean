import SchemaBindings.GenerateConfig

/-! The arguments of the program. They are taken one by one: an option that lacks its value waits
for the next argument, and after two dashes every argument is a word. Settings of the whole program
may stand before or after the command; those after it win. -/

namespace SchemaBindings.CommandLine

/-- An option that takes a value. -/
inductive Opt where
  | config
  | output
  | packageName
  | packageVersion
  | layout
  | exclude
deriving DecidableEq, Repr

/-- An option that takes none. -/
inductive Switch where
  | verbose
  | help
  | version
deriving DecidableEq, Repr

/-- What the arguments so far have led to. -/
inductive Level where
  | program
  | generate
  | help
deriving DecidableEq, Repr

/-- What is wrong with some arguments. -/
inductive UsageError where
  | unknownOption (argument : String)
  | unknownCommand (name : String)
  | missingCommand
  | missingDirectory
  | missingValue (o : Opt)
  | unwantedValue (s : Switch)
  | repeated (o : Opt)
  | emptyPath
  | unknownLayout (name : String)
  | unexpected (argument : String)
deriving DecidableEq, Repr

/-- Why arguments ask for no run. -/
inductive Stop where
  | usage (e : UsageError)
  | help
  | version
deriving DecidableEq, Repr

/-- Settings of the whole program. -/
structure Globals where
  verbosity : Nat := 0
  config : Option Path := none
deriving DecidableEq, Repr

/-- Settings at a command over those before it. -/
def Globals.over (inner outer : Globals) : Globals where
  verbosity := if inner.verbosity = 0 then outer.verbosity else inner.verbosity
  config := inner.config.or outer.config

/-- A run that arguments ask for. -/
structure Invocation where
  globals : Globals
  request : GenerateRequest
deriving DecidableEq, Repr

/-- The arguments that were taken so far. -/
structure Draft where
  level : Level := .program
  pending : Option Opt := none
  wordsOnly : Bool := false
  outer : Globals := {}
  globals : Globals := {}
  directory : Option Path := none
  request : GenerateRequest := { schemasDir := ⟨""⟩ }
  topics : List String := []

/-- A step of taking arguments. -/
abbrev Taken := Except Stop

/-- Stops at an error. -/
def fail {α : Type} (e : UsageError) : Taken α := .error (.usage e)

/-- The long names of options with values, and whether they belong to the whole program. -/
def optNames : List (String × Opt × Bool) := [
  ("config", .config, true), ("output", .output, false), ("package-name", .packageName, false),
  ("package-version", .packageVersion, false), ("layout", .layout, false),
  ("exclude", .exclude, false)]

/-- The long names of options without values, and whether they may follow a command. -/
def switchNames : List (String × Switch × Bool) :=
  [("verbose", .verbose, true), ("help", .help, true), ("version", .version, false)]

/-- The option with a value that has a long name. -/
def optNamed? (level : Level) (name : String) : Option Opt :=
  match optNames.lookup name with
  | some (o, isGlobal) => if isGlobal || level = .generate then some o else none
  | none => none

/-- The option without a value that has a long name. -/
def switchNamed? (level : Level) (name : String) : Option Switch :=
  match switchNames.lookup name with
  | some (s, everywhere) => if everywhere || level = .program then some s else none
  | none => none

/-- The options behind the letters of a short argument. -/
def letters : List (Char × String) :=
  [('v', "verbose"), ('h', "help"), ('V', "version"), ('o', "output")]

namespace Draft

/-- A path that was given as a value. It may not be empty. -/
def pathOf (value : String) : Taken Path :=
  if value.isEmpty then fail .emptyPath else .ok ⟨value⟩

/-- A layout that was given as a value. -/
def layoutOf (value : String) : Taken PackageLayout :=
  match PackageLayout.ofName? value with
  | some l => .ok l
  | none => fail (.unknownLayout value)

/-- Fills a place that can be filled once. -/
def once {α : Type} (o : Opt) (old : Option α) (new : Taken α) : Taken (Option α) :=
  if old.isSome then fail (.repeated o) else new.map some

/-- Gives an option its value. -/
def assign (d : Draft) (o : Opt) (value : String) : Taken Draft := do
  let d := { d with pending := none }
  let r := d.request
  match o with
  | .config =>
    let p ← once o d.globals.config (pathOf value)
    return { d with globals := { d.globals with config := p } }
  | .output =>
    let p ← once o r.output (pathOf value)
    return { d with request := { r with output := p } }
  | .packageName =>
    let name ← once o r.packageName (.ok value)
    return { d with request := { r with packageName := name } }
  | .packageVersion =>
    let version ← once o r.packageVersion (.ok value)
    return { d with request := { r with packageVersion := version } }
  | .layout =>
    let l ← once o r.layout (layoutOf value)
    return { d with request := { r with layout := l } }
  | .exclude => return { d with request := { r with exclude := r.exclude ++ [value] } }

/-- Acts on an option without a value. -/
def turnOn (d : Draft) : Switch → Taken Draft
  | .verbose =>
    .ok { d with globals := { d.globals with verbosity := d.globals.verbosity + 1 } }
  | .help => .error .help
  | .version => .error .version

/-- Takes an option by its long name. A value may follow it behind an equals sign. -/
def takeLong (d : Draft) (argument : String) : Taken Draft :=
  let cs := argument.toList.drop 2
  let name := String.ofList (cs.takeWhile (· ≠ '='))
  let attached := cs.dropWhile (· ≠ '=')
  match switchNamed? d.level name, optNamed? d.level name with
  | some s, _ => if attached.isEmpty then d.turnOn s else fail (.unwantedValue s)
  | none, some o =>
    if attached.isEmpty then .ok { d with pending := some o }
    else d.assign o (String.ofList (attached.drop 1))
  | none, none => fail (.unknownOption argument)

/-- The value that follows a letter in the same argument. -/
def attachedValue (cs : List Char) : String :=
  String.ofList (if cs.head? = some '=' then cs.drop 1 else cs)

/-- Takes options by their letters. The first that takes a value ends the row. -/
def takeLetters (d : Draft) (argument : String) : List Char → Taken Draft
  | [] => .ok d
  | c :: rest =>
    let name := (letters.lookup c).getD ""
    match switchNamed? d.level name, optNamed? d.level name with
    | some s, _ =>
      match d.turnOn s with
      | .ok d => takeLetters d argument rest
      | .error e => .error e
    | none, some o =>
      if rest.isEmpty then .ok { d with pending := some o } else d.assign o (attachedValue rest)
    | none, none => fail (.unknownOption argument)

/-- Takes a command, a directory or a topic. -/
def takeWord (d : Draft) (word : String) : Taken Draft :=
  match d.level with
  | .help => .ok { d with topics := d.topics ++ [word] }
  | .generate =>
    if d.directory.isSome then fail (.unexpected word)
    else (pathOf word).map fun p => { d with directory := some p }
  | .program =>
    if d.wordsOnly then fail (.unexpected word)
    else if word = "generate" then
      .ok { d with level := .generate, outer := d.globals, globals := {} }
    else if word = "help" then .ok { d with level := .help }
    else fail (.unknownCommand word)

/-- Whether an argument is made of letters behind a dash. A dash alone is a word. -/
def isLetters (argument : String) : Bool :=
  argument.toList.head? = some '-' && 1 < argument.length

/-- Takes an option; none may be waiting for its value. -/
def takeOption (d : Draft) (argument : String) : Taken Draft :=
  match d.pending with
  | some o => fail (.missingValue o)
  | none =>
    if argument = "--" then .ok { d with wordsOnly := true }
    else if "--".toList.isPrefixOf argument.toList then d.takeLong argument
    else d.takeLetters argument (argument.toList.drop 1)

/-- Takes an argument. -/
def take (d : Draft) (argument : String) : Taken Draft :=
  if d.wordsOnly || d.level = .help then d.takeWord argument
  else if isLetters argument then d.takeOption argument
  else match d.pending with
    | some o => d.assign o argument
    | none => d.takeWord argument

/-- Whether help can be given on some topics. -/
def areTopics (topics : List String) : Bool :=
  topics.isEmpty || topics = ["generate"] || topics = ["help"]

/-- What the arguments ask for when there are no more of them. -/
def finish (d : Draft) : Taken Invocation :=
  match d.pending, d.level, d.directory with
  | some o, _, _ => fail (.missingValue o)
  | none, .program, _ => fail .missingCommand
  | none, .help, _ =>
    if areTopics d.topics then .error .help else fail (.unknownCommand (" ".intercalate d.topics))
  | none, .generate, none => fail .missingDirectory
  | none, .generate, some dir =>
    .ok ⟨d.globals.over d.outer, { d.request with schemasDir := dir }⟩

end Draft

/-- Reads the arguments of the program. -/
def readArguments (arguments : List String) : Taken Invocation := do
  let d ← arguments.foldlM Draft.take {}
  d.finish

/-- The option as it is written. -/
def Opt.spelling : Opt → String
  | .config => "--config"
  | .output => "--output"
  | .packageName => "--package-name"
  | .packageVersion => "--package-version"
  | .layout => "--layout"
  | .exclude => "--exclude"

/-- The option as it is written. -/
def Switch.spelling : Switch → String
  | .verbose => "--verbose"
  | .help => "--help"
  | .version => "--version"

/-- The error as a sentence. -/
def UsageError.message : UsageError → String
  | .unknownOption argument => "unexpected argument " ++ argument
  | .unknownCommand name => "unrecognized subcommand " ++ name
  | .missingCommand => "a subcommand is required"
  | .missingDirectory => "a directory of schemas is required"
  | .missingValue o => "a value is required for " ++ o.spelling
  | .unwantedValue s => "no value is allowed for " ++ s.spelling
  | .repeated o => o.spelling ++ " cannot be used multiple times"
  | .emptyPath => "a path must not be empty"
  | .unknownLayout name => PackageLayout.unknownMessage name
  | .unexpected argument => "unexpected argument " ++ argument

end SchemaBindings.CommandLine
