import SchemaBindings.CommandLine.Arguments
import SchemaBindings.Notice

/-! The program as a function: from a disk and arguments to what is printed, the exit code, and the
disk afterwards. -/

namespace SchemaBindings.CommandLine

/-- How much a logged line matters. -/
inductive LogLevel where
  | error
  | warn
  | info
deriving DecidableEq, Repr

/-- The name of a level. -/
def LogLevel.name : LogLevel → String
  | .error => "ERROR"
  | .warn => "WARN"
  | .info => "INFO"

/-- A line that is printed; a logged one is given the time. -/
inductive OutputLine where
  | text (s : String)
  | log (level : LogLevel) (s : String)
deriving DecidableEq, Repr

/-- How a run of the program ends. -/
structure Outcome where
  exit : Nat
  output : List OutputLine
  complaint : Option UsageError
  disk : FileTree

/-- What the program calls itself. -/
def versionText : String := "schemagen 0.1.0"

/-- How the program is called. -/
def usageText : List String := [
  "Generate typed, validating Rust parsers from JSON Schema.",
  "",
  "Usage: schemagen [OPTIONS] generate [OPTIONS] <SCHEMAS_DIR>",
  "",
  "  -o, --output <OUTPUT>                    Root of the generated package",
  "      --package-name <PACKAGE_NAME>        Name of the generated package",
  "      --package-version <PACKAGE_VERSION>  Version of the generated package",
  "      --layout <LAYOUT>                    per-type or bundled",
  "      --exclude <EXCLUDE>                  Schema file name to skip",
  "  -v, --verbose                            Enable verbose output",
  "      --config <CONFIG>                    Path to a YAML configuration file",
  "  -h, --help                               Print help",
  "  -V, --version                            Print version"]

/-- Whether a character that is printed may steer a terminal. -/
def steersTerminal (c : Char) : Bool :=
  "\x07\x08\x0c\x1b\x7f".toList.contains c || (0x80 ≤ c.toNat && c.toNat ≤ 0x9f)

/-- A character of a logged text. One that may steer a terminal is spelled out. -/
def loggedChar (c : Char) : List Char :=
  if !steersTerminal c then [c]
  else if c.toNat < 0x80 then
    ['\\', 'x', Nat.digitChar (c.toNat / 16), Nat.digitChar (c.toNat % 16)]
  else Code.codePointEscape c

/-- An error and what it arose from as a logged text. -/
def chainText (chain : List String) : String :=
  String.ofList ((": ".intercalate chain).toList.flatMap loggedChar)

/-- The lines that a finished run prints. -/
def reportLines (r : GenerationReport) : List String :=
  ("Generated " ++ toString r.typeNames.length ++ " type(s) into " ++ r.outputDir.text ++ " (" ++
    r.layout.name ++ " layout, " ++ toString r.files.length ++ " files)") ::
    r.typeNames.map ("  " ++ ·)

/-- The notices that are printed. Without a wish for more only warnings are. -/
def noticeLines (verbosity : Nat) (notices : List Notice) : List OutputLine :=
  notices.filterMap fun n =>
    if n.isWarning then some (.log .warn n.message)
    else if 0 < verbosity then some (.log .info n.message)
    else none

/-- A run that fails before anything happens. -/
def failed (t : FileTree) (chain : List String) : Outcome :=
  ⟨1, [.log .error (chainText chain)], none, t⟩

/-- Runs the generation. -/
def runGenerate (t : FileTree) (verbosity : Nat) (o : GenerateOptions) : Outcome :=
  let notices := noticeLines verbosity (Notice.ofRun t o)
  match generate t o with
  | (t, .ok report) => ⟨0, notices ++ (reportLines report).map .text, none, t⟩
  | (t, .error e) =>
    let chain := ("generating package from " ++ o.schemasDir.text) :: e.chain
    ⟨1, notices ++ [.log .error (chainText chain)], none, t⟩

/-- The settings that an invocation names. -/
def settingsOf (t : FileTree) (g : Globals) : Except ConfigError GenerateConfig :=
  match g.config with
  | some p => GenerateConfig.load t p
  | none => .ok {}

/-- Runs the program as arguments ask for. -/
def invoke (t : FileTree) (i : Invocation) : Outcome :=
  match settingsOf t i.globals with
  | .error e => failed t e.chain
  | .ok settings =>
    match i.request.resolve settings with
    | .error e => failed t e.chain
    | .ok o => runGenerate t i.globals.verbosity o

/-- Runs the program. -/
def run (t : FileTree) (arguments : List String) : Outcome :=
  match readArguments arguments with
  | .ok i => invoke t i
  | .error .help => ⟨0, usageText.map .text, none, t⟩
  | .error .version => ⟨0, [.text versionText], none, t⟩
  | .error (.usage e) => ⟨2, [], some e, t⟩

end SchemaBindings.CommandLine
