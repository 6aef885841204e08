import SchemaBindings.FileTree
import SchemaBindings.Plan
import SchemaBindings.Yaml.Document

/-! Settings from a file. What a caller asks for goes over what the file says, and what neither of
them says keeps its default. -/

namespace SchemaBindings

/-- The settings in a file. -/
structure GenerateConfig where
  output : Option Path := none
  packageName : Option String := none
  packageVersion : Option String := none
  layout : Option String := none
  exclude : List String := []
deriving DecidableEq, Repr

/-- Why there are no settings to be had from a file. -/
inductive ConfigError where
  | unreadable (path : Path) (cause : DiskError)
  | malformed (path : Path)
deriving DecidableEq, Repr

namespace ConfigError

/-- What is said of a text that holds no settings. -/
def malformedText : String := "parsing configuration YAML"

/-- The error as a phrase. -/
def message : ConfigError → String
  | .unreadable path _ => "reading configuration file: " ++ path.text
  | .malformed path => "in " ++ path.text

/-- The phrase, followed by the causes it arose from. -/
def chain (e : ConfigError) : List String :=
  e.message :: match e with
    | .unreadable _ cause => [cause.message]
    | .malformed _ => [malformedText]

end ConfigError

namespace GenerateConfig

/-- A text. -/
def text? (d : Yaml.Document) (n : Yaml.Node) : Option String := (d.resolve? n).bind (·.text?)

/-- A text that may be missing. -/
def optionalText? (d : Yaml.Document) (n : Yaml.Node) : Option (Option String) :=
  (d.resolve? n).bind (·.optionalText?)

/-- A list of texts. A value that was left out is the empty list, but a null is none. -/
def texts? (d : Yaml.Document) (n : Yaml.Node) : Option (List String) :=
  match d.resolve? n with
  | some (.sequence items) => items.mapM (text? d)
  | some n => if n.isEmpty then some [] else none
  | none => none

/-- The settings with one more. -/
def set? (d : Yaml.Document) (c : GenerateConfig) (key : String) (v : Yaml.Node) :
    Option GenerateConfig :=
  match key with
  | "output" => (optionalText? d v).map fun s => { c with output := s.map Path.mk }
  | "package_name" => (optionalText? d v).map fun s => { c with packageName := s }
  | "package_version" => (optionalText? d v).map fun s => { c with packageVersion := s }
  | "layout" => (optionalText? d v).map fun s => { c with layout := s }
  | "exclude" => (texts? d v).map fun names => { c with exclude := names }
  | _ => none

/-- The settings that some pairs make. No key may come twice. -/
def ofPairs? (d : Yaml.Document) (pairs : List (Yaml.Node × Yaml.Node)) :
    Option GenerateConfig := do
  let keys ← pairs.mapM fun pair => text? d pair.1
  guard keys.Nodup
  (keys.zip (pairs.map (·.2))).foldlM (fun c (key, v) => set? d c key v) {}

/-- The settings that a document makes. A document without content makes none. -/
def ofDocument? (d : Yaml.Document) : Option GenerateConfig :=
  match d.root with
  | .mapping pairs => ofPairs? d pairs
  | n => if n.isEmpty then some {} else none

/-- The settings that a text makes. -/
def ofText? (text : String) : Option GenerateConfig :=
  if (Text.trim text.toList).isEmpty then some {} else (Yaml.Document.ofText? text).bind ofDocument?

/-- The settings in a file. -/
def load (t : FileTree) (p : Path) : Except ConfigError GenerateConfig :=
  match t.readText p with
  | .error cause => .error (.unreadable p cause)
  | .ok text =>
    match ofText? text with
    | some c => .ok c
    | none => .error (.malformed p)

end GenerateConfig

/-- What a caller asks for. -/
structure GenerateRequest where
  schemasDir : Path
  output : Option Path := none
  packageName : Option String := none
  packageVersion : Option String := none
  layout : Option PackageLayout := none
  exclude : List String := []
deriving DecidableEq, Repr

/-- The settings name a layout that does not exist. -/
structure UnknownLayout where
  name : String
deriving DecidableEq, Repr

/-- The error as a phrase, and what it arose from. -/
def UnknownLayout.chain (e : UnknownLayout) : List String :=
  ["invalid layout in configuration file", PackageLayout.unknownMessage e.name]

namespace GenerateRequest

/-- The layout of a run: that of the request, then that of the settings. -/
def layoutWith (r : GenerateRequest) (c : GenerateConfig) :
    Except UnknownLayout (Option PackageLayout) :=
  match r.layout, c.layout with
  | some l, _ => .ok (some l)
  | none, none => .ok none
  | none, some name =>
    match PackageLayout.ofName? name with
    | some l => .ok (some l)
    | none => .error ⟨name⟩

/-- What a run is asked to do when settings stand behind the request. The request's names of files
to leave out replace those of the settings. -/
def resolve (r : GenerateRequest) (c : GenerateConfig) : Except UnknownLayout GenerateOptions :=
  let base : GenerateOptions := { schemasDir := r.schemasDir }
  (r.layoutWith c).map fun layout =>
    { base with
      outputDir := (r.output.or c.output).getD base.outputDir
      packageName := (r.packageName.or c.packageName).getD base.packageName
      packageVersion := (r.packageVersion.or c.packageVersion).getD base.packageVersion
      layout := layout.getD base.layout
      exclude := if r.exclude.isEmpty then c.exclude else r.exclude }

end GenerateRequest

end SchemaBindings
