import SchemaBindings.Generation

/-! What a run tells on its way. -/

namespace SchemaBindings

/-- A step of a run that is worth telling. -/
inductive Notice where
  | nameSkipped (path : Path)
  | loaded (dir : Path) (count : Nat)
  | planning (count : Nat) (layout : PackageLayout)
  | bundled (members : Nat)
  | generated (files : Nat) (dir : Path)
deriving DecidableEq, Repr

namespace Notice

/-- Whether something may be amiss. -/
def isWarning : Notice → Bool
  | .nameSkipped _ => true
  | _ => false

/-- The notice as a line. -/
def message : Notice → String
  | .nameSkipped path => "skipping file with non UTF-8 name path=" ++ path.text
  | .loaded dir count => "schemas loaded dir=" ++ dir.text ++ " count=" ++ toString count
  | .planning count layout =>
    "planning generated package count=" ++ toString count ++ " layout=" ++ layout.name
  | .bundled members => "bundled schemas members=" ++ toString members
  | .generated files dir =>
    "generated package files=" ++ toString files ++ " output=" ++ dir.text

/-- The files of a directory whose names are no text. -/
def skippedNames (t : FileTree) (dir : Path) : List Notice :=
  match t.list dir with
  | .error _ => []
  | .ok entries => entries.filterMap fun
    | (.bytes bs, .file _) => some (.nameSkipped (dir.join (Text.Utf8.lossy bs)))
    | _ => none

/-- What is told of a bundle. -/
def ofBundle (t : FileTree) (layout : PackageLayout) (documents : List SchemaDocument) :
    List Notice :=
  match layout, Bundle.ofDocuments t documents with
  | .bundled, .ok b => [.bundled b.size]
  | _, _ => []

/-- What is told while a run is planned. -/
def ofPlanning (t : FileTree) (o : GenerateOptions) : List Notice :=
  match loadSchemas t o.schemasDir o.exclude with
  | .error _ => []
  | .ok documents =>
    .loaded o.schemasDir documents.length :: match typesOfDocuments documents with
      | .error _ => []
      | .ok types => .planning types.size o.layout :: ofBundle t o.layout documents

/-- What is told when a run is over. -/
def ofOutcome (r : Except GenerationError GenerationReport) : List Notice :=
  match r with
  | .ok report => [.generated report.files.length report.outputDir]
  | .error _ => []

/-- Everything that a run tells, in order. -/
def ofRun (t : FileTree) (o : GenerateOptions) : List Notice :=
  skippedNames t o.schemasDir ++ ofPlanning t o ++ ofOutcome (generate t o).2

end Notice

end SchemaBindings
