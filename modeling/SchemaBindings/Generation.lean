import SchemaBindings.Plan

/-! Runs that write a package. Files are written in the order of the plan, and the first that
cannot be written stops the run; what was written before it stays. -/

namespace SchemaBindings

/-- What a finished run has to tell. -/
structure GenerationReport where
  outputDir : Path
  layout : PackageLayout
  typeNames : List String
  files : List String
deriving DecidableEq, Repr

section

variable {δ : Type} [Disk δ]

/-- Writes a file below a directory, after the directories that it needs. -/
def writeArtifact (d : δ) (dir : Path) (a : Artifact) : δ × Except GenerationError Unit :=
  let path := dir.join a.path
  let (d, made) := match path.parent? with
    | some above =>
      let (d, r) := Disk.ensureDirectories d above
      (d, r.mapError (GenerationError.unwritable above))
    | none => (d, .ok ())
  match made with
  | .error e => (d, .error e)
  | .ok () =>
    let (d, written) := Disk.writeText d path a.text
    (d, written.mapError (GenerationError.unwritable path))

/-- Writes files below a directory, in order. -/
def writeArtifacts (d : δ) (dir : Path) : List Artifact → δ × Except GenerationError Unit
  | [] => (d, .ok ())
  | a :: rest =>
    match writeArtifact d dir a with
    | (d, .error e) => (d, .error e)
    | (d, .ok ()) => writeArtifacts d dir rest

/-- Writes a package that is planned from a source of schemas. Nothing is written unless the plan
stands. -/
def generateFrom (judge : SchemaJudge) (source : SchemaSource) (d : δ) (o : GenerateOptions) :
    δ × Except GenerationError GenerationReport :=
  match Plan.ofSource judge source o with
  | .error e => (d, .error e)
  | .ok plan =>
    let (d, written) := writeArtifacts d o.outputDir plan.artifacts
    (d, written.map fun () =>
      ⟨o.outputDir, plan.layout, plan.typeNames, plan.artifacts.map (·.path)⟩)

end

/-- Writes a package with a judge of schemas, to the tree that the schemas are read from. -/
def generateWithJudge (judge : SchemaJudge) (t : FileTree) (o : GenerateOptions) :
    FileTree × Except GenerationError GenerationReport :=
  generateFrom judge (.ofTree t o) t o

/-- Writes a package. -/
def generate (t : FileTree) (o : GenerateOptions) :
    FileTree × Except GenerationError GenerationReport :=
  generateWithJudge .standard t o

end SchemaBindings
