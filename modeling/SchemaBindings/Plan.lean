import SchemaBindings.BundledParser
import SchemaBindings.PackageFiles
import SchemaBindings.ParserModule
import SchemaBindings.ResultModule
import SchemaBindings.SchemaJudge

/-! Everything that a run is to write, worked out before anything is written. A fault in one schema
stops the whole run, and of several faults the one in the first schema is told. -/

namespace SchemaBindings

/-- What a run is asked to do. -/
structure GenerateOptions where
  schemasDir : Path
  outputDir : Path := ⟨"generated/rust"⟩
  layout : PackageLayout := .perType
  packageName : String := "schemas"
  packageVersion : String := "0.1.0"
  exclude : List String := []
deriving DecidableEq, Repr

/-- Where the schemas of a plan come from: the loaded files, of which there is one at least, how one
of them is freed of references, and how they are bundled. -/
structure SchemaSource where
  documents : Except GenerationError (List SchemaDocument)
  dereference : SchemaDocument → Except GenerationError Json
  bundle : List SchemaDocument → Except GenerationError Bundle
  documents_ne_nil : ∀ ds, documents = .ok ds → ds ≠ []

/-- The schemas of a directory. -/
def SchemaSource.ofTree (t : FileTree) (o : GenerateOptions) : SchemaSource where
  documents := loadSchemas t o.schemasDir o.exclude
  dereference := dereferenceDocument t
  bundle := Bundle.ofDocuments t
  documents_ne_nil _ := loadSchemas_ne_nil

/-- The files of a package, in the order in which they are written. -/
structure Plan where
  layout : PackageLayout
  typeNames : List String
  artifacts : List Artifact
deriving DecidableEq, Repr

namespace Plan

/-- Takes a result that only lacks when schemas are endless. -/
def orEndless {α : Type} : Option α → Except GenerationError α
  | some a => .ok a
  | none => .error .endless

/-- The files of a type, given its schema without references. -/
def typeFiles (judge : SchemaJudge) (d : TypeDescriptor) (schema : Json) :
    Except GenerationError (List Artifact) :=
  if judge.compiles schema then do
    let types ← orEndless (TypeModule.ofSchema d.canonicalName schema)
    return [types, ParserModule.ofSchema d.canonicalName schema,
      PackageFiles.schemaCopy d.canonicalName schema]
  else .error (.invalidSchema d.sourceFileName)

/-- The files of all types, one type after the other. -/
def perTypeFiles (judge : SchemaJudge) (source : SchemaSource) (documents : List SchemaDocument)
    (types : TypeSet) : Except GenerationError (List Artifact) := do
  let files ← (documents.zip types.descriptors).mapM fun (document, d) => do
    typeFiles judge d (← source.dereference document)
  return files.flatten

/-- A bundle as the schema of one of its members. -/
def rootedAt (b : Bundle) (m : BundleMember) : Json :=
  match b.document with
  | .object ms => .object (OrderedMap.insert ms "$ref" (.string m.reference))
  | v => v

/-- Whether a member is a schema when it is looked at alone. -/
def admitsMember (judge : SchemaJudge) (b : Bundle) (m : BundleMember) : Bool :=
  match b.schema? m.key with
  | some v => judge.admits v
  | none => true

/-- The first member that no validator can be made for. That all members are schemas comes first,
because the bundle as a whole is none if one of them is not. -/
def unfitMember? (judge : SchemaJudge) (b : Bundle) : Option BundleMember :=
  (b.members.find? fun m => !admitsMember judge b m).or
    (b.members.find? fun m => !judge.compiles (rootedAt b m))

/-- The files of a bundle. -/
def bundledFiles (judge : SchemaJudge) (source : SchemaSource) (documents : List SchemaDocument) :
    Except GenerationError (List Artifact) := do
  let b ← source.bundle documents
  match unfitMember? judge b with
  | some m => throw (.invalidSchema m.fileName)
  | none =>
    let types ← orEndless (TypeModule.ofBundle b)
    let parsers ← orEndless (BundledParser.ofBundle b)
    return [types, parsers, PackageFiles.bundledSchema b]

/-- The files that depend on the schemas. -/
def schemaFiles (judge : SchemaJudge) (source : SchemaSource) (layout : PackageLayout)
    (documents : List SchemaDocument) (types : TypeSet) :
    Except GenerationError (List Artifact) :=
  match layout with
  | .perType => perTypeFiles judge source documents types
  | .bundled => bundledFiles judge source documents

/-- Plans a run from a source of schemas. Of the options, the source has the place of the schemas and
the excluded names. -/
def ofSource (judge : SchemaJudge) (source : SchemaSource) (o : GenerateOptions) :
    Except GenerationError Plan := do
  let documents ← source.documents
  let types ← typesOfDocuments documents
  let entries := types.canonicalNames.map ManifestEntry.ofCanonical
  let files ← schemaFiles judge source o.layout documents types
  return {
    layout := o.layout
    typeNames := entries.map (·.typeName)
    artifacts :=
      [PackageFiles.packageFile o.packageName o.packageVersion, ResultModule.artifact] ++ files ++
        Manifest.artifacts o.layout entries ++ [PackageFiles.readme o.packageName o.layout entries]
  }

/-- Plans a run with a judge of schemas. -/
def withJudge (judge : SchemaJudge) (t : FileTree) (o : GenerateOptions) :
    Except GenerationError Plan :=
  ofSource judge (.ofTree t o) o

/-- Plans a run. -/
def ofOptions (t : FileTree) (o : GenerateOptions) : Except GenerationError Plan :=
  withJudge .standard t o

end Plan

end SchemaBindings
