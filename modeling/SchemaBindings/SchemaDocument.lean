import SchemaBindings.DocumentCache
import SchemaBindings.Naming
import SchemaBindings.TypeSet

/-! The schema files of a directory. Only the directory itself is looked at, not those below it,
and its files are taken in the order of their names. -/

namespace SchemaBindings

/-- A schema with the path it was read from. -/
structure SchemaDocument where
  fileName : String
  path : Path
  value : Json

namespace SchemaDocument

/-- A schema that is read from a path. A path without a file name gives an empty name. -/
def ofPath (p : Path) (v : Json) : SchemaDocument := ⟨p.fileName?.getD "", p, v⟩

end SchemaDocument

/-- The name of an entry that is a schema file to be taken. -/
def schemaFileName? (exclude : List String) : EntryName × Entry → Option String
  | (.text name, .file _) =>
    if isSchemaFileName name && !exclude.contains name then some name else none
  | _ => none

/-- Sorts texts by code points. -/
def sortTexts (names : List String) : List String :=
  names.mergeSort fun a b => decide (a ≤ b)

/-- The schema files of a directory, in the order of their names. -/
def discoverSchemas (t : FileTree) (dir : Path) (exclude : List String) :
    Except GenerationError (List Path) :=
  match t.list dir with
  | .error cause => .error (.unreadable dir cause)
  | .ok entries => .ok ((sortTexts (entries.filterMap (schemaFileName? exclude))).map dir.join)

/-- Reads a schema file. -/
def loadDocument (t : FileTree) (p : Path) : Except GenerationError SchemaDocument :=
  let d := SchemaDocument.ofPath p .null
  match readDocument t p with
  | .error (.disk cause) => .error (.unreadable p cause)
  | .error (.syntaxError cause) => .error (.malformed d.fileName cause)
  | .ok v => .ok { d with value := v }

/-- Reads the schema files of a directory, of which there has to be one. -/
def loadSchemas (t : FileTree) (dir : Path) (exclude : List String) :
    Except GenerationError (List SchemaDocument) :=
  match discoverSchemas t dir exclude with
  | .error e => .error e
  | .ok [] => .error (.noSchemas dir)
  | .ok paths => paths.mapM (loadDocument t)

theorem loadSchemas_ne_nil {t : FileTree} {dir : Path} {exclude : List String}
    {documents : List SchemaDocument} (h : loadSchemas t dir exclude = .ok documents) :
    documents ≠ [] := by
  unfold loadSchemas at h
  split at h
  · cases h
  · cases h
  · rename_i paths hne _
    obtain ⟨p, rest, rfl⟩ := List.exists_cons_of_ne_nil fun hnil => hne hnil
    rw [List.mapM_cons] at h
    rintro rfl
    cases hp : loadDocument t p with
    | error e =>
      rw [hp] at h
      cases h
    | ok d =>
      rw [hp] at h
      cases hrest : rest.mapM (loadDocument t) with
      | error e => simp [hrest, bind, Except.bind] at h
      | ok ds => simp [hrest, bind, Except.bind, pure, Except.pure] at h

/-- The types that loaded documents stand for, in their order. -/
def typesOfDocuments (documents : List SchemaDocument) : Except GenerationError TypeSet :=
  TypeSet.ofList (documents.map fun d => TypeDescriptor.ofFile d.fileName d.value)

end SchemaBindings
