import SchemaBindings.Error
import SchemaBindings.Json.Value
import SchemaBindings.Naming

/-! The types of a run. No two of them may have one name, nor may the files that are written for
them, whose names are in lower case. -/

namespace SchemaBindings

/-- A schema file and the type that it stands for. -/
structure TypeDescriptor where
  sourceFileName : String
  canonicalName : String
  schema : Json

namespace TypeDescriptor

/-- The type that a schema file stands for. -/
def ofFile (fileName : String) (schema : Json) : TypeDescriptor :=
  ⟨fileName, SchemaBindings.canonicalName fileName, schema⟩

/-- The stem of the schema file. -/
def stem (d : TypeDescriptor) : String := schemaStem d.sourceFileName

/-- The stem of the files that are written for the type. -/
def fileStem (d : TypeDescriptor) : String := moduleFileStem d.canonicalName

end TypeDescriptor

/-- Types in the order in which their files were found. -/
structure TypeSet where
  descriptors : List TypeDescriptor

namespace TypeSet

/-- What is wrong with a type that comes after some others. -/
def conflict? (earlier : List TypeDescriptor) (d : TypeDescriptor) : Option GenerationError :=
  if d.canonicalName.isEmpty then some (.emptyName d.sourceFileName)
  else match earlier.find? (·.canonicalName = d.canonicalName) with
    | some first => some (.duplicateName d.canonicalName first.sourceFileName d.sourceFileName)
    | none =>
      (earlier.find? (·.fileStem = d.fileStem)).map fun first =>
        .duplicateName d.fileStem first.sourceFileName d.sourceFileName

/-- The first type that has no name or collides with one before it. -/
def firstConflict? (earlier : List TypeDescriptor) :
    List TypeDescriptor → Option GenerationError
  | [] => none
  | d :: rest =>
    match conflict? earlier d with
    | some e => some e
    | none => firstConflict? (earlier ++ [d]) rest

/-- Takes types in the given order if their names are fit. -/
def ofList (ds : List TypeDescriptor) : Except GenerationError TypeSet :=
  match firstConflict? [] ds with
  | some e => .error e
  | none => .ok ⟨ds⟩

/-- How many types there are. -/
def size (s : TypeSet) : Nat := s.descriptors.length

/-- Whether there is no type. -/
def isEmpty (s : TypeSet) : Bool := s.descriptors.isEmpty

/-- The names of the types. -/
def canonicalNames (s : TypeSet) : List String := s.descriptors.map (·.canonicalName)

/-- The type whose file has a stem. -/
def byStem? (s : TypeSet) (stem : String) : Option TypeDescriptor :=
  s.descriptors.find? (·.stem = stem)

end TypeSet

end SchemaBindings
