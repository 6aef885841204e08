import SchemaBindings.FileTree
import SchemaBindings.Json.Reader

/-! What can go wrong in a run, and how it is told. -/

namespace SchemaBindings

/-- Why a reference is of a kind that is not followed. -/
inductive UnsupportedReference where
  | remote
  | anchor
deriving DecidableEq, Repr

/-- The reason as a phrase. -/
def UnsupportedReference.message : UnsupportedReference → String
  | .remote => "remote references are not fetched"
  | .anchor => "only JSON pointer fragments are supported"

/-- Why a file cannot be used as a JSON document. -/
inductive DocumentError where
  | disk (cause : DiskError)
  | syntaxError (cause : Json.ReadError)
deriving DecidableEq, Repr

/-- The reason as a phrase. -/
def DocumentError.message : DocumentError → String
  | .disk cause => cause.message
  | .syntaxError cause => cause.message

/-- Why a reference cannot be resolved. `exhausted` says that more references were open at once
than there are references in reach. -/
inductive ResolveError where
  | missingFile (reference : String) (path : Path)
  | unreadableFile (reference : String) (path : Path) (cause : DocumentError)
  | pointerNotFound (reference : String) (pointer : String)
  | cycle (chain : List String)
  | unsupported (reference : String) (cause : UnsupportedReference)
  | exhausted (reference : String)
deriving DecidableEq, Repr

/-- The error as a sentence. -/
def ResolveError.message : ResolveError → String
  | .missingFile reference path =>
    "reference " ++ reference ++ " points to missing file " ++ path.text
  | .unreadableFile reference path cause =>
    "reference " ++ reference ++ " points to unreadable file " ++ path.text ++ ": " ++ cause.message
  | .pointerNotFound reference pointer =>
    "reference " ++ reference ++ ": pointer " ++ pointer ++ " not found"
  | .cycle chain => "reference cycle: " ++ " -> ".intercalate chain
  | .unsupported reference cause =>
    "unsupported reference " ++ reference ++ ": " ++ cause.message
  | .exhausted reference => "reference " ++ reference ++ " is nested too deeply"

/-- Why a run stops. `endless` says that the types of a schema do not come to an end. -/
inductive GenerationError where
  | noSchemas (dir : Path)
  | malformed (file : String) (cause : Json.ReadError)
  | unresolved (file : String) (cause : ResolveError)
  | duplicateName (name first second : String)
  | emptyName (file : String)
  | invalidSchema (file : String)
  | unwritable (path : Path) (cause : DiskError)
  | unreadable (path : Path) (cause : DiskError)
  | endless
deriving DecidableEq, Repr

namespace GenerationError

/-- The error as a sentence. -/
def message : GenerationError → String
  | .noSchemas dir => "no schema files found in " ++ dir.text
  | .malformed file cause => "failed to parse schema " ++ file ++ ": " ++ cause.message
  | .unresolved file cause => "failed to resolve references in " ++ file ++ ": " ++ cause.message
  | .duplicateName name first second =>
    "schema files " ++ first ++ " and " ++ second ++ " both map to type name " ++ name
  | .emptyName file => "schema file " ++ file ++ " does not yield a type name"
  | .invalidSchema file =>
    "schema " ++ file ++ " cannot be compiled into a validator: it violates the meta-schema"
  | .unwritable path cause => "failed to write " ++ path.text ++ ": " ++ cause.message
  | .unreadable path cause => "io error on " ++ path.text ++ ": " ++ cause.message
  | .endless => "the types of the schemas are nested too deeply"

/-- The sentence, followed by the cause it arose from. -/
def chain (e : GenerationError) : List String :=
  e.message :: match e with
    | .malformed _ cause => [cause.message]
    | .unresolved _ cause => [cause.message]
    | .unwritable _ cause => [cause.message]
    | .unreadable _ cause => [cause.message]
    | _ => []

/-- The schema file that is to blame, if one is. -/
def schemaFile? : GenerationError → Option String
  | .malformed file _ => some file
  | .unresolved file _ => some file
  | .duplicateName _ _ second => some second
  | .emptyName file => some file
  | .invalidSchema file => some file
  | _ => none

end GenerationError

end SchemaBindings
