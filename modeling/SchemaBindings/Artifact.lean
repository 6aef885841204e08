/-! A file of the package that is being written. -/

namespace SchemaBindings

/-- A path below the package's directory, and the text of the file. -/
structure Artifact where
  path : String
  text : String
deriving DecidableEq, Repr

/-- The artifact in a listing. -/
def Artifact.summary (a : Artifact) : String :=
  a.path ++ " (" ++ toString a.text.utf8ByteSize ++ " bytes)"

end SchemaBindings
