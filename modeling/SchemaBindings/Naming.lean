import SchemaBindings.Text.Blank
import SchemaBindings.Text.Case

/-! How a schema file is named and which type its name stands for. A schema file is called
`<stem>.schema.json`; the stem's words, cut at hyphens and underscores and each given a capital,
are put together as the canonical name of the type. -/

namespace SchemaBindings

/-- The ending that marks a schema file. -/
def schemaSuffix : String := ".schema.json"

/-- Whether a file name is a nonempty stem followed by the schema ending. -/
def isSchemaFileName (name : String) : Bool :=
  name.utf8ByteSize > schemaSuffix.utf8ByteSize && name.endsWith schemaSuffix

/-- What follows the last directory separator, of which there are two. -/
def baseName (cs : List Char) : List Char :=
  (cs.reverse.takeWhile fun c => c ≠ '/' && c ≠ '\\').reverse

/-- Takes an ending off a text that has it. -/
def dropEnding? (ending cs : List Char) : Option (List Char) :=
  if ending.isSuffixOf cs then some (cs.take (cs.length - ending.length)) else none

/-- The file name without its directory and without the schema ending. -/
def schemaStem (name : String) : String :=
  let base := baseName name.toList
  String.ofList ((dropEnding? schemaSuffix.toList base).getD base)

/-- Gives the first character of a word a capital and keeps the others. -/
def upperFirst : List Char → List Char
  | [] => []
  | c :: rest => Text.upperChar c ++ rest

/-- Whether a character separates the words of a stem. -/
def isStemSeparator (c : Char) : Bool := c = '-' || c = '_'

/-- The type name that a stem stands for. -/
def canonicalOfStem (stem : String) : String :=
  String.ofList <|
    ((Text.splitWhere isStemSeparator stem.toList).filter (!·.isEmpty)).flatMap upperFirst

/-- The type name that a schema file's name stands for. -/
def canonicalName (fileName : String) : String :=
  canonicalOfStem (schemaStem fileName)

/-- The stem of the files that are written for a type. -/
def moduleFileStem (canonical : String) : String :=
  Text.lower canonical

end SchemaBindings
