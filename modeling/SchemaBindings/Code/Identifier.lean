import SchemaBindings.Naming
import SchemaBindings.Text.Alphabetic
import SchemaBindings.Text.Numeric

/-! Identifiers of the code that is written. Any text gives one: characters that cannot stand in an
identifier become underscores, and a text that would start with a number, be a keyword or be empty
is mended. -/

namespace SchemaBindings.Code

/-- The words that are no identifiers. -/
def keywords : List String :=
  ["abstract", "as", "async", "await", "become", "box", "break", "const", "continue", "crate",
    "do", "dyn", "else", "enum", "extern", "false", "final", "fn", "for", "if", "impl", "in",
    "let", "loop", "macro", "match", "mod", "move", "mut", "override", "priv", "pub", "ref",
    "return", "self", "Self", "static", "struct", "super", "trait", "true", "try", "type",
    "typeof", "union", "unsafe", "unsized", "use", "virtual", "where", "while", "yield"]

/-- The type names that the written code uses, or declares itself. -/
def reservedTypeNames : List String :=
  ["Box", "CompiledSchema", "Deserialize", "Err", "None", "Ok", "Option", "ParseAs",
    "ParsingError", "ParsingResult", "Result", "Serialize", "Some", "String", "TypeKey",
    "ValidatorCache", "Value", "Vec"]

/-- Whether a word is a keyword. -/
def isKeyword (word : String) : Bool := keywords.contains word

/-- Whether a character is a letter or a number. -/
def isAlphanumeric (c : Char) : Bool := Text.isAlphabetic c || Text.isNumeric c

/-- Whether a character may stand in an identifier. -/
def isIdentChar (c : Char) : Bool := c = '_' || isAlphanumeric c

/-- Whether a word is an identifier as it is. -/
def isIdentifier (word : String) : Bool :=
  (match word.toList with
    | [] => false
    | c :: rest => (c = '_' || Text.isAlphabetic c) && rest.all isIdentChar) &&
  word ≠ "_" && !isKeyword word

/-- Puts an underscore before a number at the start. -/
def guardStart : List Char → List Char
  | [] => []
  | c :: rest => if Text.isNumeric c then '_' :: c :: rest else c :: rest

/-- Makes an identifier of a word; one without letters and numbers becomes `empty`. -/
def sanitize (word empty : String) : String :=
  let cs := word.toList.map fun c => if isIdentChar c then c else '_'
  if cs.all (· = '_') then empty
  else
    let ident := String.ofList (guardStart cs)
    if isKeyword ident then ident ++ "_" else ident

/-- The identifier of a type. -/
def typeIdent (name : String) : String :=
  let ident := sanitize name "Unnamed"
  if reservedTypeNames.contains ident then ident ++ "_" else ident

/-- Whether a new word starts between two neighbours, given what follows the second. A capital
starts a word after a small letter or a number, and before a small letter. -/
def startsWord (prev c : Char) (rest : List Char) : Bool :=
  Text.isUppercase c &&
    (Text.isLowercase prev || Text.isNumeric prev ||
      (Text.isUppercase prev && rest.head?.any Text.isLowercase))

/-- The words of a text. `current` holds the word that is being read, its last character first. -/
def wordsFrom (current : List Char) : List Char → List (List Char)
  | [] => if current.isEmpty then [] else [current.reverse]
  | c :: rest =>
    if isAlphanumeric c then
      match current with
      | [] => wordsFrom [c] rest
      | prev :: _ =>
        if startsWord prev c rest then current.reverse :: wordsFrom [c] rest
        else wordsFrom (c :: current) rest
    else if current.isEmpty then wordsFrom [] rest
    else current.reverse :: wordsFrom [] rest

/-- The words of a name, cut at all but letters and numbers and where the case changes. -/
def words (name : String) : List (List Char) := wordsFrom [] name.toList

/-- The words of a name in lower case with underscores between them. -/
def snakeCase (name : String) : String :=
  "_".intercalate ((words name).map fun w => Text.lower (String.ofList w))

/-- The words of a name, each with a capital, without anything between them. -/
def pascalCase (name : String) : String :=
  String.ofList ((words name).flatMap upperFirst)

/-- The identifier of the field for a property. -/
def fieldIdent (name : String) : String := sanitize (snakeCase name) "field"

/-- The identifier of the variant for a text. -/
def variantIdent (value : String) : String :=
  let pascal := pascalCase value
  match pascal.toList with
  | [] => "Empty"
  | c :: _ => if Text.isNumeric c then "V" ++ pascal else sanitize pascal "Empty"

/-- The identifier of a function for a type. -/
def functionIdent (typeName : String) : String := sanitize (snakeCase typeName) "unnamed"

/-- The function's identifier without underscores in front. -/
def functionStem (canonical : String) : String :=
  String.ofList ((functionIdent canonical).toList.dropWhile (· = '_'))

/-- The function that parses a type. -/
def parseFunction (canonical : String) : String := "parse_" ++ functionStem canonical

/-- The constant that holds the schema of a type. -/
def schemaConstant (canonical : String) : String :=
  Text.upper (functionStem canonical) ++ "_SCHEMA"

/-- A module and the stem of its file. -/
structure ModuleName where
  ident : String
  fileStem : String
deriving DecidableEq, Repr

namespace ModuleName

/-- The module of a file. -/
def ofStem (stem : String) : ModuleName := ⟨sanitize stem "module", stem⟩

/-- Whether the file has to be named beside the module. -/
def needsPath (m : ModuleName) : Bool := m.ident ≠ m.fileStem

/-- The declaration of the module. -/
def declaration (m : ModuleName) : String :=
  let plain := "pub mod " ++ m.ident ++ ";"
  if m.needsPath then "#[path = \"" ++ m.fileStem ++ ".rs\"]\n" ++ plain else plain

end ModuleName

end SchemaBindings.Code
