import SchemaBindings.Bundle
import SchemaBindings.Json.Printer
import SchemaBindings.Manifest

/-! The files of a package that hold no code: its description, a text for its readers, and the
schemas that its parsers embed. -/

namespace SchemaBindings.PackageFiles

/-- A text as a string of a package description: backslashes and quotes are escaped. -/
def descriptionString (s : String) : String :=
  String.ofList ('"' :: (Text.replace ['"'] ['\\', '"']
    (Text.replace ['\\'] ['\\', '\\'] s.toList)) ++ ['"'])

/-- The packages that the written code needs. -/
def dependencies : List String :=
  [
    "jsonschema = \"0.28\"",
    "serde = \x7b version = \"1\", features = [\"derive\"] \x7d",
    "serde_json = \"1\""
  ]

/-- Lines as a text. -/
def unlines (lines : List String) : String := String.join (lines.map (· ++ "\n"))

/-- The package's description. -/
def packageFile (name version : String) : Artifact :=
  ⟨PackageLayout.packageFile, unlines <|
    [
      "# @generated by schemagen",
      "",
      "[package]",
      "name = " ++ descriptionString name,
      "version = " ++ descriptionString version,
      "edition = \"2021\"",
      "publish = false",
      "",
      "[dependencies]"
    ] ++ dependencies⟩

/-- How a type is parsed. -/
def parseCall (layout : PackageLayout) (e : ManifestEntry) : String :=
  match layout with
  | .perType => e.parseFunction ++ "(&value)"
  | .bundled => "parse::<" ++ e.typeName ++ ">(&value)"

/-- The names that parsing a type takes. -/
def parseImports (layout : PackageLayout) (e : ManifestEntry) : String :=
  match layout with
  | .perType => e.parseFunction ++ ", " ++ e.typeName
  | .bundled => "parse, " ++ e.typeName

/-- The line of a type in the table of types. -/
def tableLine (layout : PackageLayout) (e : ManifestEntry) : String :=
  "| `" ++ e.typeName ++ "` | `" ++ e.canonicalName ++ "` | `" ++ parseCall layout e ++ "` |"

/-- How the first type is used. -/
def usage (name : String) (layout : PackageLayout) (e : ManifestEntry) : List String :=
  let library := String.ofList (Text.replace ['-'] ['_'] name.toList)
  [
    "",
    "## Usage",
    "",
    "```rust,ignore",
    "use " ++ library ++ "::\x7b" ++ parseImports layout e ++ ", ParsingResult\x7d;",
    "",
    "let result: ParsingResult<" ++ e.typeName ++ "> = " ++ parseCall layout e ++ ";",
    "match result \x7b",
    "    ParsingResult::Success \x7b data \x7d => println!(\"\x7bdata:?\x7d\"),",
    "    ParsingResult::Failure \x7b errors \x7d => \x7b",
    "        for error in errors \x7b",
    "            eprintln!(\"\x7berror\x7d\");",
    "        \x7d",
    "    \x7d",
    "\x7d",
    "```"
  ]

/-- What the text for readers says about the types. -/
def typeLines (name : String) (layout : PackageLayout) : List ManifestEntry → List String
  | [] => ["No schemas were found."]
  | e :: rest =>
    ["| Type | Schema | Parse with |", "|---|---|---|"] ++
      (e :: rest).map (tableLine layout) ++ usage name layout e

/-- The text for the package's readers. -/
def readme (name : String) (layout : PackageLayout) (entries : List ManifestEntry) : Artifact :=
  ⟨PackageLayout.readmeFile, unlines <|
    [
      "# " ++ name,
      "",
      "Rust types and validating parsers generated by schemagen from JSON Schema.",
      "Do not edit by hand; regenerate instead.",
      "",
      "Layout: `" ++ layout.name ++ "`.",
      "",
      "## Types",
      ""
    ] ++ typeLines name layout entries⟩

/-- A schema that no longer says which dialect it is in. -/
def withoutDialect : Json → Json
  | .object ms => .object (OrderedMap.remove ms "$schema")
  | v => v

/-- The schema file of a type. -/
def schemaCopy (canonical : String) (schema : Json) : Artifact :=
  ⟨PackageLayout.schemaCopy (moduleFileStem canonical), (withoutDialect schema).pretty ++ "\n"⟩

/-- The schema file of a bundle. -/
def bundledSchema (b : Bundle) : Artifact :=
  ⟨PackageLayout.bundledSchema, b.document.pretty ++ "\n"⟩

end SchemaBindings.PackageFiles
