import SchemaBindings.Code.Literal

/-! How a package is laid out. In the per-type layout every type has a module, a parser module and
a schema file of its own; in the bundled layout there is one of each. -/

namespace SchemaBindings

/-- A way to lay a package out. -/
inductive PackageLayout where
  | perType
  | bundled
deriving DecidableEq, Repr, Inhabited

namespace PackageLayout

/-- The name of a layout. -/
def name : PackageLayout → String
  | .perType => "per-type"
  | .bundled => "bundled"

/-- The layout that has a name. -/
def ofName? (s : String) : Option PackageLayout :=
  [perType, bundled].find? (·.name = s)

/-- What is said when no layout has a name. -/
def unknownMessage (s : String) : String :=
  "unknown layout " ++ Code.quoted s ++ ", expected per-type or bundled"

/-- The package's own description. -/
def packageFile : String := "Cargo.toml"

/-- The text that says what the package holds. -/
def readmeFile : String := "README.md"

/-- The root module. -/
def rootModule : String := "src/lib.rs"

/-- The module of the shapes in which parsers answer. -/
def resultModule : String := "src/parsing_types.rs"

/-- The module over all type modules. -/
def typeIndex : String := "src/types/mod.rs"

/-- The module over all parser modules. -/
def parserIndex : String := "src/parsers/mod.rs"

/-- The one type module of a bundle. -/
def bundledTypes : String := "src/types.rs"

/-- The one parser module of a bundle. -/
def bundledParsers : String := "src/parser.rs"

/-- The one schema file of a bundle. -/
def bundledSchema : String := "schemas/bundled.json"

/-- The module of a type. -/
def typeModule (stem : String) : String := "src/types/" ++ stem ++ ".rs"

/-- The parser module of a type. -/
def parserModule (stem : String) : String := "src/parsers/" ++ stem ++ ".rs"

/-- The schema file of a type. -/
def schemaCopy (stem : String) : String := "schemas/" ++ stem ++ ".json"

end PackageLayout

end SchemaBindings
