import SchemaBindings.Artifact
import SchemaBindings.Code.Identifier
import SchemaBindings.Code.Writer
import SchemaBindings.PackageLayout

/-! The modules that tie a package together: the root and, in the per-type layout, one index over
the type modules and one over the parser modules. Names are exported in the order of the types. -/

namespace SchemaBindings

open Code (Writer)

/-- A type as the root of a package sees it. -/
structure ManifestEntry where
  canonicalName : String
  typeName : String
  module : Code.ModuleName
  parseFunction : String
deriving DecidableEq, Repr

/-- The entry of a type. -/
def ManifestEntry.ofCanonical (canonical : String) : ManifestEntry where
  canonicalName := canonical
  typeName := Code.typeIdent canonical
  module := Code.ModuleName.ofStem (moduleFileStem canonical)
  parseFunction := Code.parseFunction canonical

namespace Manifest

/-- What every package exports. -/
def resultExport : String := "pub use parsing_types::\x7bParsingError, ParsingResult\x7d;"

/-- The root of a package without types. -/
def emptyRoot : Artifact :=
  ⟨PackageLayout.rootModule,
    (Writer.marked.linesOf ["pub mod parsing_types;", "", resultExport]).text⟩

/-- The root of a package with a module per type. -/
def perTypeRoot (entries : List ManifestEntry) : Artifact :=
  let w := Writer.marked.linesOf
    ["pub mod parsers;", "pub mod parsing_types;", "pub mod types;", "", resultExport]
  let w := w.linesOf (entries.map fun e => "pub use types::" ++ e.typeName ++ ";")
  let w := w.linesOf (entries.map fun e => "pub use parsers::" ++ e.parseFunction ++ ";")
  ⟨PackageLayout.rootModule, w.text⟩

/-- An index that declares the module of every type and exports one name of each. -/
def index (entries : List ManifestEntry) (exported : ManifestEntry → String) : String :=
  let w := (Writer.marked.linesOf (entries.map (·.module.declaration))).blank
  (w.linesOf (entries.map fun e => "pub use " ++ e.module.ident ++ "::" ++ exported e ++ ";")).text

/-- The root of a bundled package. -/
def bundledRoot (entries : List ManifestEntry) : Artifact :=
  let w := Writer.marked.linesOf
    ["pub mod parser;", "pub mod parsing_types;", "pub mod types;", "",
      "pub use parser::\x7bparse, shared_cache, ParseAs, TypeKey, ValidatorCache\x7d;",
      resultExport]
  let names := ", ".intercalate (entries.map (·.typeName))
  ⟨PackageLayout.rootModule, (w.line ("pub use types::\x7b" ++ names ++ "\x7d;")).text⟩

/-- The modules that tie a package together. -/
def artifacts (layout : PackageLayout) (entries : List ManifestEntry) : List Artifact :=
  if entries.isEmpty then [emptyRoot]
  else match layout with
    | .perType =>
      [perTypeRoot entries, ⟨PackageLayout.typeIndex, index entries (·.typeName)⟩,
        ⟨PackageLayout.parserIndex, index entries (·.parseFunction)⟩]
    | .bundled => [bundledRoot entries]

end Manifest

end SchemaBindings
