import SchemaBindings.Artifact
import SchemaBindings.Code.Identifier
import SchemaBindings.Code.Literal
import SchemaBindings.Code.Writer
import SchemaBindings.Json.Printer
import SchemaBindings.PackageLayout

/-! The parser module of one type. It holds the schema, with all references replaced, as a literal,
and a function that validates a value and makes it one of the type. -/

namespace SchemaBindings.ParserModule

open Code (Writer)

/-- Writes the names that the module uses. -/
def writeImports (w : Writer) (canonical : String) : Writer :=
  let module := Code.ModuleName.ofStem (moduleFileStem canonical)
  w.linesOf
    [
      "use std::sync::OnceLock;",
      "",
      "use serde_json::Value;",
      "",
      "use crate::parsing_types::\x7bparse_compiled, CompiledSchema, ParsingResult\x7d;",
      "use crate::types::" ++ module.ident ++ "::" ++ Code.typeIdent canonical ++ ";",
      ""
    ]

/-- The schema as a constant. -/
def constantLine (canonical : String) (schema : Json) : String :=
  "pub const " ++ Code.schemaConstant canonical ++ ": &str = " ++
    Code.rawLiteral schema.pretty ++ ";"

/-- Writes the schema. -/
def writeConstant (w : Writer) (canonical : String) (schema : Json) : Writer :=
  let w := w.doc ("JSON Schema of [`" ++ Code.typeIdent canonical ++
    "`] with every reference inlined.")
  (w.line (constantLine canonical schema)).blank

/-- Writes the function that compiles the schema once. -/
def writeValidator (w : Writer) (canonical : String) : Writer :=
  let w := w.opening "fn validator() -> &'static Result<CompiledSchema, String> \x7b"
  let w := w.line
    "static VALIDATOR: OnceLock<Result<CompiledSchema, String>> = OnceLock::new();"
  let w := w.opening "VALIDATOR.get_or_init(|| \x7b"
  let w := w.linesOf
    [
      "serde_json::from_str(" ++ Code.schemaConstant canonical ++ ")",
      "    .map_err(|e| e.to_string())",
      "    .and_then(CompiledSchema::new)"
    ]
  ((w.closing "\x7d)").closing "\x7d").blank

/-- Writes the function that parses. -/
def writeParser (w : Writer) (canonical : String) : Writer :=
  let w := w.doc ("Validate `data` against the `" ++ canonical ++
    "` schema and deserialize it.\n\n" ++
    "Invalid data yields [`ParsingResult::Failure`] listing every violation.")
  let w := w.opening ("pub fn " ++ Code.parseFunction canonical ++
    "(data: &Value) -> ParsingResult<" ++ Code.typeIdent canonical ++ "> \x7b")
  (w.line "parse_compiled(validator(), data)").closing "\x7d"

/-- The module as a file. -/
def ofSchema (canonical : String) (schema : Json) : Artifact :=
  let w := writeImports Writer.marked canonical
  let w := writeConstant w canonical schema
  let w := writeParser (writeValidator w canonical) canonical
  ⟨PackageLayout.parserModule (moduleFileStem canonical), w.text⟩

end SchemaBindings.ParserModule
