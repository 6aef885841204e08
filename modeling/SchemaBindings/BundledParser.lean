import SchemaBindings.ParserModule
import SchemaBindings.TypeModule

/-! The parser module of a bundle. It holds the bundle as a literal, a key for every member, and a
cache with one validator per key. Members whose types are mere aliases have keys but cannot be
parsed by type. -/

namespace SchemaBindings.BundledParser

open Code (Writer)

/-- A member as the parser module sees it. -/
structure KeyedMember where
  variant : String
  schemaKey : String
  schemaRef : String
  parsed : Bool
deriving DecidableEq, Repr

/-- Whether a type is defined as an item of its own. -/
def isNominal (items : List Item) (name : String) : Bool :=
  items.any fun item => item.name = name && !item.isAlias

/-- A member beside the items of its bundle. -/
def KeyedMember.ofMember (items : List Item) (m : BundleMember) : KeyedMember :=
  let variant := Code.typeIdent m.canonicalName
  ⟨variant, m.key, m.reference, isNominal items variant⟩

/-- The types that the module imports. -/
def typeImport (names : List String) : List String :=
  match names with
  | [] => []
  | [name] => ["use crate::types::" ++ name ++ ";"]
  | names => ["use crate::types::\x7b" ++ ", ".intercalate names ++ "\x7d;"]

/-- Writes the names that the module uses. -/
def writeImports (w : Writer) (members : List KeyedMember) : Writer :=
  let w := w.linesOf
    [
      "use std::sync::OnceLock;",
      "",
      "use serde::de::DeserializeOwned;",
      "use serde_json::Value;",
      "",
      "use crate::parsing_types::\x7bparse_compiled, validate_compiled, CompiledSchema, " ++
        "ParsingError, ParsingResult\x7d;"
    ]
  (w.linesOf (typeImport ((members.filter (·.parsed)).map (·.variant)))).blank

/-- The bundle as a constant. -/
def constantLine (document : Json) : String :=
  "pub const BUNDLED_SCHEMA: &str = " ++ Code.rawLiteral document.pretty ++ ";"

/-- Writes the bundle. -/
def writeConstant (w : Writer) (document : Json) : Writer :=
  let w := w.doc "Every schema of the package under `$defs`, keyed by file stem."
  (w.line (constantLine document)).blank

/-- Writes a function that tells something about every key. -/
def writeKeyMatch (w : Writer) (doc signature : String) (members : List KeyedMember)
    (value : KeyedMember → String) : Writer :=
  let w := (w.doc doc).opening (signature ++ "(self) -> &'static str \x7b")
  let w := w.opening "match self \x7b"
  let w := w.linesOf (members.map fun m =>
    "TypeKey::" ++ m.variant ++ " => " ++ Code.quoted (value m) ++ ",")
  (w.closing "\x7d").closing "\x7d"

/-- Writes the function that numbers the keys. -/
def writeIndex (w : Writer) (members : List KeyedMember) : Writer :=
  let w := (w.opening "fn index(self) -> usize \x7b").opening "match self \x7b"
  let w := w.linesOf (members.zipIdx.map fun (m, i) =>
    "TypeKey::" ++ m.variant ++ " => " ++ toString i ++ ",")
  (w.closing "\x7d").closing "\x7d"

/-- Writes the keys. -/
def writeTypeKey (w : Writer) (members : List KeyedMember) : Writer :=
  let w := w.doc "A generated type of the bundle."
  let w := w.line "#[derive(Debug, Clone, Copy, PartialEq, Eq, Hash, PartialOrd, Ord)]"
  let w := (w.opening "pub enum TypeKey \x7b").linesOf (members.map fun m => m.variant ++ ",")
  let w := ((w.closing "\x7d").blank.opening "impl TypeKey \x7b").doc "Every key, in bundle order."
  let all := members.map fun m => "TypeKey::" ++ m.variant
  let w := w.line ("pub const ALL: [TypeKey; " ++ toString members.length ++ "] = [" ++
    ", ".intercalate all ++ "];")
  let w := writeKeyMatch w.blank "Name of the generated type." "pub fn type_name" members
    (·.variant)
  let w := writeKeyMatch w.blank "Key of the schema under `$defs`." "pub fn schema_key" members
    (·.schemaKey)
  let w := writeKeyMatch w.blank "`$ref` to the schema inside the bundle." "pub fn schema_ref"
    members (·.schemaRef)
  ((writeIndex w.blank members).closing "\x7d").blank

/-- Writes that a type can be parsed. -/
def writeParseAs (w : Writer) (m : KeyedMember) : Writer :=
  let w := w.blank.opening ("impl ParseAs for " ++ m.variant ++ " \x7b")
  (w.line ("const KEY: TypeKey = TypeKey::" ++ m.variant ++ ";")).closing "\x7d"

/-- Writes which types can be parsed. -/
def writeTrait (w : Writer) (members : List KeyedMember) : Writer :=
  let w := w.doc "Generated types that [`ValidatorCache::parse`] can produce."
  let w := (w.opening "pub trait ParseAs: DeserializeOwned \x7b").doc "Key of the type's schema."
  let w := (w.line "const KEY: TypeKey;").closing "\x7d"
  ((members.filter (·.parsed)).foldl writeParseAs w).blank

/-- The functions that read the bundle and compile a member. -/
def loaders : List String :=
  [
    "fn bundle() -> &'static Result<Value, String> \x7b",
    "    static BUNDLE: OnceLock<Result<Value, String>> = OnceLock::new();",
    "    BUNDLE.get_or_init(|| serde_json::from_str(BUNDLED_SCHEMA).map_err(|e| e.to_string()))",
    "\x7d",
    "",
    "fn compile(key: TypeKey) -> Result<CompiledSchema, String> \x7b",
    "    let mut schema = bundle().clone()?;",
    "    if let Value::Object(root) = &mut schema \x7b",
    "        root.insert(\"$ref\".to_string(), Value::String(key.schema_ref().to_string()));",
    "    \x7d",
    "    CompiledSchema::new(schema)",
    "\x7d"
  ]

/-- What the cache can do. -/
def cacheMethods : List String :=
  [
    "impl ValidatorCache \x7b",
    "    /// Cache with nothing compiled.",
    "    pub fn new() -> Self \x7b",
    "        Self \x7b",
    "            slots: std::array::from_fn(|_| OnceLock::new()),",
    "        \x7d",
    "    \x7d",
    "",
    "    /// Returns `true` once the validator for `key` has been compiled.",
    "    pub fn is_compiled(&self, key: TypeKey) -> bool \x7b",
    "        self.slots[key.index()].get().is_some()",
    "    \x7d",
    "",
    "    /// Number of validators compiled so far.",
    "    pub fn compiled_count(&self) -> usize \x7b",
    "        self.slots.iter().filter(|slot| slot.get().is_some()).count()",
    "    \x7d",
    "",
    "    fn validator(&self, key: TypeKey) -> &Result<CompiledSchema, String> \x7b",
    "        self.slots[key.index()].get_or_init(|| compile(key))",
    "    \x7d",
    "",
    "    /// Validate `data` against the schema of `key`; empty when valid.",
    "    pub fn validate(&self, key: TypeKey, data: &Value) -> Vec<ParsingError> \x7b",
    "        validate_compiled(self.validator(key), data)",
    "    \x7d",
    "",
    "    /// Validate `data` and deserialize it as `T`.",
    "    pub fn parse<T: ParseAs>(&self, data: &Value) -> ParsingResult<T> \x7b",
    "        parse_compiled(self.validator(T::KEY), data)",
    "    \x7d",
    "\x7d",
    "",
    "impl Default for ValidatorCache \x7b",
    "    fn default() -> Self \x7b",
    "        Self::new()",
    "    \x7d",
    "\x7d",
    "",
    "impl std::fmt::Debug for ValidatorCache \x7b",
    "    fn fmt(&self, f: &mut std::fmt::Formatter<'_>) -> std::fmt::Result \x7b",
    "        let compiled: Vec<TypeKey> = TypeKey::ALL",
    "            .into_iter()",
    "            .filter(|key| self.is_compiled(*key))",
    "            .collect();",
    "        f.debug_struct(\"ValidatorCache\")",
    "            .field(\"compiled\", &compiled)",
    "            .finish()",
    "    \x7d",
    "\x7d",
    "",
    "/// Cache behind [`parse`], shared by the whole process.",
    "pub fn shared_cache() -> &'static ValidatorCache \x7b",
    "    static SHARED: OnceLock<ValidatorCache> = OnceLock::new();",
    "    SHARED.get_or_init(ValidatorCache::new)",
    "\x7d",
    "",
    "/// Validate `data` and deserialize it as `T`, using [`shared_cache`].",
    "pub fn parse<T: ParseAs>(data: &Value) -> ParsingResult<T> \x7b",
    "    shared_cache().parse(data)",
    "\x7d"
  ]

/-- Writes the cache. -/
def writeCache (w : Writer) (size : Nat) : Writer :=
  let w := w.doc ("Validators compiled on first use, one per [`TypeKey`].\n\n" ++
    "Construction compiles nothing. The first request for a key compiles its\n" ++
    "validator exactly once, even under concurrent first use.")
  let w := w.opening "pub struct ValidatorCache \x7b"
  let w := w.line ("slots: [OnceLock<Result<CompiledSchema, String>>; " ++ toString size ++ "],")
  (w.closing "\x7d").blank.linesOf cacheMethods

/-- The text of the module. -/
def text (document : Json) (members : List KeyedMember) : String :=
  let w := writeConstant (writeImports Writer.marked members) document
  let w := writeTrait (writeTypeKey w members) members
  (writeCache (w.linesOf loaders).blank members.length).text

/-- The module as a file. -/
def ofBundle (b : Bundle) : Option Artifact :=
  (lowerBundle b).map fun items =>
    ⟨PackageLayout.bundledParsers, text b.document (b.members.map (KeyedMember.ofMember items))⟩

end SchemaBindings.BundledParser
