import SchemaBindings.Artifact
import SchemaBindings.Code.Writer
import SchemaBindings.PackageLayout

/-! The module of the shapes in which generated parsers answer: the reasons why a value is
rejected, the outcome of parsing, and a schema that is compiled once. It is the same in every
package. -/

namespace SchemaBindings.ResultModule

/-- The names in use, and the reason why a value is rejected. -/
def errorType : List String :=
  [
    "use serde::de::DeserializeOwned;",
    "use serde::\x7bDeserialize, Serialize\x7d;",
    "use serde_json::\x7bMap, Value\x7d;",
    "",
    "/// One reason a value was rejected.",
    "#[derive(Debug, Clone, PartialEq, Serialize, Deserialize)]",
    "#[serde(rename_all = \"camelCase\")]",
    "pub struct ParsingError \x7b",
    "    /// JSON pointer to the rejected location in the input.",
    "    pub instance_path: String,",
    "    /// Location of the violated keyword in the schema. `$ref` tokens mark",
    "    /// the references followed to reach it.",
    "    pub schema_path: String,",
    "    /// The violated keyword, e.g. `required` or `type`.",
    "    pub keyword: String,",
    "    /// Keyword-specific parameters: the keyword's value in the schema.",
    "    pub params: Map<String, Value>,",
    "    /// Human-readable description.",
    "    #[serde(default, skip_serializing_if = \"Option::is_none\")]",
    "    pub message: Option<String>,",
    "\x7d"
  ]

/-- A reason as text. -/
def errorText : List String :=
  [
    "",
    "impl std::fmt::Display for ParsingError \x7b",
    "    fn fmt(&self, f: &mut std::fmt::Formatter<'_>) -> std::fmt::Result \x7b",
    "        let location = if self.instance_path.is_empty() \x7b",
    "            \"/\"",
    "        \x7d else \x7b",
    "            self.instance_path.as_str()",
    "        \x7d;",
    "        match &self.message \x7b",
    "            Some(message) => write!(f, \"\x7blocation\x7d: \x7bmessage\x7d\"),",
    "            None => write!(f, \"\x7blocation\x7d: \x7b\x7d violated\", self.keyword),",
    "        \x7d",
    "    \x7d",
    "\x7d",
    "",
    "impl std::error::Error for ParsingError \x7b\x7d"
  ]

/-- What parsing a value gives. -/
def resultType : List String :=
  [
    "",
    "/// Outcome of parsing an untyped value into a generated type.",
    "#[derive(Debug, Clone, PartialEq)]",
    "pub enum ParsingResult<T> \x7b",
    "    /// The value is valid and was deserialized.",
    "    Success \x7b data: T \x7d,",
    "    /// The value was rejected.",
    "    Failure \x7b errors: Vec<ParsingError> \x7d,",
    "\x7d"
  ]

/-- How a result is looked at. -/
def resultMethods : List String :=
  [
    "",
    "impl<T> ParsingResult<T> \x7b",
    "    /// Returns `true` for [`ParsingResult::Success`].",
    "    pub fn is_success(&self) -> bool \x7b",
    "        matches!(self, ParsingResult::Success \x7b .. \x7d)",
    "    \x7d",
    "",
    "    /// The parsed value, if any.",
    "    pub fn data(&self) -> Option<&T> \x7b",
    "        match self \x7b",
    "            ParsingResult::Success \x7b data \x7d => Some(data),",
    "            ParsingResult::Failure \x7b .. \x7d => None,",
    "        \x7d",
    "    \x7d",
    "",
    "    /// The rejection reasons; empty on success.",
    "    pub fn errors(&self) -> &[ParsingError] \x7b",
    "        match self \x7b",
    "            ParsingResult::Success \x7b .. \x7d => &[],",
    "            ParsingResult::Failure \x7b errors \x7d => errors,",
    "        \x7d",
    "    \x7d",
    "",
    "    /// Convert into a standard `Result`.",
    "    pub fn into_result(self) -> Result<T, Vec<ParsingError>> \x7b",
    "        match self \x7b",
    "            ParsingResult::Success \x7b data \x7d => Ok(data),",
    "            ParsingResult::Failure \x7b errors \x7d => Err(errors),",
    "        \x7d",
    "    \x7d",
    "\x7d"
  ]

/-- A schema with its validator. -/
def compiledType : List String :=
  [
    "",
    "/// A schema and the validator compiled from it.",
    "pub(crate) struct CompiledSchema \x7b",
    "    schema: Value,",
    "    validator: jsonschema::Validator,",
    "\x7d"
  ]

/-- Validating and parsing with a compiled schema. -/
def compiledMethods : List String :=
  [
    "",
    "#[allow(dead_code)]",
    "impl CompiledSchema \x7b",
    "    pub(crate) fn new(schema: Value) -> Result<Self, String> \x7b",
    "        let validator = jsonschema::validator_for(&schema).map_err(|e| e.to_string())?;",
    "        Ok(Self \x7b schema, validator \x7d)",
    "    \x7d",
    "",
    "    pub(crate) fn validate(&self, data: &Value) -> Vec<ParsingError> \x7b",
    "        collect_errors(&self.validator, &self.schema, data)",
    "    \x7d",
    "",
    "    pub(crate) fn parse<T: DeserializeOwned>(&self, data: &Value) -> ParsingResult<T> \x7b",
    "        let errors = self.validate(data);",
    "        if !errors.is_empty() \x7b",
    "            return ParsingResult::Failure \x7b errors \x7d;",
    "        \x7d",
    "        match serde_json::from_value(data.clone()) \x7b",
    "            Ok(data) => ParsingResult::Success \x7b data \x7d,",
    "            Err(e) => ParsingResult::Failure \x7b",
    "                errors: vec![internal_error(\"deserialize\", e.to_string())],",
    "            \x7d,",
    "        \x7d",
    "    \x7d",
    "\x7d"
  ]

/-- Parsing where the schema may not have compiled. -/
def parseCompiled : List String :=
  [
    "",
    "/// Parse with a validator whose compilation may have failed.",
    "#[allow(dead_code)]",
    "pub(crate) fn parse_compiled<T: DeserializeOwned>(",
    "    compiled: &Result<CompiledSchema, String>,",
    "    data: &Value,",
    ") -> ParsingResult<T> \x7b",
    "    match compiled \x7b",
    "        Ok(compiled) => compiled.parse(data),",
    "        Err(reason) => ParsingResult::Failure \x7b",
    "            errors: vec![internal_error(\"schema\", reason.clone())],",
    "        \x7d,",
    "    \x7d",
    "\x7d"
  ]

/-- Validating where the schema may not have compiled. -/
def validateCompiled : List String :=
  [
    "",
    "/// Validate with a validator whose compilation may have failed.",
    "#[allow(dead_code)]",
    "pub(crate) fn validate_compiled(",
    "    compiled: &Result<CompiledSchema, String>,",
    "    data: &Value,",
    ") -> Vec<ParsingError> \x7b",
    "    match compiled \x7b",
    "        Ok(compiled) => compiled.validate(data),",
    "        Err(reason) => vec![internal_error(\"schema\", reason.clone())],",
    "    \x7d",
    "\x7d"
  ]

/-- Turning the errors of a validator into reasons. -/
def collectErrors : List String :=
  [
    "",
    "/// Every validation error for `data`, in the order the engine reports them.",
    "pub(crate) fn collect_errors(",
    "    validator: &jsonschema::Validator,",
    "    schema: &Value,",
    "    data: &Value,",
    ") -> Vec<ParsingError> \x7b",
    "    validator",
    "        .iter_errors(data)",
    "        .map(|error| \x7b",
    "            let schema_path = error.schema_path.to_string();",
    "            let keyword = last_token(&schema_path);",
    "            let mut params = Map::new();",
    "            params.insert(",
    "                keyword.clone(),",
    "                keyword_value(schema, &schema_path).cloned().unwrap_or(Value::Null),",
    "            );",
    "            ParsingError \x7b",
    "                instance_path: error.instance_path.to_string(),",
    "                schema_path,",
    "                keyword,",
    "                params,",
    "                message: Some(error.to_string()),",
    "            \x7d",
    "        \x7d)",
    "        .collect()",
    "\x7d"
  ]

/-- Finding the keyword at a location of a schema. -/
def keywordValue : List String :=
  [
    "",
    "/// Schema value at a keyword location. The location runs through `$ref`",
    "/// keywords rather than the document, so each `$ref` hop jumps to its",
    "/// local target.",
    "fn keyword_value<'a>(schema: &'a Value, location: &str) -> Option<&'a Value> \x7b",
    "    let mut node = schema;",
    "    let mut tokens = location.split('/').skip(1).peekable();",
    "    while let Some(token) = tokens.next() \x7b",
    "        let token = token.replace(\"~1\", \"/\").replace(\"~0\", \"~\");",
    "        if token == \"$ref\" && tokens.peek().is_some() \x7b",
    "            let fragment = node.get(\"$ref\")?.as_str()?.strip_prefix('#')?;",
    "            node = schema.pointer(&percent_decode(fragment))?;",
    "            continue;",
    "        \x7d",
    "        node = match node \x7b",
    "            Value::Object(map) => map.get(&token)?,",
    "            Value::Array(items) => items.get(token.parse::<usize>().ok()?)?,",
    "            _ => return None,",
    "        \x7d;",
    "    \x7d",
    "    Some(node)",
    "\x7d"
  ]

/-- Decoding the fragment of a reference. -/
def percentDecode : List String :=
  [
    "",
    "fn percent_decode(input: &str) -> String \x7b",
    "    let bytes = input.as_bytes();",
    "    let mut out = Vec::with_capacity(bytes.len());",
    "    let mut i = 0;",
    "    while i < bytes.len() \x7b",
    "        let escaped = bytes",
    "            .get(i + 1..i + 3)",
    "            .filter(|_| bytes[i] == b'%')",
    "            .and_then(|hex| std::str::from_utf8(hex).ok())",
    "            .and_then(|hex| u8::from_str_radix(hex, 16).ok());",
    "        match escaped \x7b",
    "            Some(byte) => \x7b",
    "                out.push(byte);",
    "                i += 3;",
    "            \x7d",
    "            None => \x7b",
    "                out.push(bytes[i]);",
    "                i += 1;",
    "            \x7d",
    "        \x7d",
    "    \x7d",
    "    String::from_utf8_lossy(&out).into_owned()",
    "\x7d"
  ]

/-- The keyword that a location ends in. -/
def lastToken : List String :=
  [
    "",
    "fn last_token(pointer: &str) -> String \x7b",
    "    pointer",
    "        .rsplit('/')",
    "        .next()",
    "        .unwrap_or_default()",
    "        .replace(\"~1\", \"/\")",
    "        .replace(\"~0\", \"~\")",
    "\x7d"
  ]

/-- A reason that no schema gives. -/
def internalError : List String :=
  [
    "",
    "fn internal_error(keyword: &str, message: String) -> ParsingError \x7b",
    "    ParsingError \x7b",
    "        instance_path: String::new(),",
    "        schema_path: String::new(),",
    "        keyword: keyword.to_string(),",
    "        params: Map::new(),",
    "        message: Some(message),",
    "    \x7d",
    "\x7d"
  ]

/-- The lines of the module after its mark. -/
def body : List String :=
  errorType ++ errorText ++ resultType ++ resultMethods ++ compiledType ++ compiledMethods ++
    parseCompiled ++ validateCompiled ++ collectErrors ++ keywordValue ++ percentDecode ++
    lastToken ++ internalError

/-- The module as a file. -/
def artifact : Artifact :=
  ⟨PackageLayout.resultModule,
    String.join ((Code.Writer.mark :: "" :: body).map fun line => line ++ "\n")⟩

end SchemaBindings.ResultModule
