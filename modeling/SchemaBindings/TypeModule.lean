import SchemaBindings.Artifact
import SchemaBindings.Code.Literal
import SchemaBindings.Code.Writer
import SchemaBindings.Lowering
import SchemaBindings.PackageLayout

/-! Modules that define types. Every item is written with its description as a comment. Where the
name in JSON is not the identifier, the name stands beside it as a literal. -/

namespace SchemaBindings.TypeModule

open Code (Writer)

/-- What structs and unions can do. -/
def dataDerives : String :=
  "#[derive(Debug, Clone, PartialEq, Serialize, Deserialize)]"

/-- What enumerations can do. -/
def enumDerives : String :=
  "#[derive(Debug, Clone, Copy, PartialEq, Eq, Hash, PartialOrd, Ord, Serialize, Deserialize)]"

/-- Writes a comment if there is one. -/
def writeDoc (w : Writer) (doc : Option String) : Writer :=
  match doc with
  | some text => w.doc text
  | none => w

/-- The name in JSON where it is not the identifier. -/
def renameArgument (ident jsonName : String) : List String :=
  if ident = jsonName then [] else ["rename = " ++ Code.quoted jsonName]

/-- How a field is read and written. -/
def fieldArguments (f : Field) : List String :=
  renameArgument f.ident f.jsonName ++
    (if f.required then [] else ["default", "skip_serializing_if = \"Option::is_none\""])

/-- Arguments as an attribute; none at all if there are none. -/
def attribute? (arguments : List String) : List String :=
  if arguments.isEmpty then [] else ["#[serde(" ++ ", ".intercalate arguments ++ ")]"]

/-- Writes a field. -/
def writeField (w : Writer) (f : Field) : Writer :=
  let w := writeDoc w f.doc
  let w := w.linesOf (attribute? (fieldArguments f))
  w.line ("pub " ++ f.ident ++ ": " ++ f.ty.render ++ ",")

/-- Writes the field for all other properties. -/
def writeExtra (w : Writer) (extra : Option (String × Ty)) : Writer :=
  match extra with
  | none => w
  | some (ident, value) =>
    (w.line "#[serde(flatten)]").line ("pub " ++ ident ++ ": " ++ (Ty.map value).render ++ ",")

/-- Writes a variant of an enumeration. -/
def writeVariant (w : Writer) (v : Variant) : Writer :=
  (w.linesOf (attribute? (renameArgument v.ident v.value))).line (v.ident ++ ",")

/-- Writes a variant of a union. -/
def writeArm (w : Writer) (a : Arm) : Writer :=
  w.line (a.ident ++ "(" ++ a.ty.render ++ "),")

/-- Writes an item. -/
def writeItem (w : Writer) (item : Item) : Writer :=
  let w := writeDoc w item.doc
  match item.shape with
  | .record fields denyUnknown extra =>
    let w := w.line dataDerives
    let w := if denyUnknown then w.line "#[serde(deny_unknown_fields)]" else w
    let w := w.opening ("pub struct " ++ item.name ++ " \x7b")
    (writeExtra (fields.foldl writeField w) extra).closing "\x7d"
  | .enumeration variants =>
    let w := (w.line enumDerives).opening ("pub enum " ++ item.name ++ " \x7b")
    (variants.foldl writeVariant w).closing "\x7d"
  | .union arms =>
    let w := (w.line dataDerives).line "#[serde(untagged)]"
    let w := w.opening ("pub enum " ++ item.name ++ " \x7b")
    (arms.foldl writeArm w).closing "\x7d"
  | .alias ty => w.line ("pub type " ++ item.name ++ " = " ++ ty.render ++ ";")

/-- Writes items with empty lines between them. -/
def writeItems (w : Writer) : List Item → Writer
  | [] => w
  | item :: rest => rest.foldl (fun w next => writeItem w.blank next) (writeItem w item)

/-- Whether an item is read and written through derived code. -/
def usesDerives (item : Item) : Bool := !item.isAlias

/-- A module that defines items. -/
def text (items : List Item) : String :=
  let w := Writer.marked
  let w := if items.any usesDerives then (w.line "use serde::\x7bDeserialize, Serialize\x7d;").blank
    else w
  (writeItems w items).text

/-- The module of one type. -/
def ofSchema (canonical : String) (schema : Json) : Option Artifact :=
  (lowerTypeModule canonical schema).map fun items =>
    ⟨PackageLayout.typeModule (moduleFileStem canonical), text items⟩

/-- The module of all types of a bundle. -/
def ofBundle (b : Bundle) : Option Artifact :=
  (lowerBundle b).map fun items => ⟨PackageLayout.bundledTypes, text items⟩

end SchemaBindings.TypeModule
