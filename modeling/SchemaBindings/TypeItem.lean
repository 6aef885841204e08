/-! The types that a schema is compiled to: what may stand where a value is expected, and the named
items that a module defines. -/

namespace SchemaBindings

/-- The type of a value. -/
inductive Ty where
  | any
  | unit
  | bool
  | integer
  | unsigned
  | number
  | string
  | object
  | array (item : Ty)
  | map (value : Ty)
  | option (inner : Ty)
  | boxed (inner : Ty)
  | named (name : String)
deriving DecidableEq, Repr, Inhabited

namespace Ty

/-- Allows a value to be absent. -/
def optional : Ty → Ty
  | .option t => .option t
  | t => .option t

/-- The type as code. -/
def render : Ty → String
  | .any => "serde_json::Value"
  | .unit => "()"
  | .bool => "bool"
  | .integer => "i64"
  | .unsigned => "u64"
  | .number => "f64"
  | .string => "String"
  | .object => "serde_json::Map<String, serde_json::Value>"
  | .array t => "Vec<" ++ t.render ++ ">"
  | .map t => "std::collections::BTreeMap<String, " ++ t.render ++ ">"
  | .option t => "Option<" ++ t.render ++ ">"
  | .boxed t => "Box<" ++ t.render ++ ">"
  | .named n => n

/-- A word for the type, after which the variant of a union is called. -/
def word : Ty → String
  | .any => "Value"
  | .unit => "Null"
  | .bool => "Bool"
  | .integer => "Integer"
  | .unsigned => "Integer"
  | .number => "Number"
  | .string => "String"
  | .object => "Object"
  | .array _ => "Array"
  | .map _ => "Object"
  | .option t => t.word
  | .boxed t => t.word
  | .named n => n

end Ty

/-- A field of a struct and the property that it holds. -/
structure Field where
  jsonName : String
  ident : String
  ty : Ty
  required : Bool
  doc : Option String
deriving DecidableEq, Repr

/-- A variant of an enumeration and the text that it stands for. -/
structure Variant where
  ident : String
  value : String
deriving DecidableEq, Repr

/-- A variant of a union and what it holds. -/
structure Arm where
  ident : String
  ty : Ty
deriving DecidableEq, Repr

/-- What an item is. `extra` holds all properties that no field holds. -/
inductive ItemShape where
  | record (fields : List Field) (denyUnknown : Bool) (extra : Option (String × Ty))
  | enumeration (variants : List Variant)
  | union (arms : List Arm)
  | alias (ty : Ty)
deriving DecidableEq, Repr

/-- A named definition of a module. -/
structure Item where
  name : String
  doc : Option String
  shape : ItemShape
deriving DecidableEq, Repr

namespace Item

/-- Whether the item only gives another type a name. -/
def isAlias (i : Item) : Bool :=
  match i.shape with
  | .alias _ => true
  | _ => false

end Item

end SchemaBindings
