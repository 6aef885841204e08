import SchemaBindings.Decimal.Binary64
import SchemaBindings.OrderedMap

/-! JSON values. Objects keep their members in the order in which keys first came, so that a
schema is written out the way it was read. -/

namespace SchemaBindings

/-- A JSON number. Integers of 64 bits, signed or unsigned, are exact; all else is floating. -/
inductive JsonNumber where
  | integer (n : Int)
  | float (x : Binary64)
deriving DecidableEq, Repr

/-- A JSON value. The keys of an object are distinct. -/
inductive Json where
  | null
  | bool (b : Bool)
  | number (n : JsonNumber)
  | string (s : String)
  | array (items : List Json)
  | object (members : List (String × Json))
deriving Inhabited

/-- The members of an object. -/
abbrev Members := OrderedMap Json

namespace Json

/-- The members of an object. -/
def members? : Json → Option Members
  | .object ms => some ms
  | _ => none

/-- The items of an array. -/
def items? : Json → Option (List Json)
  | .array xs => some xs
  | _ => none

/-- The text of a string. -/
def text? : Json → Option String
  | .string s => some s
  | _ => none

end Json

end SchemaBindings
