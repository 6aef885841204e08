import SchemaBindings.Json.Value

/-! When two JSON values are the same. The order of an object's members does not matter; integers
and floating numbers are never the same, and the two zeros are. -/

namespace SchemaBindings

/-- Whether two numbers are the same. -/
def JsonNumber.same : JsonNumber → JsonNumber → Bool
  | .integer a, .integer b => a = b
  | .float x, .float y => x = y || (x.mantissa = 0 && y.mantissa = 0)
  | _, _ => false

namespace Json

mutual
/-- Whether two values are the same. -/
def same : Json → Json → Bool
  | .null, .null => true
  | .bool a, .bool b => a = b
  | .number a, .number b => a.same b
  | .string a, .string b => a = b
  | .array xs, .array ys => sameItems xs ys
  | .object ms, .object ns => ms.length = ns.length && sameMembers ms ns
  | _, _ => false

/-- Whether items are the same one by one. -/
def sameItems : List Json → List Json → Bool
  | [], [] => true
  | x :: xs, y :: ys => same x y && sameItems xs ys
  | _, _ => false

/-- Whether each member is the same as the one under its key in an object. -/
def sameMembers : List (String × Json) → Members → Bool
  | [], _ => true
  | (key, v) :: ms, other =>
    (match other.get? key with
      | some w => same v w
      | none => false) && sameMembers ms other
end

mutual
/-- How many values a value holds, itself counted. -/
def size : Json → Nat
  | .array xs => sizeItems xs + 1
  | .object ms => sizeMembers ms + 1
  | _ => 1

/-- How many values some items hold. -/
def sizeItems : List Json → Nat
  | [] => 0
  | x :: xs => size x + sizeItems xs

/-- How many values some members hold. -/
def sizeMembers : List (String × Json) → Nat
  | [] => 0
  | (_, v) :: ms => size v + sizeMembers ms
end

end Json

end SchemaBindings
