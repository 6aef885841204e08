import SchemaBindings.Json.Equality

/-! When a JSON value is a schema. A schema is a boolean or an object, and a dialect says of what
form the values of its keywords are. Under a keyword that the dialect does not know, anything may
stand. -/

namespace SchemaBindings

/-- The form of a keyword's value. -/
inductive KeywordForm where
  | anything
  | schema
  | schemas
  | schemaOrFlag
  | schemaOrSchemas
  | namedSchemas
  | dependencies
  | typeNames
  | array
  | distinctItems
  | number
  | positive
  | count
  | wholeCount
  | flag
  | text
  | identifier
  | anchor
  | colonAnchor
  | distinctTexts
  | someTexts
  | namedTexts
  | namedFlags
deriving DecidableEq, Repr

/-- A version of the schema language. -/
inductive Dialect where
  | draft4
  | draft6
  | draft7
  | draft2019
  | draft2020
deriving DecidableEq, Repr

namespace KeywordForm

/-- The names of the types that a value can have. -/
def knownTypes : List String :=
  ["array", "boolean", "integer", "null", "number", "object", "string"]

/-- The texts of an array that holds nothing else, if no text comes twice. -/
def distinctTexts? (v : Json) : Option (List String) :=
  match v.items?.bind (·.mapM Json.text?) with
  | some ts => if ts.Nodup then some ts else none
  | none => none

/-- The same, if there is at least one text. -/
def someTexts? (v : Json) : Option (List String) := (distinctTexts? v).filter (!·.isEmpty)

/-- Whether all items differ. -/
def areDistinct : List Json → Bool
  | [] => true
  | x :: xs => !xs.any x.same && areDistinct xs

/-- Whether a value is an array of at least one item whose items all differ. -/
def isDistinctArray (v : Json) : Bool :=
  match v.items? with
  | some xs => !xs.isEmpty && areDistinct xs
  | none => false

/-- Whether a value is the name of a type, or several different ones. -/
def areTypeNames (v : Json) : Bool :=
  match v.text?, distinctTexts? v with
  | some name, _ => knownTypes.contains name
  | none, some names => !names.isEmpty && names.all knownTypes.contains
  | none, none => false

/-- Whether a number is above zero. -/
def isPositive : JsonNumber → Bool
  | .integer n => 0 < n
  | .float x => x.above 0

/-- Whether a number is written without a fraction and not negative. -/
def isWholeCount : JsonNumber → Bool
  | .integer n => 0 ≤ n
  | .float _ => false

/-- Whether a number can count something: it is whole and not negative, however it is written. -/
def isCount : JsonNumber → Bool
  | .integer n => 0 ≤ n
  | .float x => x.isInteger && x.atLeast 0

/-- Whether a text has at most one hash sign, and that at its end. -/
def isIdentifier (s : String) : Bool :=
  let cs := s.toList
  !cs.dropLast.contains '#'

/-- Whether a text can name a place in a schema: what it starts with, and what else it may hold
beside letters, digits and a few signs. -/
def isAnchor (start more : List Char) (s : String) : Bool :=
  match s.toList with
  | [] => false
  | c :: rest =>
    (c.isAlpha || start.contains c) &&
      rest.all fun c => c.isAlphanum || c = '-' || c = '.' || c = '_' || more.contains c

/-- Whether a value is an object whose values all pass a test. -/
def isMapOf (test : Json → Bool) (v : Json) : Bool :=
  match v.members? with
  | some ms => ms.all fun m => test m.2
  | none => false

/-- Whether a value is a boolean. -/
def isFlag : Json → Bool
  | .bool _ => true
  | _ => false

/-- Whether a value is of a form that takes no look at schemas. -/
def fits : KeywordForm → Json → Bool
  | .anything, _ => true
  | .typeNames, v => areTypeNames v
  | .array, v => v.items?.isSome
  | .distinctItems, v => isDistinctArray v
  | .number, .number _ => true
  | .positive, .number n => isPositive n
  | .count, .number n => isCount n
  | .wholeCount, .number n => isWholeCount n
  | .flag, v => isFlag v
  | .text, v => v.text?.isSome
  | .identifier, .string s => isIdentifier s
  | .anchor, .string s => isAnchor ['_'] [] s
  | .colonAnchor, .string s => isAnchor [] [':'] s
  | .distinctTexts, v => (distinctTexts? v).isSome
  | .someTexts, v => (someTexts? v).isSome
  | .namedTexts, v => isMapOf (fun w => (distinctTexts? w).isSome) v
  | .namedFlags, v => isMapOf isFlag v
  | _, _ => false

end KeywordForm

namespace Dialect

/-- The keywords of all dialects, by the form of their values. -/
def basicForms : List (KeywordForm × List String) := [
  (.schema, ["not"]),
  (.schemas, ["allOf", "anyOf", "oneOf"]),
  (.namedSchemas, ["definitions", "patternProperties", "properties"]),
  (.dependencies, ["dependencies"]),
  (.typeNames, ["type"]),
  (.number, ["maximum", "minimum"]),
  (.positive, ["multipleOf"]),
  (.flag, ["uniqueItems"]),
  (.text, ["$ref", "$schema", "description", "format", "pattern", "title"])]

/-- The keywords whose values tell how many there may be of something. -/
def countKeywords : List String :=
  ["maxItems", "maxLength", "maxProperties", "minItems", "minLength", "minProperties"]

/-- The keywords that only the oldest dialect has, or that have a form of their own in it. -/
def oldestForms : List (KeywordForm × List String) := [
  (.schemaOrFlag, ["additionalItems", "additionalProperties"]),
  (.flag, ["exclusiveMaximum", "exclusiveMinimum"]),
  (.wholeCount, countKeywords),
  (.text, ["id"]),
  (.someTexts, ["required"])]

/-- The keywords of all dialects but the oldest. -/
def draft6Forms : List (KeywordForm × List String) := [
  (.schema, ["additionalProperties", "contains", "propertyNames"]),
  (.array, ["examples"]),
  (.number, ["exclusiveMaximum", "exclusiveMinimum"]),
  (.count, countKeywords),
  (.distinctTexts, ["required"])]

/-- The keywords that came after those. -/
def draft7Forms : List (KeywordForm × List String) := [
  (.schema, ["else", "if", "then"]),
  (.array, ["enum"]),
  (.flag, ["readOnly", "writeOnly"]),
  (.text, ["$comment", "contentEncoding", "contentMediaType"])]

/-- The keywords that came after those. -/
def draft2019Forms : List (KeywordForm × List String) := [
  (.schema, ["contentSchema", "unevaluatedItems", "unevaluatedProperties"]),
  (.namedSchemas, ["$defs", "dependentSchemas"]),
  (.count, ["maxContains", "minContains"]),
  (.flag, ["deprecated"]),
  (.text, ["$recursiveRef"]),
  (.identifier, ["$id"]),
  (.namedTexts, ["dependentRequired"]),
  (.namedFlags, ["$vocabulary"])]

/-- The keywords that only the newest dialect has, or that have a form of their own in it. -/
def draft2020Forms : List (KeywordForm × List String) := [
  (.schema, ["items"]),
  (.schemas, ["prefixItems"]),
  (.text, ["$dynamicRef"]),
  (.anchor, ["$anchor", "$dynamicAnchor", "$recursiveAnchor"])]

/-- The keywords for items that are given one by one, which the newest dialect has no longer. -/
def listForms : List (KeywordForm × List String) := [
  (.schemaOrSchemas, ["items"]),
  (.schema, ["additionalItems"])]

/-- The keywords of a dialect, by the form of their values. -/
def forms : Dialect → List (KeywordForm × List String)
  | .draft4 => oldestForms ++ basicForms ++ (.distinctItems, ["enum"]) :: listForms
  | .draft6 =>
    basicForms ++ draft6Forms ++ (.distinctItems, ["enum"]) :: (.text, ["$id"]) :: listForms
  | .draft7 => basicForms ++ draft6Forms ++ draft7Forms ++ (.text, ["$id"]) :: listForms
  | .draft2019 =>
    basicForms ++ draft6Forms ++ draft7Forms ++ draft2019Forms ++
      (.flag, ["$recursiveAnchor"]) :: (.colonAnchor, ["$anchor"]) :: listForms
  | .draft2020 => basicForms ++ draft6Forms ++ draft7Forms ++ draft2019Forms ++ draft2020Forms

/-- The form of the value under a keyword. -/
def formOf (d : Dialect) (keyword : String) : KeywordForm :=
  match d.forms.find? (·.2.contains keyword) with
  | some (form, _) => form
  | none => .anything

/-- Whether a value is a list of names that a property may depend on. -/
def areDependedOn (d : Dialect) (v : Json) : Bool :=
  if d = .draft4 then (KeywordForm.someTexts? v).isSome else (KeywordForm.distinctTexts? v).isSome

/-- Whether what a member asks of the other members holds: in the oldest dialect, that a bound is
exclusive is said beside the bound. -/
def hasCompany (d : Dialect) (ms : Members) : Bool :=
  d ≠ .draft4 ||
    ((!ms.has "exclusiveMaximum" || ms.has "maximum") &&
      (!ms.has "exclusiveMinimum" || ms.has "minimum"))

mutual
/-- Whether a value is a schema of a dialect. -/
def admits (d : Dialect) : Json → Bool
  | .bool _ => d ≠ .draft4
  | .object ms => d.hasCompany ms && admitsMembers d ms
  | _ => false

/-- Whether all items are schemas. -/
def admitsItems (d : Dialect) : List Json → Bool
  | [] => true
  | x :: xs => admits d x && admitsItems d xs

/-- Whether the members of a schema have the forms of their keywords. -/
def admitsMembers (d : Dialect) : List (String × Json) → Bool
  | [] => true
  | (key, v) :: ms =>
    (match d.formOf key, v with
      | .schema, v => admits d v
      | .schemas, .array xs => !xs.isEmpty && admitsItems d xs
      | .schemaOrFlag, .bool _ => true
      | .schemaOrFlag, v => admits d v
      | .schemaOrSchemas, .array xs => !xs.isEmpty && admitsItems d xs
      | .schemaOrSchemas, v => admits d v
      | .namedSchemas, .object named => admitsNamed d named
      | .dependencies, .object named => admitsDependencies d named
      | form, v => form.fits v) && admitsMembers d ms

/-- Whether all named values are schemas. -/
def admitsNamed (d : Dialect) : List (String × Json) → Bool
  | [] => true
  | (_, v) :: ms => admits d v && admitsNamed d ms

/-- Whether all named values are schemas or lists of names. -/
def admitsDependencies (d : Dialect) : List (String × Json) → Bool
  | [] => true
  | (_, v) :: ms =>
    (d.areDependedOn v || admits d v) && admitsDependencies d ms
end

/-- The dialects by their addresses, without the hash signs that may follow. -/
def addresses : List (String × Dialect) := [
  ("http://json-schema.org/draft-04/schema", .draft4),
  ("http://json-schema.org/draft-06/schema", .draft6),
  ("http://json-schema.org/draft-07/schema", .draft7),
  ("https://json-schema.org/draft/2019-09/schema", .draft2019),
  ("https://json-schema.org/draft/2020-12/schema", .draft2020)]

/-- The dialect at an address. -/
def ofAddress? (address : String) : Option Dialect :=
  addresses.lookup (String.ofList (address.toList.reverse.dropWhile (· = '#')).reverse)

/-- The dialect that a document says it is in, if that is a known one; the newest if it does not
tell. -/
def ofDocument? (v : Json) : Option Dialect :=
  match (v.members?.bind (OrderedMap.get? · "$schema")).bind Json.text? with
  | some address => ofAddress? address
  | none => some .draft2020

end Dialect

end SchemaBindings
