import SchemaBindings.Error
import SchemaBindings.Json.Pointer
import SchemaBindings.Text.Search

/-! References between schemas. A reference names a file, seen from the document it stands in, and
a node of that file; either part may be missing. References are meant only where a schema may
stand, and the keyword above a value tells whether that is so. -/

namespace SchemaBindings

/-- What the value under a keyword is. -/
inductive ChildKind where
  | data
  | namedSchemas
  | schema
deriving DecidableEq, Repr

/-- The keywords whose values are data and hold no schemas. -/
def dataKeywords : List String := ["const", "enum", "default", "examples"]

/-- The keywords whose values give schemas under free names. -/
def namedSchemaKeywords : List String :=
  ["properties", "patternProperties", "$defs", "definitions", "dependentSchemas", "dependencies"]

/-- What the value under a keyword is. Under all other keywords it is read as a schema. -/
def childKind (keyword : String) : ChildKind :=
  if dataKeywords.contains keyword then .data
  else if namedSchemaKeywords.contains keyword then .namedSchemas
  else .schema

/-- What a reference asks for. Without a file it stays in its document. -/
structure RefTarget where
  file? : Option String
  pointer : Pointer
deriving DecidableEq, Repr

namespace RefTarget

/-- Whether a reference leads to another host. -/
def isRemote (reference : String) : Bool :=
  Text.contains "://".toList reference.toList || "urn:".toList.isPrefixOf reference.toList

/-- Splits a reference at the first hash sign. -/
def split (reference : String) : String × String :=
  let cs := reference.toList
  (String.ofList (cs.takeWhile (· ≠ '#')), String.ofList ((cs.dropWhile (· ≠ '#')).drop 1))

/-- Reads a reference. -/
def parse (reference : String) : Except ResolveError RefTarget :=
  if isRemote reference then .error (.unsupported reference .remote)
  else
    let (file, fragment) := split reference
    let file? := if file.isEmpty then none else some (Text.Percent.decode file)
    if fragment.isEmpty then .ok ⟨file?, .root⟩
    else if fragment.toList.head? ≠ some '/' then .error (.unsupported reference .anchor)
    else
      match Pointer.ofText? (Text.Percent.decode fragment) with
      | some p => .ok ⟨file?, p⟩
      | none => .error (.unsupported reference .anchor)

/-- Whether the reference stays in its document. -/
def isLocal (t : RefTarget) : Bool := t.file?.isNone

end RefTarget

mutual
/-- Whether a reference is left where a schema may stand. -/
def containsRef : Json → Bool
  | .object ms => membersContainRef ms
  | .array xs => itemsContainRef xs
  | _ => false

/-- Whether one of some items holds a reference. -/
def itemsContainRef : List Json → Bool
  | [] => false
  | x :: xs => containsRef x || itemsContainRef xs

/-- Whether the members of a schema are, or hold, a reference. -/
def membersContainRef : List (String × Json) → Bool
  | [] => false
  | (key, v) :: ms =>
    (key = "$ref" && v.text?.isSome) ||
    (match childKind key, v with
      | .data, _ => false
      | .namedSchemas, .object named => namedContainRef named
      | _, v => containsRef v) ||
    membersContainRef ms

/-- Whether one of some named schemas holds a reference. -/
def namedContainRef : List (String × Json) → Bool
  | [] => false
  | (_, v) :: ms => containsRef v || namedContainRef ms
end

mutual
/-- How many reference texts a value holds, wherever they stand. -/
def referenceCount : Json → Nat
  | .object ms => memberReferenceCount ms
  | .array xs => itemReferenceCount xs
  | _ => 0

/-- How many reference texts some items hold. -/
def itemReferenceCount : List Json → Nat
  | [] => 0
  | x :: xs => referenceCount x + itemReferenceCount xs

/-- How many reference texts some members are or hold. -/
def memberReferenceCount : List (String × Json) → Nat
  | [] => 0
  | (key, v) :: ms =>
    (if key = "$ref" && v.text?.isSome then 1 else 0) + referenceCount v + memberReferenceCount ms
end

/-- The keywords that only mean something at the root of a document of its own. -/
def rootKeywords : List String := ["$schema", "$id"]

/-- A whole document on its way into another one. -/
def withoutRootKeywords : Json → Json
  | .object ms => .object (rootKeywords.foldl OrderedMap.remove ms)
  | v => v

end SchemaBindings
