import SchemaBindings.Bundle
import SchemaBindings.Code.Identifier
import SchemaBindings.Code.NameScope
import SchemaBindings.Json.Equality
import SchemaBindings.TypeItem

/-! Compiling schemas to types. Objects with properties, enumerations of texts and unions become
items with names of their own; an item takes its place in the module before those it holds.

References lead into one document, or nowhere. The node that a reference leads to becomes an item
once; while it is being compiled, references to it are boxed. -/

namespace SchemaBindings

/-- The name for what a schema becomes: one that is taken already, or one that is still to be made
free. -/
inductive ItemName where
  | exact (name : String)
  | hint (name : String)
deriving DecidableEq, Repr

namespace ItemName

/-- The text of the name. -/
def base : ItemName → String
  | .exact n => n
  | .hint n => n

/-- A name for a part. -/
def child (n : ItemName) (part : String) : ItemName := .hint (n.base ++ part)

/-- A name for what an optional value holds. A name that is taken stays with the whole. -/
def inner : ItemName → ItemName
  | .exact n => .hint (n ++ "Inner")
  | .hint n => .hint n

end ItemName

/-- How far the compilation of a module is: the names that are taken, the places of items, the
names of nodes that references lead to, and which of these nodes are open or finished. -/
structure LowerState where
  scope : Code.NameScope
  slots : List (Option Item)
  named : List (Pointer × String)
  inProgress : List Pointer
  done : List Pointer

/-- Nothing is compiled. -/
def LowerState.empty : LowerState := ⟨.empty, [], [], [], []⟩

/-- The items in order. -/
def LowerState.items (s : LowerState) : List Item := s.slots.filterMap id

/-- A step of the compilation. It has no result when schemas are nested deeper than allowed. -/
abbrev LowerM := StateT LowerState Option

/-- How a schema is compiled under a name. -/
abbrev Lower := Json → ItemName → LowerM Ty

namespace Lowering

/-- Takes a place for an item. -/
def openSlot : LowerM Nat := do
  let s ← get
  set { s with slots := s.slots ++ [none] }
  return s.slots.length

/-- Puts an item at its place. -/
def fill (slot : Nat) (item : Item) : LowerM Unit :=
  modify fun s => { s with slots := s.slots.set slot (some item) }

/-- Takes a name. -/
def reserve (name : String) : LowerM Unit :=
  modify fun s => { s with scope := s.scope.reserve name }

/-- Takes the free name for a candidate. -/
def claimName (candidate : String) : LowerM String := do
  let s ← get
  let (name, scope) := s.scope.claim candidate
  set { s with scope := scope }
  return name

/-- The name under which an item is defined. -/
def claim : ItemName → LowerM String
  | .exact n => pure n
  | .hint n => claimName (Code.typeIdent n)

/-- The description of a schema, or its title if it has none. -/
def descriptionOf (ms : Members) : Option String :=
  match ms.get? "description" with
  | some v => v.text?
  | none => (ms.get? "title").bind Json.text?

/-- The description of a schema that may be no object. -/
def description (v : Json) : Option String := v.members?.bind descriptionOf

/-- The type of a constant. -/
def constantType : Json → Ty
  | .null => .unit
  | .bool _ => .bool
  | .number (.integer n) => if n < Nat.pow 2 63 then .integer else .unsigned
  | .number (.float _) => .number
  | .string _ => .string
  | .array _ => .array .any
  | .object _ => .object

/-- Whether a number is at least an integer. -/
def atLeast (k : Int) : JsonNumber → Bool
  | .integer n => k ≤ n
  | .float x => x.atLeast k

/-- Whether a number is greater than an integer. -/
def above (k : Int) : JsonNumber → Bool
  | .integer n => k < n
  | .float x => x.above k

/-- Whether the bound under a keyword is a number that satisfies a test. -/
def hasBound (ms : Members) (keyword : String) (test : JsonNumber → Bool) : Bool :=
  match ms.get? keyword with
  | some (.number n) => test n
  | _ => false

/-- Whether the bounds of a schema rule negative integers out. -/
def isNonNegative (ms : Members) : Bool :=
  hasBound ms "minimum" (atLeast 0) || hasBound ms "exclusiveMinimum" (above (-1))

/-- Whether a schema admits nothing but null and says so plainly. -/
def isNullSchema : Json → Bool
  | .object ms =>
    (match OrderedMap.get? ms "type" with
      | some (.string s) => s = "null"
      | _ => false) ||
    (match OrderedMap.get? ms "const" with
      | some .null => true
      | _ => false) ||
    (match OrderedMap.get? ms "enum" with
      | some (.array [.null]) => true
      | _ => false)
  | _ => false

/-- Adds a property unless it is there. -/
def addProperty (ms : Members) (e : String × Json) : Members :=
  if ms.has e.1 then ms else ms ++ [e]

/-- Adds a required name unless it is there. -/
def addRequired (xs : List Json) (x : Json) : List Json :=
  if xs.any (·.same x) then xs else xs ++ [x]

/-- Merges what two schemas say under one keyword. Properties and required names are united; of
all else the first schema's word stands. -/
def mergeValue (key : String) : (existing incoming : Json) → Json
  | .object a, .object b =>
    if key = "properties" then .object (b.foldl addProperty a) else .object a
  | .array a, .array b => if key = "required" then .array (b.foldl addRequired a) else .array a
  | existing, _ => existing

/-- Merges one keyword into a schema. -/
def mergeMember (target : Members) (e : String × Json) : Members :=
  match target.get? e.1 with
  | none => target ++ [e]
  | some existing => target.insert e.1 (mergeValue e.1 existing e.2)

/-- Merges a schema into another one. -/
def mergeSchema (target source : Members) : Members := source.foldl mergeMember target

/-- The pointer of a reference that stays in its document. -/
def localPointer? (reference : String) : Option Pointer :=
  match reference.toList with
  | '#' :: rest => Pointer.ofText? (Text.Percent.decode (String.ofList rest))
  | _ => none

/-- The node of the document that a reference leads to. -/
def localTarget? (root : Option Json) (reference : String) : Option (Pointer × Json) := do
  let document ← root
  let p ← localPointer? reference
  let target ← document.at? p
  return (p, target)

/-- Merges schemas into a schema in order, up to the first that cannot be had. -/
def mergeAll (schemaOf : Json → Option Members) (target : Members) (xs : List Json) :
    Option Members :=
  xs.foldlM (fun merged x => (schemaOf x).map (mergeSchema merged)) target

/-- How many steps through references and nested arms merging takes at most. -/
def mergeDepth : Nat := 32

/-- An arm of an `allOf` as one schema, with its reference and its own `allOf` merged in. `depth`
is how many arms may still open. -/
def flatten (root : Option Json) : (depth : Nat) → Json → Option Members
  | 0, _ => none
  | depth + 1, arm =>
    match arm with
    | .bool true => some []
    | .object ms => do
      let own := OrderedMap.remove ms "$ref"
      let own ← match OrderedMap.get? ms "$ref" with
        | some (.string reference) =>
          (localTarget? root reference).bind fun found =>
            (flatten root depth found.2).map (mergeSchema own)
        | _ => some own
      let rest := own.remove "allOf"
      match own.get? "allOf" with
      | some (.array arms) => mergeAll (flatten root depth) rest arms
      | _ => some rest
    | _ => none

/-- A name for the node that a pointer leads to, after its last token. -/
def nameOfPointer (p : Pointer) : String :=
  let pascal := Code.pascalCase (Pointer.unescapeToken (p.tokens.getLast?.getD ""))
  if pascal.isEmpty then "Definition" else pascal

/-- The name of the item for a node. -/
def nodeName (p : Pointer) : LowerM String := do
  match (← get).named.lookup p with
  | some name => return name
  | none =>
    let name ← claimName (Code.typeIdent (nameOfPointer p))
    modify fun s => { s with named := (p, name) :: s.named }
    return name

/-- Compiles a schema to an item with a name that is taken. A type that is not that item is given
the name. -/
def lowerNamed (lower : Lower) (schema : Json) (name : String) : LowerM Ty := do
  let slot ← openSlot
  let ty ← lower schema (.exact name)
  if ty ≠ .named name then fill slot ⟨name, description schema, .alias ty⟩
  return .named name

/-- Compiles the node that a reference leads to. -/
def lowerReference (root : Option Json) (lower : Lower) (reference : String) : LowerM Ty := do
  match localTarget? root reference with
  | none => return .any
  | some (p, target) =>
    let name ← nodeName p
    let s ← get
    if s.inProgress.contains p then return .boxed (.named name)
    if s.done.contains p then return .named name
    modify fun s => { s with inProgress := p :: s.inProgress }
    let ty ← lowerNamed lower target name
    modify fun s => { s with inProgress := s.inProgress.filter (· ≠ p), done := p :: s.done }
    return ty

/-- Compiles the arms of a union; the first has the given number. -/
def lowerArms {α : Type} (lower : α → ItemName → LowerM Ty) (itemName : String) (number : Nat)
    (idents : Code.NameScope) : List α → LowerM (List Arm)
  | [] => pure []
  | x :: xs => do
    let ty ← lower x (.hint (itemName ++ "Variant" ++ toString number))
    let (ident, idents) := idents.claim (Code.variantIdent ty.word)
    let arms ← lowerArms lower itemName (number + 1) idents xs
    return ⟨ident, ty⟩ :: arms

/-- The type of an item that may be absent. -/
def itemType (name : String) (nullable : Bool) : Ty :=
  if nullable then .option (.named name) else .named name

/-- The name of an item beside which null may be. -/
def payloadName (name : ItemName) (nullable : Bool) : ItemName :=
  if nullable then name.inner else name

/-- Compiles alternatives to a union. One alternative alone needs none. -/
def lowerAlternatives {α : Type} (lower : α → ItemName → LowerM Ty) (ms : Members)
    (name : ItemName) (alternatives : List α) (nullable : Bool) : LowerM Ty := do
  match alternatives, nullable with
  | [], true => return .unit
  | [], false => return .any
  | [x], false => lower x name
  | [x], true => return (← lower x name.inner).optional
  | xs, nullable =>
    let itemName ← claim (payloadName name nullable)
    let slot ← openSlot
    let arms ← lowerArms lower itemName 1 .empty xs
    fill slot ⟨itemName, descriptionOf ms, .union arms⟩
    return itemType itemName nullable

/-- Compiles the `oneOf` or `anyOf` of a schema. -/
def lowerUnion (lower : Lower) (ms : Members) (arms : List Json) (name : ItemName) : LowerM Ty :=
  lowerAlternatives lower ms name (arms.filter (!isNullSchema ·)) (arms.any isNullSchema)

/-- The texts of an enumeration without repetition, and whether null is among its values. An
enumeration of other values has none. -/
def enumTexts? : (texts : List String) → (nullable : Bool) → List Json →
    Option (List String × Bool)
  | texts, nullable, [] => some (texts, nullable)
  | texts, nullable, .string s :: rest =>
    enumTexts? (if texts.contains s then texts else texts ++ [s]) nullable rest
  | texts, _, .null :: rest => enumTexts? texts true rest
  | _, _, _ :: _ => none

/-- Compiles an enumeration. -/
def lowerEnum (values : List Json) (ms : Members) (name : ItemName) : LowerM Ty := do
  match enumTexts? [] false values with
  | none => return .any
  | some ([], nullable) => return if nullable then .unit else .any
  | some (texts, nullable) =>
    let itemName ← claim (payloadName name nullable)
    let (idents, _) := Code.NameScope.empty.claimAll (texts.map Code.variantIdent)
    let slot ← openSlot
    fill slot ⟨itemName, descriptionOf ms, .enumeration (idents.zipWith Variant.mk texts)⟩
    return itemType itemName nullable

/-- The names that a schema requires. -/
def requiredNames (ms : Members) : List String :=
  match ms.get? "required" with
  | some (.array xs) => xs.filterMap Json.text?
  | _ => []

/-- Compiles properties to fields. -/
def lowerFields (lower : Lower) (itemName : String) (required : List String)
    (idents : Code.NameScope) : Members → LowerM (List Field × Code.NameScope)
  | [] => pure ([], idents)
  | (property, schema) :: rest => do
    let (ident, idents) := idents.claim (Code.fieldIdent property)
    let isRequired := required.contains property
    let ty ← lower schema (.hint (itemName ++ Code.pascalCase property))
    let ty := if isRequired then ty else ty.optional
    let (fields, idents) ← lowerFields lower itemName required idents rest
    return (⟨property, ident, ty, isRequired, description schema⟩ :: fields, idents)

/-- Compiles an object without properties. -/
def lowerFreeObject (lower : Lower) (ms : Members) (name : ItemName) : LowerM Ty := do
  match ms.get? "additionalProperties" with
  | some (.object values) => return .map (← lower (.object values) (name.child "Value"))
  | _ => return .object

/-- What becomes of properties that are not declared: whether they are refused, and the field that
holds them. -/
def lowerExtra (lower : Lower) (ms : Members) (itemName : String) (idents : Code.NameScope) :
    LowerM (Bool × Option (String × Ty)) := do
  match ms.get? "additionalProperties" with
  | some (.bool false) => return (true, none)
  | some (.object values) =>
    let ident := idents.freshName "extra"
    let ty ← lower (.object values) (.hint (itemName ++ "Extra"))
    return (false, some (ident, ty))
  | _ => return (false, none)

/-- Compiles an object. -/
def lowerObject (lower : Lower) (ms : Members) (name : ItemName) : LowerM Ty := do
  match ms.get? "properties" with
  | some (.object properties) =>
    let itemName ← claim name
    let slot ← openSlot
    let (fields, idents) ←
      lowerFields lower itemName (requiredNames ms) .empty properties
    let (denyUnknown, extra) ← lowerExtra lower ms itemName idents
    fill slot ⟨itemName, descriptionOf ms, .record fields denyUnknown extra⟩
    return .named itemName
  | _ => lowerFreeObject lower ms name

/-- Compiles an array. Items that are given one by one are not looked at. -/
def lowerArray (lower : Lower) (ms : Members) (name : ItemName) : LowerM Ty := do
  match ms.get? "items" with
  | some (.object item) => return .array (← lower (.object item) (name.child "Item"))
  | some (.bool item) => return .array (← lower (.bool item) (name.child "Item"))
  | _ => return .array .any

/-- Compiles a schema of a kind of value. -/
def lowerKind (lower : Lower) (kind : String) (ms : Members) (name : ItemName) : LowerM Ty :=
  match kind with
  | "string" => pure .string
  | "integer" => pure (if isNonNegative ms then .unsigned else .integer)
  | "number" => pure .number
  | "boolean" => pure .bool
  | "null" => pure .unit
  | "array" => lowerArray lower ms name
  | "object" => lowerObject lower ms name
  | _ => pure .any

/-- The kinds of a list other than null, without repetition. -/
def otherKinds (kinds : List String) : List String :=
  (kinds.filter (· ≠ "null")).foldl (fun ks k => if ks.contains k then ks else ks ++ [k]) []

/-- Compiles a schema of several kinds of value. -/
def lowerKinds (lower : Lower) (kinds : List Json) (ms : Members) (name : ItemName) : LowerM Ty :=
  let texts := kinds.filterMap Json.text?
  lowerAlternatives (fun kind => lowerKind lower kind ms) ms name (otherKinds texts)
    (texts.contains "null")

/-- Compiles the schema that the arms of an `allOf` make together. -/
def lowerAllOf (root : Option Json) (lower : Lower) (ms : Members) (arms : List Json)
    (name : ItemName) : LowerM Ty :=
  match mergeAll (flatten root (mergeDepth + 1)) (ms.remove "allOf") arms with
  | some merged => lower (.object merged) name
  | none => pure .any

/-- The arms of the union that a schema without properties is. -/
def unionArms? (ms : Members) : Option (List Json) :=
  if ms.has "properties" then none
  else match ms.get? "oneOf", ms.get? "anyOf" with
    | some (.array arms), _ => some arms
    | _, some (.array arms) => some arms
    | _, _ => none

/-- Compiles a schema by its type, or by the keywords that tell its type. -/
def lowerByType (lower : Lower) (ms : Members) (name : ItemName) : LowerM Ty :=
  match ms.get? "type" with
  | some (.string kind) => lowerKind lower kind ms name
  | some (.array kinds) => lowerKinds lower kinds ms name
  | _ =>
    if ms.has "properties" || ms.has "additionalProperties" then lowerObject lower ms name
    else if ms.has "items" then lowerArray lower ms name
    else pure .any

/-- Compiles a schema that is an object and no reference, constant or enumeration. -/
def lowerComposed (root : Option Json) (lower : Lower) (ms : Members) (name : ItemName) :
    LowerM Ty :=
  match ms.get? "allOf" with
  | some (.array arms) => lowerAllOf root lower ms arms name
  | _ =>
    match unionArms? ms with
    | some arms => lowerUnion lower ms arms name
    | none => lowerByType lower ms name

/-- Compiles a schema that is an object. -/
def lowerMembers (root : Option Json) (lower : Lower) (ms : Members) (name : ItemName) :
    LowerM Ty :=
  match ms.get? "$ref" with
  | some (.string reference) => lowerReference root lower reference
  | _ =>
    match ms.get? "const" with
    | some v => pure (constantType v)
    | none =>
      match ms.get? "enum" with
      | some (.array values) => lowerEnum values ms name
      | _ => lowerComposed root lower ms name

/-- Compiles a schema. `depth` is how many schemas may be open within one another. -/
def lower (root : Option Json) : (depth : Nat) → Lower
  | 0, _, _ => fun _ => none
  | depth + 1, .object ms, name => lowerMembers root (lower root depth) ms name
  | _ + 1, _, _ => pure .any

/-- Gives the node that a pointer leads to a name. -/
def bind (p : Pointer) (name : String) : LowerM Unit := do
  reserve name
  modify fun s => { s with named := (p, name) :: s.named }

/-- Compiles a schema to an item with a name. -/
def lowerRoot (root : Option Json) (depth : Nat) (schema : Json) (name : String) : LowerM Ty := do
  reserve name
  lowerNamed (lower root depth) schema name

/-- Compiles the node that a pointer leads to. -/
def lowerPointer (root : Option Json) (depth : Nat) (p : Pointer) : LowerM Ty :=
  lowerReference root (lower root depth) p.fragment

/-- How deep schemas of some size may be open within one another. -/
def depthFor (size : Nat) : Nat := (size + 64) * (size + 64)

end Lowering

/-- The items for a schema without references. The first item is the type itself. -/
def lowerTypeModule (canonical : String) (schema : Json) : Option (List Item) :=
  let depth := Lowering.depthFor schema.size
  ((Lowering.lowerRoot none depth schema (Code.typeIdent canonical)).run .empty).map
    fun r => r.2.items

/-- Compiles the members of a bundle under their names. -/
def lowerBundleWith (depth : Nat) (b : Bundle) : LowerM Unit := do
  b.members.forM fun m => Lowering.bind m.location (Code.typeIdent m.canonicalName)
  b.members.forM fun m => do
    let _ ← Lowering.lowerPointer (some b.document) depth m.location

/-- The items for all members of a bundle. -/
def lowerBundle (b : Bundle) : Option (List Item) :=
  ((lowerBundleWith (Lowering.depthFor b.document.size) b).run .empty).map fun r => r.2.items

end SchemaBindings
