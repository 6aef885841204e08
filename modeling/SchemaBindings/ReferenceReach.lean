import SchemaBindings.Json.Equality
import SchemaBindings.Reference

/-! The references that a validator of a document follows. It starts at the root and looks at the
keywords that it applies; a schema that is only kept for others is looked at once a reference leads
to it. A condition is applied where something hangs on it: a branch, or which properties and items
count as evaluated. A schema with an `$id` is a document of its own, so pointers below it start at
it. -/

namespace SchemaBindings.ReferenceReach

/-- How the value under an applied keyword holds schemas. -/
inductive Holding where
  | schema
  | items
  | named
deriving DecidableEq, Repr

/-- The applied keywords by how they hold schemas. -/
def appliedKeywords : List (Holding × List String) := [
  (.schema, ["additionalProperties", "contains", "else", "if", "items", "not", "propertyNames",
    "then", "unevaluatedItems", "unevaluatedProperties"]),
  (.items, ["allOf", "anyOf", "oneOf", "prefixItems"]),
  (.named, ["dependencies", "dependentSchemas", "patternProperties", "properties"])]

/-- How the value under a keyword holds schemas, if the keyword is applied at all. -/
def holding? (keyword : String) : Option Holding :=
  (appliedKeywords.find? (·.2.contains keyword)).map (·.1)

/-- The keywords that are applied only beside a condition. -/
def branchKeywords : List String := ["else", "then"]

/-- The keywords for what nothing has evaluated. -/
def unevaluatedKeywords : List String := ["unevaluatedItems", "unevaluatedProperties"]

/-- The keywords whose schemas evaluate the same value as the schema around them. -/
def inPlaceKeywords : List String :=
  ["$ref", "allOf", "anyOf", "dependentSchemas", "else", "if", "oneOf", "then"]

/-- Whether the members of a schema make it a document of its own. -/
def isOwnDocument (ms : Members) : Bool :=
  match (ms.get? "$id").bind Json.text? with
  | some id => id.toList.any (· ≠ '#')
  | none => false

/-- A node that is looked at; `evaluated` tells that it matters what the node evaluates. -/
structure Place where
  node : Pointer
  evaluated : Bool
deriving DecidableEq, Repr

/-- A reference text, the node that its pointer starts from, and whether it matters what its target
evaluates. -/
structure Link where
  base : Pointer
  reference : String
  evaluated : Bool
deriving DecidableEq, Repr

/-- What the members of a schema tell about one another. -/
structure Surroundings where
  base : Pointer
  evaluated : Bool
  conditional : Bool
  branching : Bool

namespace Surroundings

/-- The surroundings of the members of a schema at a place. -/
def ofMembers (base : Pointer) (p : Place) (ms : Members) : Surroundings :=
  let asks (keyword : String) : Bool :=
    match ms.get? keyword with
    | none | some (.bool true) => false
    | some _ => true
  { base := if isOwnDocument ms then p.node else base
    evaluated := p.evaluated || unevaluatedKeywords.any asks
    conditional := ms.has "if"
    branching := branchKeywords.any ms.has }

/-- Whether a keyword is applied. -/
def applies (s : Surroundings) (keyword : String) : Bool :=
  if keyword = "if" then s.branching || s.evaluated
  else !branchKeywords.contains keyword || s.conditional

/-- How the value under a keyword holds schemas, if the keyword is applied. -/
def holding? (s : Surroundings) (keyword : String) : Option Holding :=
  if s.applies keyword then ReferenceReach.holding? keyword else none

/-- Whether it matters what the schemas under a keyword evaluate. -/
def evaluates (s : Surroundings) (keyword : String) : Bool :=
  s.evaluated && inPlaceKeywords.contains keyword

end Surroundings

mutual
/-- The references that are followed from a node. -/
def linksOf (base : Pointer) (p : Place) : Json → List Link
  | .object ms => linksOfMembers (.ofMembers base p ms) p.node ms
  | _ => []

/-- The references that are followed from items; the first has the given index. -/
def linksOfItems (base : Pointer) (p : Place) (index : Nat) : List Json → List Link
  | [] => []
  | x :: xs =>
    linksOf base { p with node := p.node.item index } x ++ linksOfItems base p (index + 1) xs

/-- The references that are followed from named schemas. -/
def linksOfNamed (base : Pointer) (p : Place) : List (String × Json) → List Link
  | [] => []
  | (name, v) :: ms =>
    linksOf base { p with node := p.node.child name } v ++ linksOfNamed base p ms

/-- The references that are followed from the members of a schema. -/
def linksOfMembers (s : Surroundings) (here : Pointer) : List (String × Json) → List Link
  | [] => []
  | (key, v) :: ms =>
    let below : Place := ⟨here.child key, s.evaluates key⟩
    (match v with
      | .string reference => if key = "$ref" then [⟨s.base, reference, below.evaluated⟩] else []
      | .object named =>
        match s.holding? key with
        | some .schema => linksOf s.base below (.object named)
        | some .named => linksOfNamed s.base below named
        | _ => []
      | .array xs =>
        if s.holding? key = some .items then linksOfItems s.base below 0 xs else []
      | _ => []) ++ linksOfMembers s here ms
end

/-- The name that a spelled token stands for. A `~` that starts no escape takes the character behind
it along. -/
def unescapeChars : List Char → List Char
  | '~' :: '1' :: rest => '/' :: unescapeChars rest
  | '~' :: '0' :: rest => '~' :: unescapeChars rest
  | '~' :: c :: rest => '~' :: c :: unescapeChars rest
  | c :: rest => c :: unescapeChars rest
  | [] => []

/-- Reads a token as an index: digits, which may have zeros or one plus sign in front. -/
def index? (token : String) : Option Nat :=
  let digits := match token.toList with
    | '+' :: cs => cs
    | cs => cs
  if !digits.isEmpty && digits.all Char.isDigit then
    let n := Nat.ofDigitChars 10 digits 0
    if n ≤ Pointer.indexLimit then some n else none
  else none

/-- The node one token below a node. -/
def step? (v : Json) (token : String) : Option Json :=
  match v with
  | .object ms => OrderedMap.get? ms (String.ofList (unescapeChars token.toList))
  | .array xs => (index? token).bind (xs[·]?)
  | _ => none

/-- The node that a pointer leads to. -/
def nodeAt? (v : Json) (p : Pointer) : Option Json := p.tokens.foldlM step? v

/-- The node that pointers start from where some tokens lead to. -/
def baseOf (base here : Pointer) (v : Json) (tokens : List String) : Pointer :=
  let base := match v with
    | .object ms => if isOwnDocument ms then here else base
    | _ => base
  match tokens with
  | [] => base
  | token :: rest =>
    match step? v token with
    | some next => baseOf base (here.append [token]) next rest
    | none => base

/-- Where a reference leads to. Only local ones lead anywhere. -/
def Link.target? (l : Link) : Option Place :=
  match RefTarget.parse l.reference with
  | .ok target =>
    if target.isLocal then some ⟨l.base.append target.pointer.tokens, l.evaluated⟩ else none
  | .error _ => none

/-- Whether the references in reach of some places all lead to nodes. The places in `seen` have been
looked at, those in `pending` have not; `steps` more may be. -/
def allLead (root : Json) : (steps : Nat) → (seen pending : List Place) → Bool
  | _, _, [] => true
  | 0, _, _ :: _ => false
  | steps + 1, seen, p :: pending =>
    match nodeAt? root p.node with
    | none => false
    | some v =>
      match (linksOf (baseOf .root .root root p.node.tokens) p v).mapM Link.target? with
      | none => false
      | some targets =>
        let seen := p :: seen
        let fresh := targets.eraseDups.filter fun q => !seen.contains q && !pending.contains q
        allLead root steps seen (fresh ++ pending)

/-- Whether every reference that a validator of a document follows leads to a node. A target is a
node to start from, a reference text and a flag, which bounds their number. -/
def isClosed (root : Json) : Bool :=
  allLead root (2 * (root.size + 1) * (referenceCount root + 1)) [] [⟨.root, false⟩]

end SchemaBindings.ReferenceReach
