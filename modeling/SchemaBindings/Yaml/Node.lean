import SchemaBindings.Yaml.Token

/-! What a YAML document says, as far as a reader of texts can tell. -/

namespace SchemaBindings.Yaml

/-- A node of a document. A scalar keeps its source text; whether it was quoted and what tag it has
matter only where a missing value could be meant. An alias has the number of the node it stands
for. -/
inductive Node where
  | scalar (plain : Bool) (tag : Option String) (text : String)
  | sequence (items : List Node)
  | mapping (entries : List (Node × Node))
  | «alias» (number : Nat)
deriving Inhabited

namespace Node

/-- A node that was left out. -/
def empty : Node := .scalar true none ""

/-- Whether nothing is written where the node stands, a tag or a name apart. -/
def isEmpty : Node → Bool
  | .scalar true _ "" => true
  | _ => false

/-- The text of a scalar. -/
def text? : Node → Option String
  | .scalar _ _ s => some s
  | _ => none

/-- The tag of a missing value. -/
def nullTag : String := "tag:yaml.org,2002:null"

/-- The spellings of a missing value. -/
def nullTexts : List String := ["~", "null", "Null", "NULL"]

/-- The text of a scalar if it has a value. A tag other than that of a missing value makes any text
a value; that tag admits no text but the spellings of a missing value. -/
def optionalText? : Node → Option (Option String)
  | .scalar false _ s => some (some s)
  | .scalar true (some tag) s =>
    if tag ≠ nullTag then some (some s) else if nullTexts.contains s then some none else none
  | .scalar true none s => some (if s.isEmpty || nullTexts.contains s then none else some s)
  | _ => none

end Node

/-- A document: its root, and the nodes that have numbers, in the order in which they start. -/
structure Document where
  root : Node
  numbered : List (Nat × Node)

/-- The node that stands at a place. Of several nodes with one number, the last is meant. -/
def Document.resolve? (d : Document) : Node → Option Node
  | .alias number => (d.numbered.reverse.find? (·.1 = number)).map (·.2)
  | n => some n

end SchemaBindings.Yaml
