import SchemaBindings.Json.Value
import SchemaBindings.Text.Blank
import SchemaBindings.Text.Percent

/-! Pointers to the nodes of a JSON document. A pointer is a list of tokens as they are spelled, so
that `~0` and `~1` in a token still stand for `~` and `/`. -/

namespace SchemaBindings

/-- The tokens that lead from the root of a document to a node. -/
structure Pointer where
  tokens : List String
deriving DecidableEq, Repr, Inhabited

namespace Pointer

/-- The pointer to the whole document. -/
def root : Pointer := ⟨[]⟩

/-- Whether the pointer is to the whole document. -/
def isRoot (p : Pointer) : Bool := p.tokens.isEmpty

/-- Spells a name so that it can be a token. -/
def escapeToken (name : String) : String :=
  String.ofList <| name.toList.flatMap fun c =>
    if c = '~' then ['~', '0'] else if c = '/' then ['~', '1'] else [c]

/-- The characters that a spelled token stands for. -/
def unescapeChars : List Char → List Char
  | '~' :: '1' :: rest => '/' :: unescapeChars rest
  | '~' :: '0' :: rest => '~' :: unescapeChars rest
  | c :: rest => c :: unescapeChars rest
  | [] => []

/-- The name that a spelled token stands for. -/
def unescapeToken (token : String) : String :=
  String.ofList (unescapeChars token.toList)

/-- The pointer to a member of the node. -/
def child (p : Pointer) (name : String) : Pointer := ⟨p.tokens ++ [escapeToken name]⟩

/-- The pointer to an item of the node. -/
def item (p : Pointer) (index : Nat) : Pointer := ⟨p.tokens ++ [toString index]⟩

/-- The pointer followed by more tokens. -/
def append (p : Pointer) (more : List String) : Pointer := ⟨p.tokens ++ more⟩

/-- The text of a pointer: a slash before every token. -/
def text (p : Pointer) : String :=
  String.join (p.tokens.map ("/" ++ ·))

/-- Reads the text of a pointer. -/
def ofText? (s : String) : Option Pointer :=
  match s.toList with
  | [] => some root
  | '/' :: rest => some ⟨(Text.splitWhere (· = '/') rest).map String.ofList⟩
  | _ => none

/-- The pointer as a reference into the document it stands in. -/
def fragment (p : Pointer) : String := "#" ++ Text.Percent.encodeFragment p.text

/-- The greatest index that is read. -/
def indexLimit : Nat := Nat.pow 2 64 - 1

/-- Reads a token as an index: digits without a zero in front. -/
def index? (token : String) : Option Nat :=
  match token.toList with
  | [] => none
  | '0' :: _ :: _ => none
  | cs =>
    if cs.all Char.isDigit then
      let n := Nat.ofDigitChars 10 cs 0
      if n ≤ indexLimit then some n else none
    else none

/-- The node one token below a node. -/
def step? (v : Json) (token : String) : Option Json :=
  match v with
  | .object ms => OrderedMap.get? ms (unescapeToken token)
  | .array xs => (index? (unescapeToken token)).bind (xs[·]?)
  | _ => none

end Pointer

/-- The node that a pointer leads to. -/
def Json.at? (v : Json) (p : Pointer) : Option Json :=
  p.tokens.foldlM Pointer.step? v

end SchemaBindings
