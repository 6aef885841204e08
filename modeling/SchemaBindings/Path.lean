import SchemaBindings.Text.Blank

/-! Path texts. A path keeps its spelling; what it means is its components, in which repeated
slashes, a slash at the end and inner dots leave no trace. Nothing here looks at a disk. -/

namespace SchemaBindings

/-- A step of a path. A dot counts only at the very start. -/
inductive PathStep where
  | root
  | here
  | up
  | name (text : String)
deriving DecidableEq, Repr

/-- A path as it is spelled. -/
structure Path where
  text : String
deriving DecidableEq, Repr, Inhabited

namespace Path

/-- The pieces between slashes, with their spelling. -/
def pieces (p : Path) : List (List Char) :=
  Text.splitWhere (· = '/') p.text.toList

/-- What a piece that is not the first one stands for. -/
def innerStep? (piece : List Char) : Option PathStep :=
  if piece = [] ∨ piece = ['.'] then none
  else if piece = ['.', '.'] then some .up
  else some (.name (String.ofList piece))

/-- What the first piece stands for. -/
def firstStep? (piece : List Char) : Option PathStep :=
  if piece = ['.'] then some .here else innerStep? piece

/-- Whether the path starts at the root. -/
def isAbsolute (p : Path) : Bool :=
  p.text.toList.head? = some '/'

/-- The steps that the path takes. -/
def steps (p : Path) : List PathStep :=
  match p.pieces with
  | [] => []
  | first :: rest =>
    let inner := rest.filterMap innerStep?
    if p.isAbsolute then .root :: inner else (firstStep? first).toList ++ inner

/-- Whether two spellings take the same steps. -/
def same (p q : Path) : Bool := p.steps = q.steps

/-- The name that the path ends in. -/
def fileName? (p : Path) : Option String :=
  match p.steps.getLast? with
  | some (.name s) => some s
  | _ => none

/-- The length up to which a spelling is kept when pieces are taken off its end: a slash or a dot
at the start stays. -/
def keptLength (cs : List Char) : Nat :=
  match cs with
  | '/' :: _ => 1
  | ['.'] => 1
  | '.' :: '/' :: _ => 1
  | _ => 0

/-- Whether a piece takes no step. -/
def isIdle (piece : List Char) : Bool := piece = [] || piece = ['.']

/-- Drops idle pieces at the front; the pieces of a path are given from its end. -/
def dropIdle (pieces : List (List Char)) : List (List Char) :=
  pieces.dropWhile isIdle

/-- Puts pieces, given from the end, together again. -/
def joinReversed (pieces : List (List Char)) : List Char :=
  ['/'].intercalate pieces.reverse

/-- The path without its last step, if it has one to give. The rest keeps its spelling. -/
def parent? (p : Path) : Option Path :=
  match p.steps.getLast? with
  | none => none
  | some .root => none
  | some _ =>
    let cs := p.text.toList
    let kept := cs.take (keptLength cs)
    let body := (Text.splitWhere (· = '/') (cs.drop (keptLength cs))).reverse
    match dropIdle body with
    | [] => some ⟨""⟩
    | _ :: before => some ⟨String.ofList (kept ++ joinReversed (dropIdle before))⟩

/-- The directory that holds the path's last step; the empty path if there is none. -/
def directory (p : Path) : Path := p.parent?.getD ⟨""⟩

/-- A path seen from another one. An absolute path stands for itself. -/
def join (base : Path) (rel : String) : Path :=
  if (Path.mk rel).isAbsolute then ⟨rel⟩
  else if base.text.isEmpty then ⟨rel⟩
  else if base.text.toList.getLast? = some '/' then ⟨base.text ++ rel⟩
  else ⟨base.text ++ "/" ++ rel⟩

end Path

end SchemaBindings
