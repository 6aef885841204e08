/-! Finding and replacing a piece of a text. Occurrences are taken from the left and do not
overlap. -/

namespace SchemaBindings.Text

/-- Whether a piece occurs in a text. -/
def contains (piece : List Char) : List Char → Bool
  | [] => piece.isEmpty
  | c :: rest => piece.isPrefixOf (c :: rest) || contains piece rest

/-- Replaces every occurrence of a piece. `skip` characters still belong to the last one. -/
def replaceFrom (piece new : List Char) : (skip : Nat) → List Char → List Char
  | _, [] => []
  | skip + 1, _ :: rest => replaceFrom piece new skip rest
  | 0, c :: rest =>
    if piece.isPrefixOf (c :: rest) then new ++ replaceFrom piece new (piece.length - 1) rest
    else c :: replaceFrom piece new 0 rest

/-- Replaces every occurrence of a nonempty piece. -/
def replace (piece new cs : List Char) : List Char := replaceFrom piece new 0 cs

end SchemaBindings.Text
