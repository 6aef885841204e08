import SchemaBindings.Text.Blank
import SchemaBindings.Text.Search

/-! Writing code line by line. Every line starts at the current depth; an empty one stays
empty. -/

namespace SchemaBindings.Code

/-- The lines so far, and the depth of the next one. -/
structure Writer where
  lines : Array String
  depth : Nat
deriving DecidableEq, Repr

namespace Writer

/-- Nothing is written. -/
def empty : Writer := ⟨#[], 0⟩

/-- The line that marks generated files. -/
def mark : String := "// @generated by schemagen"

/-- The white space in front of a line at some depth. -/
def indent (depth : Nat) : String := String.ofList (List.replicate (4 * depth) ' ')

/-- Writes one line. -/
def put (w : Writer) (cs : List Char) : Writer :=
  { w with lines := w.lines.push (if cs.isEmpty then "" else indent w.depth ++ String.ofList cs) }

/-- Writes a text, every line of it at the current depth. -/
def line (w : Writer) (text : String) : Writer :=
  (Text.splitWhere (· = '\n') text.toList).foldl put w

/-- Writes an empty line. -/
def blank (w : Writer) : Writer := { w with lines := w.lines.push "" }

/-- Writes a text and goes one level deeper. -/
def opening (w : Writer) (text : String) : Writer :=
  let w := w.line text
  { w with depth := w.depth + 1 }

/-- Goes one level back and writes a text. -/
def closing (w : Writer) (text : String) : Writer :=
  Writer.line { w with depth := w.depth - 1 } text

/-- A line of a comment as it is shown: nothing stands at its end, and no fence opens. -/
def commentLine (cs : List Char) : String :=
  let shown := Text.replace "```".toList "'''".toList (Text.trimRight cs)
  if shown.isEmpty then "///" else "/// " ++ String.ofList shown

/-- Writes a text as a comment on what follows. -/
def doc (w : Writer) (text : String) : Writer :=
  (Text.lines (Text.trim text.toList)).foldl (fun w cs => w.line (commentLine cs)) w

/-- Writes several texts. -/
def linesOf (w : Writer) (texts : List String) : Writer := texts.foldl line w

/-- A file that is marked as generated. -/
def marked : Writer := (empty.line mark).blank

/-- What is written. -/
def text (w : Writer) : String :=
  String.join (w.lines.toList.map (· ++ "\n"))

end Writer

end SchemaBindings.Code
