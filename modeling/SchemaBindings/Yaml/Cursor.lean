/-! Positions in a YAML text, and the blanks and comments between its parts. -/

namespace SchemaBindings.Yaml

/-- Whether a character ends a line. Line ends of two characters are made one before reading. -/
def isBreak (c : Char) : Bool := c = '\n' || c = '\u2028' || c = '\u2029'

/-- Whether a character is a blank within a line. -/
def isGap (c : Char) : Bool := c = ' ' || c = '\t'

/-- Whether a character can be part of a name. -/
def isNameChar (c : Char) : Bool := c.isAlphanum || c = '_' || c = '-'

/-- Whether a word is over where some text starts. -/
def endsWord : List Char → Bool
  | [] => true
  | c :: _ => isGap c || isBreak c

/-- Whether a line is over where some text starts. -/
def endsLine : List Char → Bool
  | [] => true
  | c :: _ => isBreak c

/-- How many characters stand before a position, and how many of them in lines before its own. -/
structure Mark where
  index : Nat
  line : Nat
  column : Nat
deriving DecidableEq, Repr

/-- The start of a text. -/
def Mark.start : Mark := ⟨0, 0, 0⟩

/-- The position behind a character. -/
def Mark.after (m : Mark) (c : Char) : Mark :=
  if isBreak c then ⟨m.index + 1, m.line + 1, 0⟩ else ⟨m.index + 1, m.line, m.column + 1⟩

/-- The position some characters further on the same line. -/
def Mark.plus (m : Mark) (n : Nat) : Mark := ⟨m.index + n, m.line, m.column + n⟩

/-- Whether a line that marks the start or the end of a document starts here. -/
def isMarker (word : String) (m : Mark) (cs : List Char) : Bool :=
  m.column = 0 && word.toList.isPrefixOf cs && endsWord (cs.drop 3)

/-- Whether a document is cut off here. -/
def atMarker (m : Mark) (cs : List Char) : Bool := isMarker "---" m cs || isMarker "..." m cs

/-- The text from a position on. -/
structure Cursor where
  rest : List Char
  mark : Mark

namespace Cursor

/-- The cursor some characters further on the same line. -/
def skip (c : Cursor) (n : Nat) : Cursor := ⟨c.rest.drop n, c.mark.plus n⟩

/-- Passes the characters of the line up to the first that fails a test. -/
def skipWhile (c : Cursor) (test : Char → Bool) : Cursor := c.skip (c.rest.takeWhile test).length

/-- The cursor in front of what is left of the line. -/
def moveTo (c : Cursor) (left : List Char) : Cursor := c.skip (c.rest.length - left.length)

/-- Passes a line end, if there is one. -/
def skipBreak (c : Cursor) : Cursor :=
  match c.rest with
  | x :: rest => if isBreak x then ⟨rest, c.mark.after x⟩ else c
  | [] => c

/-- Passes what may stand between the last word of a line and its end: blanks, and a comment.
Nothing else may stand there. -/
def skipLineEnd? (c : Cursor) : Option Cursor :=
  let c := c.skipWhile isGap
  let c := if c.rest.head? = some '#' then c.skipWhile (!isBreak ·) else c
  if endsLine c.rest then some c.skipBreak else none

end Cursor

/-- The mark of the order of bytes, which may stand at the start of any line. -/
def byteOrderMark : Char := '\ufeff'

/-- Passes blanks, line ends and comments. The result says whether a key may start there: outside of
brackets it may behind a line end, and where it may, a tab is no blank. -/
def passBlanks (flow comment keys : Bool) (m : Mark) : List Char → Cursor × Bool
  | [] => (⟨[], m⟩, keys)
  | c :: rest =>
    if isBreak c then passBlanks flow false (keys || !flow) (m.after c) rest
    else if comment || c = ' ' || (c = '\t' && (flow || !keys)) ||
        (c = byteOrderMark && m.column = 0) then
      passBlanks flow comment keys (m.after c) rest
    else if c = '#' then passBlanks flow true keys (m.after c) rest
    else (⟨c :: rest, m⟩, keys)

end SchemaBindings.Yaml
