import SchemaBindings.Json.Reader
import SchemaBindings.Yaml.Cursor

/-! Scalars over one line or more. Within a plain or quoted scalar a single line end counts as a
blank, of several one is dropped, and blanks around line ends do not count. -/

namespace SchemaBindings.Yaml

/-- The blanks and line ends since the last character that counts, the latest first. -/
inductive Gap where
  | none
  | blanks (reversed : List Char)
  | breaks (first more : List Char)

namespace Gap

/-- Whether a line ended within the gap. -/
def isBroken : Gap → Bool
  | .breaks _ _ => true
  | _ => false

/-- Whether nothing was passed. -/
def isNone : Gap → Bool
  | .none => true
  | _ => false

/-- The gap with a blank or a line end more. -/
def add (g : Gap) (c : Char) : Gap :=
  match g, isBreak c with
  | .breaks first more, true => .breaks first (c :: more)
  | _, true => .breaks [c] []
  | .none, false => .blanks [c]
  | .blanks bs, false => .blanks (c :: bs)
  | g, false => g

/-- Puts what the gap stands for before some text that is given from its end. -/
def joinTo (done : List Char) : Gap → List Char
  | .none => done
  | .blanks bs => bs ++ done
  | .breaks ['\n'] [] => ' ' :: done
  | .breaks ['\n'] more => more ++ done
  | .breaks first more => more ++ first ++ done

end Gap

/-- Characters given from the end as a text. -/
def textOf (reversed : List Char) : String := String.ofList reversed.reverse

/-- The characters that end a plain scalar within brackets. -/
def flowIndicators : List Char := [',', '[', ']', '{', '}']

/-- Whether a plain scalar is over where some text starts. -/
def endsPlain (flow : Bool) (floor : Nat) (gap : Gap) (m : Mark) (cs : List Char) : Bool :=
  (gap.isBroken && (atMarker m cs || (!flow && m.column < floor))) ||
    match cs with
    | [] => true
    | c :: rest =>
      (!gap.isNone && c = '#') || (c = ':' && endsWord rest) || (flow && flowIndicators.contains c)

/-- Whether a colon stands where a bracket makes its meaning unclear. -/
def isUnclearColon : List Char → Bool
  | ':' :: c :: _ => c = '?' || flowIndicators.contains c
  | _ => false

/-- A plain scalar, what comes behind it, and whether a line ended in between. -/
structure PlainScalar where
  text : String
  next : Cursor
  broken : Bool

/-- Reads a plain scalar. Outside of brackets its further lines start at column `floor` or behind
it. -/
def readPlain (flow : Bool) (floor : Nat) (done : List Char) (gap : Gap) (m : Mark) :
    List Char → Option PlainScalar
  | [] => some ⟨textOf done, ⟨[], m⟩, gap.isBroken⟩
  | c :: rest =>
    if isGap c || isBreak c then
      if c = '\t' && gap.isBroken && m.column < floor then none
      else readPlain flow floor done (gap.add c) (m.after c) rest
    else if endsPlain flow floor gap m (c :: rest) then
      some ⟨textOf done, ⟨c :: rest, m⟩, gap.isBroken⟩
    else if flow && isUnclearColon (c :: rest) then none
    else readPlain flow floor (c :: gap.joinTo done) .none (m.after c) rest

/-- Reads the rest of a scalar in single quotes. A quote inside is written twice; `closing` says
that one has just been read. -/
def readSingle (closing : Bool) (done : List Char) (gap : Gap) (m : Mark) :
    List Char → Option (String × Cursor)
  | [] => if closing then some (textOf (gap.joinTo done), ⟨[], m⟩) else none
  | c :: rest =>
    if c = '\x27' then
      if closing then readSingle false (c :: gap.joinTo done) .none (m.after c) rest
      else readSingle true done gap (m.after c) rest
    else if closing then some (textOf (gap.joinTo done), ⟨c :: rest, m⟩)
    else if atMarker m (c :: rest) then none
    else if isGap c || isBreak c then readSingle false done (gap.add c) (m.after c) rest
    else readSingle false (c :: gap.joinTo done) .none (m.after c) rest

/-- What a reader of a scalar in double quotes is at. -/
inductive EscapeState where
  | outside
  | escaped
  | digits (left value : Nat)

/-- How many digits follow an escape that takes some. -/
def digitsOf? (c : Char) : Option Nat :=
  [('x', 2), ('u', 4), ('U', 8)].lookup c

/-- The characters that an escape stands for, by the character behind the backslash. -/
def escapes : List (Char × Char) := [
  ('0', '\x00'), ('a', '\x07'), ('b', '\x08'), ('t', '\t'), ('\t', '\t'), ('n', '\n'),
  ('v', '\x0b'), ('f', '\x0c'), ('r', '\r'), ('e', '\x1b'), (' ', ' '), ('"', '"'), ('/', '/'),
  ('\\', '\\'), ('N', '\u0085'), ('_', '\u00a0'), ('L', '\u2028'), ('P', '\u2029')]

/-- The character of a number, if there is one. -/
def charOf? (n : Nat) : Option Char := if n.isValidChar then some (Char.ofNat n) else none

/-- Reads the rest of a scalar in double quotes. -/
def readDouble (state : EscapeState) (done : List Char) (gap : Gap) (m : Mark) :
    List Char → Option (String × Cursor)
  | [] => none
  | c :: rest =>
    match state with
    | .digits left value =>
      match Json.hexValue? c, left with
      | some d, left + 2 =>
        readDouble (.digits (left + 1) (value * 16 + d)) done gap (m.after c) rest
      | some d, _ =>
        match charOf? (value * 16 + d) with
        | some x => readDouble .outside (x :: done) .none (m.after c) rest
        | none => none
      | none, _ => none
    | .escaped =>
      if isBreak c then readDouble .outside done (.breaks [] []) (m.after c) rest
      else match digitsOf? c, escapes.lookup c with
        | some n, _ => readDouble (.digits n 0) done .none (m.after c) rest
        | none, some x => readDouble .outside (x :: done) .none (m.after c) rest
        | none, none => none
    | .outside =>
      if c = '"' then some (textOf (gap.joinTo done), ⟨rest, m.after c⟩)
      else if atMarker m (c :: rest) then none
      else if c = '\\' then readDouble .escaped (gap.joinTo done) .none (m.after c) rest
      else if isGap c || isBreak c then readDouble .outside done (gap.add c) (m.after c) rest
      else readDouble .outside (c :: gap.joinTo done) .none (m.after c) rest

/-- What happens to the line ends at the end of a block scalar. -/
inductive Chomping where
  | strip
  | clip
  | keep

/-- What stands before the lines of a block scalar. -/
structure BlockHeader where
  folded : Bool
  chomping : Chomping
  indent? : Option Nat

/-- How the end of a block scalar is marked. -/
def chomping? : Char → Option Chomping
  | '-' => some .strip
  | '+' => some .keep
  | _ => none

/-- The number that tells how far a block scalar is indented. -/
def indentDigit? (c : Char) : Option Nat :=
  if '1' ≤ c && c ≤ '9' then some (c.toNat - '0'.toNat) else none

/-- Reads what follows the indicator of a block scalar on its line. -/
def blockHeader? (folded : Bool) (line : List Char) : Option BlockHeader :=
  let isMark (c : Char) : Bool := !isGap c && c ≠ '#'
  let tail := (line.dropWhile isMark).dropWhile isGap
  if tail.isEmpty || tail.head? = some '#' then
    match line.takeWhile isMark with
    | [] => some ⟨folded, .clip, none⟩
    | [c] =>
      match chomping? c, indentDigit? c with
      | some chomping, _ => some ⟨folded, chomping, none⟩
      | none, some n => some ⟨folded, .clip, some n⟩
      | none, none => none
    | [c, d] =>
      match chomping? c, indentDigit? d, indentDigit? c, chomping? d with
      | some chomping, some n, _, _ => some ⟨folded, chomping, some n⟩
      | _, _, some n, some chomping => some ⟨folded, chomping, some n⟩
      | _, _, _, _ => none
    | _ => none
  else none

/-- A line with the character that ends it, if there is one. -/
structure Line where
  text : List Char
  stop : List Char

/-- The lines of a text. -/
def linesOf : List Char → List Line
  | [] => []
  | c :: rest =>
    if isBreak c then ⟨[], [c]⟩ :: linesOf rest
    else match linesOf rest with
      | [] => [⟨[c], []⟩]
      | l :: ls => { l with text := c :: l.text } :: ls

/-- How many blanks a line starts with. -/
def indentOf (l : Line) : Nat := (l.text.takeWhile (· = ' ')).length

/-- How far a block scalar is indented: as far as its first line with text, or the longest line
before it. A tab cannot indent. -/
def detectIndent (most : Nat) : List Line → Option Nat
  | [] => some most
  | l :: ls =>
    let n := indentOf l
    match l.text.drop n with
    | [] => detectIndent (max most n) ls
    | c :: _ => if c = '\t' then none else some (max most n)

/-- A block scalar while it is read: the text so far, the end of its last line, the empty lines
after that, and whether the last line started with a blank. -/
structure BlockText where
  text : List Char
  stop : List Char
  empty : List Char
  spaced : Bool

/-- Adds a line with text. Folding joins two lines neither of which starts with a blank. -/
def BlockText.add (b : BlockText) (folded : Bool) (body stop : List Char) : BlockText :=
  let spaced := (body.head?.map isGap).getD false
  let joint :=
    if folded && b.stop = ['\n'] && !b.spaced && !spaced then
      if b.empty.isEmpty then [' '] else b.empty
    else b.stop ++ b.empty
  ⟨b.text ++ joint ++ body, stop, [], spaced⟩

/-- Reads the lines of a block scalar up to the first that is indented less. -/
def takeBlock (folded : Bool) (indent : Nat) (b : BlockText) :
    List Line → Option (BlockText × List Line)
  | [] => some (b, [])
  | l :: ls =>
    let n := min (indentOf l) indent
    match l.text.drop n with
    | [] =>
      if l.stop.isEmpty then some (b, [])
      else takeBlock folded indent { b with empty := b.empty ++ l.stop } ls
    | c :: body =>
      if n < indent then if c = '\t' then none else some (b, l :: ls)
      else takeBlock folded indent (b.add folded (c :: body) l.stop) ls

/-- The text of a block scalar. -/
def BlockText.finish (b : BlockText) : Chomping → List Char
  | .strip => b.text
  | .clip => b.text ++ b.stop
  | .keep => b.text ++ b.stop ++ b.empty

/-- Reads a block scalar behind its indicator. It is indented at least to column `floor`. -/
def readBlockScalar (folded : Bool) (floor : Nat) (c : Cursor) : Option (String × Cursor) := do
  let notBreak (x : Char) : Bool := !isBreak x
  let header ← blockHeader? folded (c.rest.takeWhile notBreak)
  let lines := linesOf ((c.rest.dropWhile notBreak).drop 1)
  let indent ← match header.indent? with
    | some n => some (floor - 1 + n)
    | none => (detectIndent 0 lines).map fun n => max n (max floor 1)
  let (b, left) ← takeBlock folded indent ⟨[], [], [], false⟩ lines
  let rest := left.flatMap fun l => l.text ++ l.stop
  let mark : Mark :=
    ⟨c.mark.index + (c.rest.length - rest.length),
      c.mark.line + 1 + (lines.length - left.length), 0⟩
  return (String.ofList (b.finish header.chomping), ⟨rest, mark⟩)

end SchemaBindings.Yaml
