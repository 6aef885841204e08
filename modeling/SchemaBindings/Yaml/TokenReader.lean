import SchemaBindings.Yaml.Scalar
import SchemaBindings.Yaml.Tag

/-! From a YAML text to its words. That something is a key is only told by the colon behind it, so a
place is kept in front of whatever may be one. The key and its colon stand on one line. -/

namespace SchemaBindings.Yaml

/-- Something that turns out to be a key if a colon follows. Where a block mapping is open at its
column, it has to be one. -/
structure PossibleKey where
  slot : Nat
  mark : Mark
  required : Bool

/-- How far a text is read. A place holds the words that are put there, which for a possible key may
be none. `blocks` are the columns of the open block collections, `outerKeys` the possible keys in
front of the open brackets, both from the innermost on. -/
structure TokenReader where
  cursor : Cursor
  slots : Array (List Token)
  blocks : List Nat
  possibleKey : Option PossibleKey
  outerKeys : List (Option PossibleKey)
  keysAllowed : Bool

namespace TokenReader

/-- The start of a text. -/
def start (cs : List Char) : TokenReader := ⟨⟨cs, .start⟩, #[], [], none, [], true⟩

/-- Whether a bracket is open. -/
def inFlow (s : TokenReader) : Bool := !s.outerKeys.isEmpty

/-- The first column behind that of the innermost block collection. -/
def floor (s : TokenReader) : Nat := (s.blocks.head?.map (· + 1)).getD 0

/-- The words in order. -/
def tokens (s : TokenReader) : List Token := s.slots.toList.flatten

end TokenReader

/-- A step of reading words; it fails where the text is no YAML. -/
abbrev Scan := StateT TokenReader Option

namespace Scan

/-- Adds a word. -/
def put (t : Token) : Scan Unit := modify fun s => { s with slots := s.slots.push [t] }

/-- Goes on from a cursor. -/
def moveTo (c : Cursor) : Scan Unit := modify fun s => { s with cursor := c }

/-- Tells whether a key may start at the cursor. -/
def allowKeys (allowed : Bool) : Scan Unit := modify fun s => { s with keysAllowed := allowed }

/-- Gives the last possible key up. -/
def dropKey : Scan Unit := do
  let s ← get
  guard !(s.possibleKey.any (·.required))
  set { s with possibleKey := none }

/-- Makes what starts at the cursor a possible key. -/
def markKey : Scan Unit := do
  if (← get).keysAllowed then
    dropKey
    let s ← get
    let column := s.cursor.mark.column
    let key : PossibleKey :=
      ⟨s.slots.size, s.cursor.mark, !s.inFlow && s.blocks.head? = some column⟩
    set { s with slots := s.slots.push [], possibleKey := some key }

/-- How many characters there are at most between the start of a key and its colon. -/
def keyLimit : Nat := 1024

/-- Whether a possible key is too far from a position to be the key there. -/
def isStale (m : Mark) (k : PossibleKey) : Bool :=
  k.mark.line < m.line || k.mark.index + keyLimit < m.index

/-- Gives up the possible keys that are too far away. -/
def dropStale : Scan Unit := do
  let s ← get
  let m := s.cursor.mark
  let keys := s.possibleKey :: s.outerKeys
  guard (keys.all fun key => !key.any fun k => isStale m k && k.required)
  let keep (key : Option PossibleKey) := key.filter (!isStale m ·)
  set { s with possibleKey := keep s.possibleKey, outerKeys := s.outerKeys.map keep }

/-- Closes block collections from the innermost on, as long as their columns pass a test. -/
def closeBlocks (test : Nat → Bool) : Scan Unit :=
  modify fun s =>
    if s.inFlow then s
    else
      let closed := (s.blocks.takeWhile test).map fun _ => [Token.blockEnd]
      { s with slots := s.slots ++ closed.toArray, blocks := s.blocks.dropWhile test }

/-- Whether a block collection starts at a column. -/
def opensBlock (s : TokenReader) (column : Nat) : Bool :=
  !s.inFlow && s.blocks.head?.all (· < column)

/-- Opens a block collection at the cursor unless it is open. -/
def openBlock (t : Token) : Scan Unit := do
  let s ← get
  let column := s.cursor.mark.column
  if opensBlock s column then set { s with slots := s.slots.push [t], blocks := column :: s.blocks }

/-- Passes an indicator and adds the word that it is. -/
def indicator (length : Nat) (t : Token) : Scan Unit := do
  moveTo ((← get).cursor.skip length)
  put t

/-- Passes blanks and comments. -/
def pass : Scan Unit :=
  modify fun s =>
    let (c, keys) := passBlanks s.inFlow false s.keysAllowed s.cursor.mark s.cursor.rest
    { s with cursor := c, keysAllowed := keys }

end Scan

open Scan

/-- Reads a directive. -/
def readDirective : Scan Unit := do
  closeBlocks fun _ => true
  dropKey
  allowKeys false
  let (d, c) ← readDirective? ((← get).cursor.skip 1)
  moveTo c
  put (.directive d)

/-- Reads the line that marks the start or the end of a document. -/
def readMarker (t : Token) : Scan Unit := do
  closeBlocks fun _ => true
  dropKey
  allowKeys false
  indicator 3 t

/-- Reads an opening bracket. -/
def readOpening (t : Token) : Scan Unit := do
  markKey
  modify fun s => { s with possibleKey := none, outerKeys := s.possibleKey :: s.outerKeys }
  allowKeys true
  indicator 1 t

/-- Reads a closing bracket. -/
def readClosing (t : Token) : Scan Unit := do
  dropKey
  modify fun s => match s.outerKeys with
    | [] => s
    | key :: outer => { s with possibleKey := key, outerKeys := outer }
  allowKeys false
  indicator 1 t

/-- Reads the comma between items. -/
def readComma : Scan Unit := do
  dropKey
  allowKeys true
  indicator 1 .comma

/-- Reads the dash in front of an item. -/
def readDash : Scan Unit := do
  let s ← get
  guard (s.inFlow || s.keysAllowed)
  openBlock .blockSequence
  dropKey
  allowKeys true
  indicator 1 .entry

/-- Reads the question mark in front of a key. -/
def readQuestion : Scan Unit := do
  let s ← get
  guard (s.inFlow || s.keysAllowed)
  openBlock .blockMapping
  dropKey
  allowKeys !s.inFlow
  indicator 1 .key

/-- Reads the colon in front of a value. What may be a key before it is one. -/
def readColon : Scan Unit := do
  let s ← get
  match s.possibleKey with
  | some k =>
    let column := k.mark.column
    let opens := opensBlock s column
    set { s with
      slots := s.slots.setIfInBounds k.slot (if opens then [.blockMapping, .key] else [.key])
      blocks := if opens then column :: s.blocks else s.blocks
      possibleKey := none
      keysAllowed := false }
  | none =>
    guard (s.inFlow || s.keysAllowed)
    openBlock .blockMapping
    allowKeys !s.inFlow
  indicator 1 .value

/-- Reads a word behind which no key can start and which may be one or stand before one. -/
def readWord (read : Cursor → Option (Token × Cursor)) : Scan Unit := do
  markKey
  allowKeys false
  let (t, c) ← read (← get).cursor
  moveTo c
  put t

/-- Reads a name behind its indicator. -/
def readNamed (word : String → Token) : Scan Unit :=
  readWord fun c => (readName? (c.skip 1)).map fun (name, c) => (word name, c)

/-- Reads a tag. -/
def readTag : Scan Unit := do
  let flow := (← get).inFlow
  readWord fun c => (readTag? flow c).map fun (t, c) => (.tag t, c)

/-- Reads a quoted scalar. -/
def readQuoted (read : Mark → List Char → Option (String × Cursor)) : Scan Unit :=
  readWord fun c =>
    let c := c.skip 1
    (read c.mark c.rest).map fun (text, c) => (.scalar false text, c)

/-- Reads a block scalar. -/
def readBlock (folded : Bool) : Scan Unit := do
  dropKey
  allowKeys true
  let s ← get
  let (text, c) ← readBlockScalar folded s.floor (s.cursor.skip 1)
  moveTo c
  put (.scalar false text)

/-- Whether some text starts a plain scalar. -/
def startsPlain (flow : Bool) : List Char → Bool
  | [] => false
  | c :: rest =>
    if c = '-' then !endsWord rest
    else if c = '?' || c = ':' then !flow && !endsWord rest
    else !(isGap c || isBreak c || ",[]\x7b\x7d#&*!|>%@`\x27\"".toList.contains c)

/-- Reads a plain scalar. -/
def readPlainWord : Scan Unit := do
  markKey
  allowKeys false
  let s ← get
  let c := s.cursor
  guard (startsPlain s.inFlow c.rest)
  let scalar ← readPlain s.inFlow s.floor [] .none c.mark c.rest
  moveTo scalar.next
  if scalar.broken then allowKeys true
  put (.scalar true scalar.text)

/-- Reads the word that starts with a character, given what stands behind it. -/
def readStarting (c : Char) (rest : List Char) : Scan Unit := do
  let flow := (← get).inFlow
  match c with
  | '[' => readOpening .openSequence
  | '{' => readOpening .openMapping
  | ']' => readClosing .closeSequence
  | '}' => readClosing .closeMapping
  | ',' => readComma
  | '-' => if endsWord rest then readDash else readPlainWord
  | '?' => if flow || endsWord rest then readQuestion else readPlainWord
  | ':' => if flow || endsWord rest then readColon else readPlainWord
  | '*' => readNamed .alias
  | '&' => readNamed .anchor
  | '!' => readTag
  | '|' => if flow then failure else readBlock false
  | '>' => if flow then failure else readBlock true
  | '\x27' => readQuoted (readSingle false [] .none)
  | '"' => readQuoted (readDouble .outside [] .none)
  | _ => readPlainWord

/-- Reads a word, and the ends of the collections before it. At the end of the text is none. -/
def readNext : Scan Bool := do
  pass
  dropStale
  let c := (← get).cursor
  closeBlocks (c.mark.column < ·)
  match c.rest with
  | [] =>
    closeBlocks fun _ => true
    dropKey
    return false
  | x :: rest =>
    if x = '%' && c.mark.column = 0 then readDirective
    else if isMarker "---" c.mark c.rest then readMarker .documentStart
    else if isMarker "..." c.mark c.rest then readMarker .documentEnd
    else readStarting x rest
    return true

/-- Reads words up to the end of the text, at most so many. -/
def readAll : (most : Nat) → Scan Unit
  | 0 => failure
  | most + 1 => do if ← readNext then readAll most

/-- Whether a character may stand in a text. -/
def isReadable (c : Char) : Bool :=
  let n := c.toNat
  c = '\t' || c = '\n' || c = '\r' || (0x20 ≤ n && n ≤ 0x7e) || n = 0x85 ||
    (0xa0 ≤ n && n ≤ 0xfffd) || 0x10000 ≤ n

/-- Makes every line end that can be spelled in several ways one character. -/
def unifyBreaks : List Char → List Char
  | '\r' :: '\n' :: rest => '\n' :: unifyBreaks rest
  | '\r' :: rest => '\n' :: unifyBreaks rest
  | '\u0085' :: rest => '\n' :: unifyBreaks rest
  | c :: rest => c :: unifyBreaks rest
  | [] => []

/-- The words of a text. Each of them takes a character at least. -/
def tokens? (text : String) : Option (List Token) := do
  guard (text.toList.all isReadable)
  let cs := unifyBreaks text.toList
  let (_, s) ← (readAll (cs.length + 1)).run (.start cs)
  return s.tokens

end SchemaBindings.Yaml
