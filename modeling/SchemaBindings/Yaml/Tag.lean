import SchemaBindings.Json.Reader
import SchemaBindings.Text.Utf8
import SchemaBindings.Yaml.Cursor
import SchemaBindings.Yaml.Token

/-! Names, tags and directives. -/

namespace SchemaBindings.Yaml

/-- Whether a node's name is over where some text starts. -/
def endsName (cs : List Char) : Bool :=
  endsWord cs || (cs.head?.map "?:,]\x7d%@`".toList.contains).getD true

/-- Reads the name of a node behind its indicator. -/
def readName? (c : Cursor) : Option (String × Cursor) :=
  let name := c.rest.takeWhile isNameChar
  let next := c.skip name.length
  if !name.isEmpty && endsName next.rest then some (String.ofList name, next) else none

/-- Whether a character stands for itself in a tag. Commas and square brackets do only in a tag that
is written in full. -/
def isTagChar (whole : Bool) (c : Char) : Bool :=
  isNameChar c || ";/?:@&=+$.!~*\x27()".toList.contains c || (whole && ",[]".toList.contains c)

/-- How many bytes of a character are left behind one, of which so many were left before it. -/
def bytesLeft? (left byte : Nat) : Option Nat :=
  if left ≠ 0 then if 0x80 ≤ byte && byte < 0xc0 then some (left - 1) else none
  else if byte < 0x80 then some 0
  else if byte < 0xc0 then none
  else if byte < 0xe0 then some 1
  else if byte < 0xf0 then some 2
  else if byte < 0xf8 then some 3
  else none

/-- Reads the bytes of a tag, and what comes behind them. A byte may be spelled by two hexadecimal
digits behind a percent sign; `left` more of them have to follow. -/
def tagBytes (whole : Bool) : (left : Nat) → List Char → Option (List UInt8 × List Char)
  | left, '%' :: high :: low :: rest => do
    let byte := (← Json.hexValue? high) * 16 + (← Json.hexValue? low)
    let (bytes, rest) ← tagBytes whole (← bytesLeft? left byte) rest
    return (byte.toUInt8 :: bytes, rest)
  | 0, c :: rest =>
    if isTagChar whole c then do
      let (bytes, rest) ← tagBytes whole 0 rest
      return (c.toNat.toUInt8 :: bytes, rest)
    else if c = '%' then none
    else some ([], c :: rest)
  | 0, [] => some ([], [])
  | _ + 1, _ => none

/-- Reads a part of a tag. Nothing counts behind a null character. -/
def readTagPart? (whole : Bool) (c : Cursor) : Option (String × Cursor) := do
  let (bytes, rest) ← tagBytes whole 0 c.rest
  return (Text.Utf8.lossy (bytes.takeWhile (· ≠ 0)), c.moveTo rest)

/-- Reads a part of a tag that has at least one character. -/
def readFullPart? (whole : Bool) (c : Cursor) : Option (String × Cursor) := do
  let (part, next) ← readTagPart? whole c
  if next.mark = c.mark then none else some (part, next)

/-- Reads an exclamation mark with the letters behind it, and the mark that may close them. -/
def readHandle (c : Cursor) : String × Cursor :=
  let letters := ((c.rest.drop 1).takeWhile isNameChar).length
  let next := c.skip (1 + letters)
  let next := if next.rest.head? = some '!' then next.skip 1 else next
  (String.ofList (c.rest.take (next.mark.index - c.mark.index)), next)

/-- Whether a handle is closed by an exclamation mark of its own. -/
def isClosedHandle (handle : String) : Bool :=
  1 < handle.length && handle.toList.getLast? = some '!'

/-- Reads a tag that is written in full, behind the bracket that opens it. -/
def readWholeTag? (c : Cursor) : Option (TagWord × Cursor) := do
  let (name, c) ← readFullPart? true c
  if c.rest.head? = some '>' then some (⟨"", name⟩, c.skip 1) else none

/-- Reads a tag that is written with a handle. The exclamation mark alone is a tag of its own. -/
def readShortTag? (c : Cursor) : Option (TagWord × Cursor) := do
  let (handle, next) := readHandle c
  if isClosedHandle handle then
    let (suffix, next) ← readFullPart? false next
    return (⟨handle, suffix⟩, next)
  else
    let (suffix, next) ← readTagPart? false (c.skip 1)
    return (if suffix.isEmpty then ⟨"", "!"⟩ else ⟨"!", suffix⟩, next)

/-- Reads a tag. Behind it stands a blank, or within brackets a comma. -/
def readTag? (flow : Bool) (c : Cursor) : Option (TagWord × Cursor) := do
  let (tag, next) ← match c.rest with
    | '!' :: '<' :: _ => readWholeTag? (c.skip 2)
    | _ => readShortTag? c
  if endsWord next.rest || (flow && next.rest.head? = some ',') then some (tag, next) else none

/-- Reads a number of a version; it has nine digits at most. -/
def readVersionNumber? (c : Cursor) : Option (Nat × Cursor) :=
  let digits := c.rest.takeWhile Char.isDigit
  if digits.isEmpty || 9 < digits.length then none
  else some (digits.foldl (fun n d => 10 * n + (d.toNat - '0'.toNat)) 0, c.skip digits.length)

/-- Reads the version behind the name of its directive. -/
def readVersion? (c : Cursor) : Option (Directive × Cursor) := do
  let (major, c) ← readVersionNumber? (c.skipWhile isGap)
  if c.rest.head? ≠ some '.' then none
  else
    let (minor, c) ← readVersionNumber? (c.skip 1)
    return (.version major minor, c)

/-- Reads a handle and what it stands for behind the name of the directive. -/
def readTagDirective? (c : Cursor) : Option (Directive × Cursor) := do
  let c := c.skipWhile isGap
  let (handle, next) := readHandle c
  if c.rest.head? ≠ some '!' || (handle ≠ "!" && !isClosedHandle handle) then none
  else if !(next.rest.head?.map isGap).getD false then none
  else
    let (start, next) ← readFullPart? true (next.skipWhile isGap)
    if endsWord next.rest then some (.tag handle start, next) else none

/-- Reads a directive behind its percent sign, with the rest of its line. -/
def readDirective? (c : Cursor) : Option (Directive × Cursor) := do
  let name := c.rest.takeWhile isNameChar
  let c := c.skip name.length
  if !endsWord c.rest then none
  else
    let (directive, c) ← match String.ofList name with
      | "YAML" => readVersion? c
      | "TAG" => readTagDirective? c
      | _ => none
    return (directive, ← c.skipLineEnd?)

end SchemaBindings.Yaml
