import SchemaBindings.Json.Value
import SchemaBindings.Text.Utf8

/-! Reading JSON text. A reader takes characters off the front of the text and answers with what it
read and the rest. A failure holds the rest at which it arose, from which its line and its column,
counted in bytes, follow. Nesting is limited to 127 levels. -/

namespace SchemaBindings.Json

/-- What is wrong with a text. -/
inductive Fault where
  | endInValue
  | endInList
  | endInObject
  | endInString
  | expectedColon
  | expectedListEnd
  | expectedObjectEnd
  | expectedWord
  | expectedValue
  | invalidEscape
  | invalidNumber
  | numberOutOfRange
  | controlCharacter
  | keyNotString
  | loneSurrogate
  | trailingComma
  | trailingCharacters
  | brokenSurrogatePair
  | tooDeep
deriving DecidableEq, Repr

/-- A fault as a phrase. -/
def Fault.text : Fault → String
  | .endInValue => "EOF while parsing a value"
  | .endInList => "EOF while parsing a list"
  | .endInObject => "EOF while parsing an object"
  | .endInString => "EOF while parsing a string"
  | .expectedColon => "expected \x60:\x60"
  | .expectedListEnd => "expected \x60,\x60 or \x60]\x60"
  | .expectedObjectEnd => "expected \x60,\x60 or \x60\x7d\x60"
  | .expectedWord => "expected ident"
  | .expectedValue => "expected value"
  | .invalidEscape => "invalid escape"
  | .invalidNumber => "invalid number"
  | .numberOutOfRange => "number out of range"
  | .controlCharacter => "control character (\\u0000-\\u001F) found while parsing a string"
  | .keyNotString => "key must be a string"
  | .loneSurrogate => "lone leading surrogate in hex escape"
  | .trailingComma => "trailing comma"
  | .trailingCharacters => "trailing characters"
  | .brokenSurrogatePair => "unexpected end of hex escape"
  | .tooDeep => "recursion limit exceeded"

/-- A fault and where it arose: `ahead` bytes behind the start of `rest`. -/
structure Failure where
  fault : Fault
  rest : List Char
  ahead : Nat

/-- The outcome of a reader. -/
abbrev Reading (α : Type) := Except Failure (α × List Char)

/-- Fails at the start of the rest. -/
def failAt {α : Type} (fault : Fault) (rest : List Char) : Except Failure α :=
  .error ⟨fault, rest, 0⟩

/-- Fails one byte behind the start of the rest. -/
def failNext {α : Type} (fault : Fault) (rest : List Char) : Except Failure α :=
  .error ⟨fault, rest, 1⟩

/-- Whether a character is white space between tokens. -/
def isSpace (c : Char) : Bool := c = ' ' || c = '\n' || c = '\t' || c = '\r'

/-- Drops white space. -/
def skipSpace (cs : List Char) : List Char := cs.dropWhile isSpace

/-- The value of a digit of base sixteen. -/
def hexValue? (c : Char) : Option Nat :=
  if '0' ≤ c ∧ c ≤ '9' then some (c.toNat - '0'.toNat)
  else if 'a' ≤ c ∧ c ≤ 'f' then some (c.toNat - 'a'.toNat + 10)
  else if 'A' ≤ c ∧ c ≤ 'F' then some (c.toNat - 'A'.toNat + 10)
  else none

/-- How many bytes characters take. -/
def byteLength (cs : List Char) : Nat := cs.foldl (fun n c => n + c.utf8Size) 0

/-- Reads the four digits of a unit. -/
def readUnit (cs : List Char) : Reading Nat :=
  match (cs.take 4).mapM hexValue? with
  | some [a, b, c, d] => .ok (((a * 16 + b) * 16 + c) * 16 + d, cs.drop 4)
  | _ =>
    if byteLength (cs.take 4) < 4 then failAt .endInString [] else .error ⟨.invalidEscape, cs, 4⟩

/-- Reads the second unit of a pair. -/
def readLowUnit (high : Nat) : List Char → Reading Char
  | '\\' :: 'u' :: rest =>
    match readUnit rest with
    | .error e => .error e
    | .ok (low, rest) =>
      if low < 0xDC00 ∨ 0xDFFF < low then failAt .loneSurrogate rest
      else .ok (Char.ofNat (0x10000 + (high - 0xD800) * 0x400 + (low - 0xDC00)), rest)
  | [] => failAt .endInString []
  | ['\\'] => failAt .endInString []
  | '\\' :: rest => failNext .brokenSurrogatePair rest
  | rest => failNext .brokenSurrogatePair rest

/-- Reads what follows `\u`: one unit, or two that make a pair. -/
def readUnicode (cs : List Char) : Reading Char :=
  match readUnit cs with
  | .error e => .error e
  | .ok (unit, rest) =>
    if 0xDC00 ≤ unit ∧ unit ≤ 0xDFFF then failAt .loneSurrogate rest
    else if unit < 0xD800 ∨ 0xDBFF < unit then .ok (Char.ofNat unit, rest)
    else readLowUnit unit rest

/-- Reads what follows a backslash. -/
def readEscape : List Char → Reading Char
  | [] => failAt .endInString []
  | '"' :: rest => .ok ('"', rest)
  | '\\' :: rest => .ok ('\\', rest)
  | '/' :: rest => .ok ('/', rest)
  | 'b' :: rest => .ok ('\x08', rest)
  | 'f' :: rest => .ok ('\x0c', rest)
  | 'n' :: rest => .ok ('\n', rest)
  | 'r' :: rest => .ok ('\r', rest)
  | 't' :: rest => .ok ('\t', rest)
  | 'u' :: rest => readUnicode rest
  | rest => failNext .invalidEscape rest

/-- Reads the characters of a string and the closing quote; `done` holds those already read, the
last one first. -/
def readString : (fuel : Nat) → (done : List Char) → List Char → Reading String
  | 0, _, _ => failAt .endInString []
  | _ + 1, _, [] => failAt .endInString []
  | fuel + 1, done, c :: rest =>
    if c = '"' then .ok (String.ofList done.reverse, rest)
    else if c = '\\' then
      match readEscape rest with
      | .error e => .error e
      | .ok (d, rest) => readString fuel (d :: done) rest
    else if c.toNat < 0x20 then failAt .controlCharacter rest
    else readString fuel (c :: done) rest

/-- The greatest unsigned integer of 64 bits. -/
def unsignedLimit : Nat := Nat.pow 2 64 - 1

/-- Adds digits to a significand as long as it has 64 bits. The answer holds the significand, how
many digits were added, and the rest. -/
def takeDigits : (significand count : Nat) → List Char → Nat × Nat × List Char
  | significand, count, [] => (significand, count, [])
  | significand, count, c :: rest =>
    if c.isDigit ∧ significand * 10 + (c.toNat - '0'.toNat) ≤ unsignedLimit then
      takeDigits (significand * 10 + (c.toNat - '0'.toNat)) (count + 1) rest
    else (significand, count, c :: rest)

/-- Finishes a floating number. -/
def finishFloat (negative : Bool) (significand : Nat) (exponent : Int) (rest : List Char) :
    Reading JsonNumber :=
  match Binary64.ofDecimal? negative significand exponent with
  | some x => .ok (.float x, rest)
  | none => failAt .numberOutOfRange rest

/-- The greatest exponent that is counted. -/
def exponentLimit : Nat := Nat.pow 2 31 - 1

/-- Adds digits to an exponent up to its limit. The flag tells whether a digit went over it; that
digit is then taken as well. -/
def takeExponent : (exponent : Nat) → List Char → Nat × Bool × List Char
  | e, [] => (e, false, [])
  | e, c :: rest =>
    if c.isDigit then
      let e' := e * 10 + (c.toNat - '0'.toNat)
      if e' ≤ exponentLimit then takeExponent e' rest else (e, true, rest)
    else (e, false, c :: rest)

/-- The sign before the digits of an exponent, and what follows it. -/
def exponentSign : List Char → Bool × List Char
  | '+' :: rest => (true, rest)
  | '-' :: rest => (false, rest)
  | rest => (true, rest)

/-- Reads what follows the mark of an exponent. -/
def readExponent (negative : Bool) (significand : Nat) (start : Int) (cs : List Char) :
    Reading JsonNumber :=
  match exponentSign cs with
  | (_, []) => failAt .endInValue []
  | (up, c :: rest) =>
    if c.isDigit then
      match takeExponent (c.toNat - '0'.toNat) rest with
      | (_, true, rest) =>
        if significand ≠ 0 ∧ up then failAt .numberOutOfRange rest
        else .ok (.float (Binary64.zero negative), rest.dropWhile Char.isDigit)
      | (e, false, rest) =>
        finishFloat negative significand (if up then start + e else start - e) rest
    else failNext .invalidNumber (c :: rest)

/-- Goes on after the digits of a floating number. -/
def afterDigits (negative : Bool) (significand : Nat) (exponent : Int) (cs : List Char) :
    Reading JsonNumber :=
  match cs with
  | 'e' :: rest => readExponent negative significand exponent rest
  | 'E' :: rest => readExponent negative significand exponent rest
  | rest => finishFloat negative significand exponent rest

/-- Reads what follows a point. Digits that no longer fit are passed over. -/
def readFraction (negative : Bool) (significand : Nat) (exponent : Int) (cs : List Char) :
    Reading JsonNumber :=
  let (s, count, rest) := takeDigits significand 0 cs
  match count, rest with
  | 0, [] => failAt .endInValue []
  | 0, c :: rest =>
    if c.isDigit then afterDigits negative s exponent ((c :: rest).dropWhile Char.isDigit)
    else failNext .invalidNumber (c :: rest)
  | count, rest => afterDigits negative s (exponent - count) (rest.dropWhile Char.isDigit)

/-- An integer that has 64 bits, or the floating number nearest to it. -/
def integerOf (negative : Bool) (n : Nat) (rest : List Char) : Reading JsonNumber :=
  if negative then
    if 0 < n ∧ n ≤ Nat.pow 2 63 then .ok (.integer (-(n : Int)), rest)
    else finishFloat true n 0 rest
  else .ok (.integer n, rest)

/-- Goes on after the integer digits of a number. `dropped` digits no longer fitted. -/
def afterInteger (negative : Bool) (n dropped : Nat) (cs : List Char) : Reading JsonNumber :=
  match cs with
  | '.' :: rest => readFraction negative n dropped rest
  | 'e' :: rest => readExponent negative n dropped rest
  | 'E' :: rest => readExponent negative n dropped rest
  | rest => if dropped = 0 then integerOf negative n rest else finishFloat negative n dropped rest

/-- Reads a number after its sign. -/
def readNumber (negative : Bool) : List Char → Reading JsonNumber
  | [] => failAt .endInValue []
  | '0' :: rest =>
    match rest with
    | c :: _ => if c.isDigit then failNext .invalidNumber rest else afterInteger negative 0 0 rest
    | [] => afterInteger negative 0 0 rest
  | c :: rest =>
    if c.isDigit then
      let (n, _, rest) := takeDigits (c.toNat - '0'.toNat) 0 rest
      let more := rest.takeWhile Char.isDigit
      afterInteger negative n more.length (rest.drop more.length)
    else failNext .invalidNumber (c :: rest)

/-- Reads the rest of a word and answers with what the word means. -/
def readWord (meaning : Json) : (word : List Char) → List Char → Reading Json
  | [], rest => .ok (meaning, rest)
  | _ :: _, [] => failAt .endInValue []
  | w :: word, c :: rest =>
    if c = w then readWord meaning word rest else failNext .expectedWord (c :: rest)

/-- Reads an opening quote's string as a value. -/
def readText (fuel : Nat) (cs : List Char) : Reading Json :=
  match readString fuel [] cs with
  | .error e => .error e
  | .ok (s, rest) => .ok (.string s, rest)

/-- Reads a number as a value. -/
def readNumeral (negative : Bool) (cs : List Char) : Reading Json :=
  match readNumber negative cs with
  | .error e => .error e
  | .ok (n, rest) => .ok (.number n, rest)

/-- Reads a colon. -/
def readColon (cs : List Char) : Except Failure (List Char) :=
  match skipSpace cs with
  | ':' :: rest => .ok rest
  | [] => failAt .endInObject []
  | rest => failNext .expectedColon rest

mutual
/-- Reads a value. `depth` is how many levels may still open. -/
def readValue : (fuel depth : Nat) → List Char → Reading Json
  | 0, _, _ => failAt .endInValue []
  | fuel + 1, depth, cs =>
    match skipSpace cs with
    | [] => failAt .endInValue []
    | 'n' :: rest => readWord .null "ull".toList rest
    | 't' :: rest => readWord (.bool true) "rue".toList rest
    | 'f' :: rest => readWord (.bool false) "alse".toList rest
    | '"' :: rest => readText fuel rest
    | '-' :: rest => readNumeral true rest
    | '[' :: rest =>
      if depth = 0 then failNext .tooDeep ('[' :: rest)
      else readItems fuel (depth - 1) true [] rest
    | '\x7b' :: rest =>
      if depth = 0 then failNext .tooDeep ('\x7b' :: rest)
      else readMembers fuel (depth - 1) true [] rest
    | c :: rest =>
      if c.isDigit then readNumeral false (c :: rest) else failNext .expectedValue (c :: rest)

/-- Reads the items of an array up to its end. -/
def readItems : (fuel depth : Nat) → (atStart : Bool) → (done : List Json) → List Char →
    Reading Json
  | 0, _, _, _, _ => failAt .endInList []
  | fuel + 1, depth, atStart, done, cs =>
    match skipSpace cs with
    | [] => failAt .endInList []
    | ']' :: rest => .ok (.array done.reverse, rest)
    | c :: rest =>
      if atStart then readItem fuel depth done (c :: rest)
      else if c = ',' then
        match skipSpace rest with
        | [] => failAt .endInValue []
        | ']' :: rest => failNext .trailingComma (']' :: rest)
        | rest => readItem fuel depth done rest
      else failNext .expectedListEnd (c :: rest)

/-- Reads one item of an array and goes on. -/
def readItem : (fuel depth : Nat) → (done : List Json) → List Char → Reading Json
  | 0, _, _, _ => failAt .endInList []
  | fuel + 1, depth, done, cs =>
    match readValue fuel depth cs with
    | .error e => .error e
    | .ok (v, rest) => readItems fuel depth false (v :: done) rest

/-- Reads the members of an object up to its end. -/
def readMembers : (fuel depth : Nat) → (atStart : Bool) → (done : Members) → List Char →
    Reading Json
  | 0, _, _, _, _ => failAt .endInObject []
  | fuel + 1, depth, atStart, done, cs =>
    match skipSpace cs with
    | [] => failAt .endInObject []
    | '\x7d' :: rest => .ok (.object done, rest)
    | c :: rest =>
      if atStart then
        if c = '"' then readMember fuel depth done rest else failNext .keyNotString (c :: rest)
      else if c = ',' then
        match skipSpace rest with
        | [] => failAt .endInValue []
        | '"' :: rest => readMember fuel depth done rest
        | '\x7d' :: rest => failNext .trailingComma ('\x7d' :: rest)
        | rest => failNext .keyNotString rest
      else failNext .expectedObjectEnd (c :: rest)

/-- Reads one member of an object after the opening quote of its key and goes on. -/
def readMember : (fuel depth : Nat) → (done : Members) → List Char → Reading Json
  | 0, _, _, _ => failAt .endInObject []
  | fuel + 1, depth, done, cs =>
    match readString fuel [] cs with
    | .error e => .error e
    | .ok (key, rest) =>
      match readColon rest with
      | .error e => .error e
      | .ok rest =>
        match readValue fuel depth rest with
        | .error e => .error e
        | .ok (v, rest) => readMembers fuel depth false (done.insert key v) rest
end

/-- How many levels may be open at once. -/
def depthLimit : Nat := 127

/-- Reads a whole text. Every reader takes at least one character off in three steps. -/
def readAll (cs : List Char) : Except Failure Json :=
  match readValue (3 * cs.length + 3) depthLimit cs with
  | .error e => .error e
  | .ok (v, rest) =>
    match skipSpace rest with
    | [] => .ok v
    | rest => failNext .trailingCharacters rest

/-- A fault and its place in the text. -/
structure ReadError where
  fault : Fault
  line : Nat
  column : Nat
deriving DecidableEq, Repr

/-- The error as a phrase. -/
def ReadError.message (e : ReadError) : String :=
  e.fault.text ++ " at line " ++ toString e.line ++ " column " ++ toString e.column

/-- The line on which some bytes end, counted from one, and how many of them lie on it. -/
def linePosition (bytes : List UInt8) : Nat × Nat :=
  bytes.foldl (fun p b => if b = 10 then (p.1 + 1, 0) else (p.1, p.2 + 1)) (1, 0)

/-- Finds the place of a failure. -/
def Failure.locate (text : String) (f : Failure) : ReadError :=
  let bytes := Text.Utf8.encode text
  let index := bytes.length - byteLength f.rest + f.ahead
  let (line, column) := linePosition (bytes.take index)
  ⟨f.fault, line, column⟩

/-- Reads a text as one JSON value. -/
def read (text : String) : Except ReadError Json :=
  match readAll text.toList with
  | .ok v => .ok v
  | .error f => .error (f.locate text)

end SchemaBindings.Json
