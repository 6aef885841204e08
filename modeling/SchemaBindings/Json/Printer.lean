import SchemaBindings.Decimal.Shortest
import SchemaBindings.Json.Value

/-! JSON as text: compact on one line, or pretty with two spaces per level. Empty arrays and
objects stay on one line either way. -/

namespace SchemaBindings.Json

/-- Floating numbers are positional from `1e-5` up to, not including, `1e16`, and keep a `.0`. -/
def numberStyle : Decimal.Style := ⟨-5, 15, "e", "+"⟩

/-- A number as text. -/
def numberText : JsonNumber → String
  | .integer n => toString n
  | .float x => Decimal.text numberStyle x

/-- A digit of base sixteen in lower case. -/
def hexDigit (n : Nat) : Char := Nat.digitChar n

/-- A character within quotes. Quotes, backslashes and controls are escaped. -/
def escapeChar (c : Char) : List Char :=
  if c = '"' then ['\\', '"']
  else if c = '\\' then ['\\', '\\']
  else if c = '\x08' then ['\\', 'b']
  else if c = '\x0c' then ['\\', 'f']
  else if c = '\n' then ['\\', 'n']
  else if c = '\r' then ['\\', 'r']
  else if c = '\t' then ['\\', 't']
  else if c.toNat < 0x20 then
    ['\\', 'u', '0', '0', hexDigit (c.toNat / 16), hexDigit (c.toNat % 16)]
  else [c]

/-- A string in quotes. -/
def quote (s : String) : String :=
  String.ofList ('"' :: s.toList.flatMap escapeChar ++ ['"'])

mutual
/-- A value on one line without spaces. -/
def compact : Json → String
  | .null => "null"
  | .bool b => if b then "true" else "false"
  | .number n => numberText n
  | .string s => quote s
  | .array xs => "[" ++ ",".intercalate (compactItems xs) ++ "]"
  | .object ms => "\x7b" ++ ",".intercalate (compactMembers ms) ++ "\x7d"

/-- The items of an array, each on its own. -/
def compactItems : List Json → List String
  | [] => []
  | x :: xs => compact x :: compactItems xs

/-- The members of an object, each on its own. -/
def compactMembers : List (String × Json) → List String
  | [] => []
  | (k, v) :: ms => (quote k ++ ":" ++ compact v) :: compactMembers ms
end

/-- The start of a line at some depth. -/
def newline (depth : Nat) : String :=
  "\n" ++ String.ofList (List.replicate (2 * depth) ' ')

/-- Puts pieces between brackets, each on a line of its own one level deeper. -/
def block (depth : Nat) (opening closing : String) (pieces : List String) : String :=
  if pieces.isEmpty then opening ++ closing
  else
    opening ++ newline (depth + 1) ++ ("," ++ newline (depth + 1)).intercalate pieces ++
      newline depth ++ closing

mutual
/-- A value at some depth, over several lines. -/
def prettyAt (depth : Nat) : Json → String
  | .null => "null"
  | .bool b => if b then "true" else "false"
  | .number n => numberText n
  | .string s => quote s
  | .array xs => block depth "[" "]" (prettyItems (depth + 1) xs)
  | .object ms => block depth "\x7b" "\x7d" (prettyMembers (depth + 1) ms)

/-- The items of an array at some depth. -/
def prettyItems (depth : Nat) : List Json → List String
  | [] => []
  | x :: xs => prettyAt depth x :: prettyItems depth xs

/-- The members of an object at some depth. -/
def prettyMembers (depth : Nat) : List (String × Json) → List String
  | [] => []
  | (k, v) :: ms => (quote k ++ ": " ++ prettyAt depth v) :: prettyMembers depth ms
end

/-- A value over several lines. -/
def pretty (v : Json) : String := prettyAt 0 v

end SchemaBindings.Json
