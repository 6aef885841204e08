import SchemaBindings.Text.GraphemeExtend
import SchemaBindings.Text.Unprintable

/-! Texts as literals of the code that is written. A raw literal shows the text as it is between
quotes with enough hash signs; a quoted literal escapes what cannot be shown. -/

namespace SchemaBindings.Code

/-- The longest run of hash signs right behind a quote. `run` is the length of the run that is
being read, if one is. -/
def longestHashRun : (run : Option Nat) → List Char → Nat
  | run, [] => run.getD 0
  | run, c :: rest =>
    let next :=
      if c = '"' then some 0
      else if c = '#' then run.map (· + 1)
      else none
    max (run.getD 0) (longestHashRun next rest)

/-- How many hash signs a raw literal of a text needs. -/
def hashCount (text : String) : Nat := longestHashRun none text.toList + 1

/-- A text as a raw literal. -/
def rawLiteral (text : String) : String :=
  let hashes := String.ofList (List.replicate (hashCount text) '#')
  "r" ++ hashes ++ "\"" ++ text ++ "\"" ++ hashes

/-- A code point as an escape. -/
def codePointEscape (c : Char) : List Char :=
  "\\u\x7b".toList ++ Nat.toDigits 16 c.toNat ++ ['\x7d']

/-- The marks of voicing that are as wide as a letter. They extend the letter before them but have a
place of their own. -/
def isWideMark (c : Char) : Bool := c = '\uff9e' || c = '\uff9f'

/-- Whether a character cannot be told when it stands alone. -/
def isHidden (c : Char) : Bool :=
  (Text.isGraphemeExtend c && !isWideMark c) || Text.isUnprintable c

/-- A character within a quoted literal. -/
def literalChar (c : Char) : List Char :=
  if c = '\x00' then ['\\', '0']
  else if c = '\t' then ['\\', 't']
  else if c = '\r' then ['\\', 'r']
  else if c = '\n' then ['\\', 'n']
  else if c = '"' then ['\\', '"']
  else if c = '\\' then ['\\', '\\']
  else if isHidden c then codePointEscape c
  else [c]

/-- A text as a quoted literal. -/
def quoted (text : String) : String :=
  String.ofList ('"' :: text.toList.flatMap literalChar ++ ['"'])

end SchemaBindings.Code
