import SchemaBindings.Text.Utf8

/-! Percent escapes. An escape is a percent sign and two characters that spell a byte; a percent
sign that is not followed by such a pair stands for itself. -/

namespace SchemaBindings.Text.Percent

/-- The percent sign. -/
def sign : UInt8 := 0x25

/-- The value of a digit of base sixteen in either case. -/
def digit? (b : UInt8) : Option UInt8 :=
  if 0x30 ≤ b ∧ b ≤ 0x39 then some (b - 0x30)
  else if 0x41 ≤ b ∧ b ≤ 0x46 then some (b - 0x41 + 10)
  else if 0x61 ≤ b ∧ b ≤ 0x66 then some (b - 0x61 + 10)
  else none

/-- The byte that a pair spells: two digits, or a plus sign and one digit. -/
def pair? (a b : UInt8) : Option UInt8 :=
  match digit? b with
  | none => none
  | some low =>
    if a = 0x2B then some low
    else (digit? a).map fun high => high * 16 + low

/-- Replaces every escape, from the left, by its byte. -/
def decodeBytes : List UInt8 → List UInt8
  | a :: b :: c :: rest =>
    if a = sign then
      match pair? b c with
      | some x => x :: decodeBytes rest
      | none => a :: decodeBytes (b :: c :: rest)
    else a :: decodeBytes (b :: c :: rest)
  | bs => bs

/-- The text that a text with escapes stands for. -/
def decode (s : String) : String :=
  Utf8.lossy (decodeBytes (Utf8.encode s))

/-- A digit of base sixteen in upper case, as a character. -/
def digitChar (n : Nat) : Char :=
  if n < 10 then Char.ofNat (0x30 + n) else Char.ofNat (0x41 + n - 10)

/-- The escape of a byte. -/
def escape (b : UInt8) : List Char :=
  ['%', digitChar (b.toNat / 16), digitChar (b.toNat % 16)]

/-- The characters that may stand in the fragment of a reference as they are. -/
def isFragmentChar (c : Char) : Bool :=
  c.isAlphanum || "-._~!$&'()*+,;=:@/?".toList.contains c

/-- Escapes every character that may not stand in a fragment. -/
def encodeFragment (s : String) : String :=
  String.ofList <| s.toList.flatMap fun c =>
    if isFragmentChar c then [c] else (String.utf8EncodeChar c).flatMap escape

end SchemaBindings.Text.Percent
