import SchemaBindings.Text.CaseIgnorable
import SchemaBindings.Text.CaseTables
import SchemaBindings.Text.Lowercase
import SchemaBindings.Text.Uppercase

/-! Changing the case of characters and of whole texts. Upper-casing looks at one character at a
time. Lower-casing a text also looks around: a capital sigma that ends a word becomes `ς`. -/

namespace SchemaBindings.Text

/-- Maximal runs of title-case code points, in order. -/
def titlecaseRanges : List (Nat × Nat) :=
  [
    (0x1C5, 0x1C5), (0x1C8, 0x1C8), (0x1CB, 0x1CB), (0x1F2, 0x1F2), (0x1F88, 0x1F8F),
    (0x1F98, 0x1F9F), (0x1FA8, 0x1FAF), (0x1FBC, 0x1FBC), (0x1FCC, 0x1FCC), (0x1FFC, 0x1FFC)
  ]

/-- Whether a character has a case. -/
def isCased (c : Char) : Bool :=
  isLowercase c || isUppercase c || inRanges titlecaseRanges c.toNat

/-- The characters that replace a character, by its run or by its expansion. -/
def recased (runs : List CaseRun) (expansions : List (Nat × List Nat)) (c : Char) : List Char :=
  match moved? runs c.toNat with
  | some n => [Char.ofNat n]
  | none =>
    match expansions.lookup c.toNat with
    | some ns => ns.map Char.ofNat
    | none => [c]

/-- The upper-case form of a character. -/
def upperChar (c : Char) : List Char :=
  recased upperRuns upperExpansions c

/-- The lower-case form of a character on its own. -/
def lowerChar (c : Char) : List Char :=
  recased lowerRuns lowerExpansions c

/-- Whether the first character that is not passed over has a case. -/
def startsCased (cs : List Char) : Bool :=
  match cs.dropWhile isCaseIgnorable with
  | [] => false
  | c :: _ => isCased c

/-- Lower-cases a text. `before` holds the characters already read, the nearest first. -/
def lowerFrom (before : List Char) : List Char → List Char
  | [] => []
  | c :: after =>
    let here :=
      if c = 'Σ' then
        if startsCased before && !startsCased after then ['ς'] else ['σ']
      else lowerChar c
    here ++ lowerFrom (c :: before) after

/-- The lower-case form of a text. -/
def lower (s : String) : String :=
  String.ofList (lowerFrom [] s.toList)

/-- The upper-case form of a text. -/
def upper (s : String) : String :=
  String.ofList (s.toList.flatMap upperChar)

end SchemaBindings.Text
