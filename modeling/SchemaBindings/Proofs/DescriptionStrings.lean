import SchemaBindings.PackageFiles
import SchemaBindings.Proofs.QuotedLiterals
import SchemaBindings.Proofs.ParserRows

/-! # The description of a package is read back

A string of a description stands on one line. Quotes, backslashes and control
characters other than the tabulator can stand in it as escapes only. The name
and the version of a package are written with escapes for quotes and
backslashes, so they are read back unless they hold a control character; then
the description cannot be read at all. -/

namespace SchemaBindings

namespace Text

variable {c : Char} {new : List Char}

theorem replaceFrom_singleton (cs : List Char) :
    replaceFrom [c] new 0 cs = cs.flatMap fun d => if d = c then new else [d] := by
  induction cs with
  | nil => rfl
  | cons d cs ih =>
    rw [replaceFrom, List.flatMap_cons]
    by_cases hd : d = c
    · subst hd
      simp [List.isPrefixOf, ih]
    · simp [List.isPrefixOf, ih, hd, eq_comm (a := c)]

/-- Replacing a piece of one character replaces the character wherever it stands. -/
theorem replace_singleton (cs : List Char) :
    replace [c] new cs = cs.flatMap fun d => if d = c then new else [d] := replaceFrom_singleton cs

end Text

namespace PackageFiles

open Code (behind? behind?_self prepend)

/-- Whether a character may stand in a string as an escape only; quotes and backslashes apart. -/
def isControl (c : Char) : Bool := (c.toNat < 0x20 && c ≠ '\t') || c.toNat = 0x7F

/-- Where in a string of a description a character stands. -/
inductive StringPlace where
  | outside
  | escaped
  | digits (more value : Nat)

/-- What the simple escapes stand for. -/
def stringEscapes : List (Char × Char) := [
  ('b', '\x08'), ('t', '\t'), ('n', '\n'), ('f', '\x0c'), ('r', '\r'), ('"', '"'), ('\\', '\\')]

/-- Reads the rest of a string of a description: the text, and what follows the string. -/
def readString (place : StringPlace) : List Char → Option (List Char × List Char)
  | [] => none
  | c :: rest =>
    match place with
    | .outside =>
      if c = '"' then some ([], rest)
      else if c = '\\' then readString .escaped rest
      else if isControl c then none
      else prepend c (readString .outside rest)
    | .escaped =>
      if c = 'u' then readString (.digits 3 0) rest
      else if c = 'U' then readString (.digits 7 0) rest
      else (stringEscapes.lookup c).bind fun d => prepend d (readString .outside rest)
    | .digits (more + 1) value =>
      (Json.hexValue? c).bind fun d => readString (.digits more (value * 16 + d)) rest
    | .digits 0 value =>
      (Json.hexValue? c).bind fun d => (Yaml.charOf? (value * 16 + d)).bind fun e =>
        prepend e (readString .outside rest)

/-- A value of a description. -/
inductive Value where
  | text (s : String)
  | flag (b : Bool)
deriving DecidableEq

/-- Reads a value: a string or a truth value. -/
def readValue? : List Char → Option (Value × List Char)
  | '"' :: rest =>
    (readString .outside rest).map fun read => (.text (String.ofList read.1), read.2)
  | cs =>
    match behind? "true".toList cs with
    | some rest => some (.flag true, rest)
    | none => (behind? "false".toList cs).map fun rest => (.flag false, rest)

/-- Whether a character may stand in a key. -/
def isKeyChar (c : Char) : Bool := c.isAlphanum || c = '_' || c = '-'

/-- Reads a line that gives a key a value. -/
def readPair? (cs : List Char) : Option ((String × Value) × List Char) := do
  let key := cs.takeWhile isKeyChar
  let body ← behind? " = ".toList (cs.dropWhile isKeyChar)
  let (value, after) ← readValue? body
  let rest ← behind? ['\n'] after
  if key.isEmpty then none else some ((String.ofList key, value), rest)

/-- Reads several such lines. -/
def readPairs? : (count : Nat) → List Char → Option (List (String × Value) × List Char)
  | 0, cs => some ([], cs)
  | count + 1, cs => (readPair? cs).bind fun read =>
    (readPairs? count read.2).map fun more => (read.1 :: more.1, more.2)

/-- What stands above the entries about the package. -/
def packageHead : List Char := "# @generated by schemagen\n\n[package]\n".toList

/-- Reads the entries about the package, down to the empty line below them. -/
def packagePairs? (count : Nat) (text : String) : Option (List (String × Value)) :=
  (behind? packageHead text.toList).bind fun body => (readPairs? count body).bind fun read =>
    (behind? ['\n'] read.2).map fun _ => read.1

/-! ## Strings -/

/-- A text without control characters. -/
def Printed (s : String) : Prop := ∀ c ∈ s.toList, isControl c = false

instance (s : String) : Decidable (Printed s) := List.decidableBAll _ _

/-- A character as it is written in a string of a description. -/
def stringChar (c : Char) : List Char :=
  if c = '\\' then ['\\', '\\'] else if c = '"' then ['\\', '"'] else [c]

theorem toList_descriptionString (s : String) :
    (descriptionString s).toList = '"' :: (s.toList.flatMap stringChar ++ ['"']) := by
  unfold descriptionString
  rw [String.toList_ofList, Text.replace_singleton, Text.replace_singleton, List.flatMap_assoc,
    List.cons_append]
  congr 2
  refine List.flatMap_congr fun c _ => ?_
  unfold stringChar
  by_cases hslash : c = '\\'
  · subst hslash
    rfl
  · rw [if_neg hslash, if_neg hslash, List.flatMap_singleton]

/-- What is written for a character is read as the character, but for a control character, on which
the reading ends. -/
theorem readString_stringChar (c : Char) (rest : List Char) :
    readString .outside (stringChar c ++ rest) =
      if isControl c then none else prepend c (readString .outside rest) := by
  unfold stringChar
  by_cases hslash : c = '\\'
  · subst hslash
    rfl
  · by_cases hquote : c = '"'
    · subst hquote
      rfl
    · rw [if_neg hslash, if_neg hquote, List.singleton_append, readString]
      simp only [hquote, hslash, if_false]

theorem readString_flatMap (cs rest : List Char) :
    readString .outside (cs.flatMap stringChar ++ '"' :: rest) =
      if cs.any isControl then none else some (cs, rest) := by
  induction cs with
  | nil => rfl
  | cons c cs ih =>
    rw [List.flatMap_cons, List.append_assoc, readString_stringChar, ih, List.any_cons]
    cases isControl c with
    | true => rfl
    | false =>
      cases cs.any isControl with
      | true => rfl
      | false => rfl

/-- A written string is read as its text exactly if the text has no control characters. -/
theorem readValue?_descriptionString (s : String) (rest : List Char) :
    readValue? ((descriptionString s).toList ++ rest) =
      if Printed s then some (.text s, rest) else none := by
  have hany : s.toList.any isControl = false ↔ Printed s := by
    simp only [List.any_eq_false, Bool.not_eq_true, Printed]
  rw [toList_descriptionString, List.cons_append, List.append_assoc, readValue?,
    List.singleton_append, readString_flatMap]
  by_cases hs : Printed s
  · rw [if_pos hs, hany.mpr hs, if_neg Bool.false_ne_true, Option.map_some, String.ofList_toList]
  · rw [if_neg hs, if_pos (by simpa using mt hany.mp hs), Option.map_none]

/-! ## Entries -/

theorem toList_unlines_cons (line : String) (lines : List String) :
    (unlines (line :: lines)).toList = line.toList ++ '\n' :: (unlines lines).toList := by
  unfold unlines
  rw [List.map_cons, String.join_cons, String.toList_append, String.toList_append,
    List.append_assoc]
  rfl

theorem readPair?_descriptionString {key : String} (hne : key.toList ≠ [])
    (hkey : key.toList.all isKeyChar = true) (s : String) (rest : List Char) :
    readPair? ((key ++ " = " ++ descriptionString s).toList ++ '\n' :: rest) =
      if Printed s then some ((key, .text s), rest) else none := by
  rw [List.all_eq_true] at hkey
  have hstop : ¬ isKeyChar ' ' = true := Bool.false_ne_true
  have hmark (more : List Char) : " = ".toList ++ more = ' ' :: '=' :: ' ' :: more := rfl
  unfold readPair?
  rw [String.toList_append, String.toList_append, List.append_assoc, List.append_assoc, hmark,
    List.takeWhile_append_of_pos hkey, List.dropWhile_append_of_pos hkey,
    List.takeWhile_cons_of_neg hstop, List.dropWhile_cons_of_neg hstop, ← hmark, behind?_self,
    List.append_nil]
  dsimp only
  rw [Option.bind_eq_bind, Option.bind_some, readValue?_descriptionString]
  split
  · have hend : behind? ['\n'] ('\n' :: rest) = some rest := behind?_self ['\n'] rest
    simp [hend, hne]
  · rfl

/-- What stands below the name and the version in every description. -/
def fixedLines : List String :=
  ["edition = \"2021\"", "publish = false", "", "[dependencies]"] ++ dependencies

theorem readPairs?_fixedLines : (readPairs? 2 (unlines fixedLines).toList).bind (fun read =>
      (behind? ['\n'] read.2).map fun _ => read.1) =
    some [("edition", .text "2021"), ("publish", .flag false)] := by
  have hedition : "edition = \"2021\"" = "edition" ++ " = " ++ descriptionString "2021" := rfl
  have hpublish (rest : List Char) : readPair? ("publish = false".toList ++ '\n' :: rest) =
      some (("publish", .flag false), rest) := rfl
  unfold fixedLines
  rw [List.cons_append, toList_unlines_cons, hedition, readPairs?,
    readPair?_descriptionString (by decide) rfl, if_pos (by decide), Option.bind_some,
    List.cons_append, toList_unlines_cons, readPairs?, hpublish, List.cons_append,
    toList_unlines_cons]
  rfl

theorem toList_packageFile (name version : String) :
    (packageFile name version).text.toList = packageHead ++
      (("name" ++ " = " ++ descriptionString name).toList ++
        '\n' :: (("version" ++ " = " ++ descriptionString version).toList ++
          '\n' :: (unlines fixedLines).toList)) := by
  have hname : "name" ++ " = " = "name = " := rfl
  have hversion : "version" ++ " = " = "version = " := rfl
  have hhead : packageHead = "# @generated by schemagen".toList ++
      '\n' :: ("".toList ++ '\n' :: ("[package]".toList ++ ['\n'])) := by decide
  rw [hname, hversion, hhead, ← toList_unlines_cons, ← toList_unlines_cons]
  unfold packageFile
  rw [List.cons_append, toList_unlines_cons, List.cons_append, toList_unlines_cons,
    List.cons_append, toList_unlines_cons]
  simp only [List.append_assoc, List.cons_append, List.nil_append]
  rfl

/-- A name with a control character breaks the first entry. -/
theorem packagePairs?_of_not_printed {name : String} (hname : ¬ Printed name) (version : String) :
    packagePairs? 4 (packageFile name version).text = none := by
  unfold packagePairs?
  rw [toList_packageFile, behind?_self, Option.bind_some, readPairs?,
    readPair?_descriptionString (by decide) rfl, if_neg hname]
  rfl

/-- The description of a package is read back with its name and its version exactly if both have no
control characters but tabulators. Otherwise it is no well-formed text. -/
theorem description_read (name version : String) :
    packagePairs? 4 (packageFile name version).text =
      if Printed name ∧ Printed version then
        some [("name", .text name), ("version", .text version), ("edition", .text "2021"),
          ("publish", .flag false)]
      else none := by
  by_cases hname : Printed name
  · have hfixed := readPairs?_fixedLines
    unfold packagePairs?
    rw [toList_packageFile, behind?_self, Option.bind_some, readPairs?,
      readPair?_descriptionString (by decide) rfl, if_pos hname, Option.bind_some, readPairs?,
      readPair?_descriptionString (by decide) rfl]
    by_cases hversion : Printed version
    · rw [if_pos hversion, if_pos ⟨hname, hversion⟩, Option.bind_some]
      obtain ⟨read, hread, hend⟩ := Option.bind_eq_some_iff.mp hfixed
      obtain ⟨rest, hrest, heq⟩ := Option.map_eq_some_iff.mp hend
      simp only [hread, Option.map_some, Option.bind_some, hrest, heq]
    · rw [if_neg hversion, if_neg fun h => hversion h.2]
      rfl
  · rw [if_neg fun h => hname h.1]
    exact packagePairs?_of_not_printed hname version

/-- A line feed in the name is written as it is, and the string is broken. -/
theorem description_line_feed :
    packagePairs? 4 (packageFile "a\nb" "1").text = none := by
  have hname : ¬ Printed "a\nb" := by decide
  exact packagePairs?_of_not_printed hname "1"

end PackageFiles

end SchemaBindings
