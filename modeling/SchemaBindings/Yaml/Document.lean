import SchemaBindings.Yaml.Node
import SchemaBindings.Yaml.TokenReader

/-! From the words of a YAML text to its document. -/

namespace SchemaBindings.Yaml

/-- The words that are left, what handles of tags stand for, the numbers of the names that were
given, and the nodes with these numbers as far as they are read. -/
structure NodeReader where
  tokens : List Token
  handles : List (String × String)
  names : List (String × Nat)
  numbered : List (Nat × Node)

/-- A step of reading nodes; it fails where the words make no document. -/
abbrev Compose := StateT NodeReader Option

namespace Compose

/-- The next word. -/
def peek : Compose (Option Token) := return (← get).tokens.head?

/-- Passes a word. -/
def skip : Compose Unit := modify fun s => { s with tokens := s.tokens.tail }

/-- Passes a word if it comes next. -/
def passes (t : Token) : Compose Bool := do
  if (← peek) = some t then
    skip
    return true
  else return false

/-- Whether one of some words comes next. -/
def comesNext (ts : List Token) : Compose Bool :=
  return ((← peek).map ts.contains).getD false

/-- The tag that a word stands for. -/
def tagOf (t : TagWord) : Compose String := do
  if t.handle.isEmpty then return t.suffix
  else return (← (← get).handles.lookup t.handle) ++ t.suffix

/-- Gives the next node a name, and tells its place among the nodes with numbers. The number is how
many names there were before, so a name that is given again shares its number with the next new
one. -/
def register (name : String) : Compose Nat := do
  let s ← get
  let number := s.names.length
  set { s with
    names := (name, number) :: s.names.filter (·.1 ≠ name)
    numbered := s.numbered ++ [(number, Node.empty)] }
  return s.numbered.length

/-- Puts a node at its place among those with numbers. -/
def complete (place : Nat) (n : Node) : Compose Unit :=
  modify fun s =>
    { s with numbered := s.numbered.modify place fun numbered => (numbered.1, n) }

end Compose

open Compose

/-- What stands before a node. -/
structure Properties where
  anchor : Option String
  tag : Option TagWord

/-- Reads a name, if there is one. -/
def readAnchor : Compose (Option String) := do
  match ← peek with
  | some (.anchor name) =>
    skip
    return some name
  | _ => return none

/-- Reads a tag, if there is one. -/
def readTagWord : Compose (Option TagWord) := do
  match ← peek with
  | some (.tag t) =>
    skip
    return some t
  | _ => return none

/-- Reads what stands before a node: a name and a tag, in either order. -/
def readProperties : Compose Properties := do
  match ← readAnchor with
  | some name => return ⟨some name, ← readTagWord⟩
  | none =>
    match ← readTagWord with
    | some t => return ⟨← readAnchor, some t⟩
    | none => return ⟨none, none⟩

mutual
/-- Reads a node. In `block` it may be a block collection; `loose` allows a list whose dashes stand
at the column of the mapping around it. -/
def readNode (block loose : Bool) : (fuel : Nat) → Compose Node
  | 0 => failure
  | fuel + 1 => do
    if let some (.alias name) ← peek then
      skip
      return .alias (← (← get).names.lookup name)
    let p ← readProperties
    let tag ← p.tag.mapM tagOf
    match p.anchor with
    | none => readContent block loose tag false fuel
    | some name =>
      let place ← register name
      let n ← readContent block loose tag true fuel
      complete place n
      return n

/-- Reads a node behind what stands before it. With a name, or a tag that is not empty, it may be
left out. -/
def readContent (block loose : Bool) (tag : Option String) (named : Bool) :
    (fuel : Nat) → Compose Node
  | 0 => failure
  | fuel + 1 => do
    match ← peek, block, loose with
    | some .entry, _, true => return .sequence (← readLooseItems fuel [])
    | some (.scalar plain text), _, _ =>
      skip
      return .scalar plain tag text
    | some .openSequence, _, _ =>
      skip
      return .sequence (← readFlowItems fuel [])
    | some .openMapping, _, _ =>
      skip
      return .mapping (← readFlowPairs fuel [])
    | some .blockSequence, true, _ =>
      skip
      return .sequence (← readBlockItems fuel [])
    | some .blockMapping, true, _ =>
      skip
      return .mapping (← readBlockPairs fuel [])
    | _, _, _ =>
      guard (named || tag.any (!·.isEmpty))
      return .scalar true tag ""

/-- Reads a node unless one of some words comes, before which it is left out. -/
def readOptional (block loose : Bool) (ends : List Token) : (fuel : Nat) → Compose Node
  | 0 => failure
  | fuel + 1 => do if ← comesNext ends then return .empty else readNode block loose fuel

/-- Reads the items of a block sequence. -/
def readBlockItems : (fuel : Nat) → (done : List Node) → Compose (List Node)
  | 0, _ => failure
  | fuel + 1, done => do
    if ← passes .entry then
      let item ← readOptional true false [.entry, .blockEnd] fuel
      readBlockItems fuel (item :: done)
    else
      guard (← passes .blockEnd)
      return done.reverse

/-- Reads the items of a sequence whose dashes stand at the column of the mapping around it. -/
def readLooseItems : (fuel : Nat) → (done : List Node) → Compose (List Node)
  | 0, _ => failure
  | fuel + 1, done => do
    if ← passes .entry then
      let item ← readOptional true false [.entry, .key, .value, .blockEnd] fuel
      readLooseItems fuel (item :: done)
    else return done.reverse

/-- Reads the pairs of a block mapping. -/
def readBlockPairs : (fuel : Nat) → (done : List (Node × Node)) → Compose (List (Node × Node))
  | 0, _ => failure
  | fuel + 1, done => do
    if ← passes .key then
      let ends : List Token := [.key, .value, .blockEnd]
      let key ← readOptional true true ends fuel
      let v ← if ← passes .value then readOptional true true ends fuel else pure .empty
      readBlockPairs fuel ((key, v) :: done)
    else
      guard (← passes .blockEnd)
      return done.reverse

/-- Reads the value behind a key within brackets, if there is one, up to one of some words. -/
def readFlowValue (ends : List Token) : (fuel : Nat) → Compose Node
  | 0 => failure
  | fuel + 1 => do
    if ← passes .value then readOptional false false ends fuel else return .empty

/-- Reads the items in square brackets. An item with a key is a mapping of one pair. -/
def readFlowItems : (fuel : Nat) → (done : List Node) → Compose (List Node)
  | 0, _ => failure
  | fuel + 1, done => do
    if ← passes .closeSequence then return done.reverse
    if !done.isEmpty then guard (← passes .comma)
    if ← passes .closeSequence then return done.reverse
    if ← passes .key then
      let key ← readOptional false false [.value, .comma, .closeSequence] fuel
      let v ← readFlowValue [.comma, .closeSequence] fuel
      readFlowItems fuel (.mapping [(key, v)] :: done)
    else
      let item ← readNode false false fuel
      readFlowItems fuel (item :: done)

/-- Reads the pairs in curly brackets. Something that no colon follows is a key without a value. -/
def readFlowPairs : (fuel : Nat) → (done : List (Node × Node)) → Compose (List (Node × Node))
  | 0, _ => failure
  | fuel + 1, done => do
    if ← passes .closeMapping then return done.reverse
    if !done.isEmpty then guard (← passes .comma)
    if ← passes .closeMapping then return done.reverse
    if ← passes .key then
      let key ← readOptional false false [.value, .comma, .closeMapping] fuel
      let v ← readFlowValue [.comma, .closeMapping] fuel
      readFlowPairs fuel ((key, v) :: done)
    else
      let key ← readNode false false fuel
      readFlowPairs fuel ((key, .empty) :: done)
end

/-- The handles that need no directive, and what they stand for. -/
def knownHandles : List (String × String) := [("!", "!"), ("!!", "tag:yaml.org,2002:")]

/-- The directives at the start of some words, and the words behind them. -/
def splitDirectives : List Token → List Directive × List Token
  | .directive d :: ts =>
    let (ds, rest) := splitDirectives ts
    (d :: ds, rest)
  | ts => ([], ts)

/-- The versions that directives name. -/
def versionsOf (ds : List Directive) : List (Nat × Nat) :=
  ds.filterMap fun
    | .version major minor => some (major, minor)
    | .tag _ _ => none

/-- The handles that directives give a meaning. -/
def handlesOf (ds : List Directive) : List (String × String) :=
  ds.filterMap fun
    | .version _ _ => none
    | .tag handle start => some (handle, start)

/-- Whether directives agree: there is one version at most, it is known, and no handle comes
twice. -/
def areValid (ds : List Directive) : Bool :=
  (versionsOf ds).length ≤ 1 && (versionsOf ds).all [(1, 1), (1, 2)].contains &&
    ((handlesOf ds).map (·.1)).Nodup

/-- Reads the root of a document. Behind the line that starts a document it may be left out. -/
def readRoot (optional : Bool) (fuel : Nat) : Compose Node := do
  match ← peek with
  | none | some .documentStart | some .documentEnd | some (.directive _) =>
    guard optional
    return .empty
  | _ => readNode true false fuel

/-- The document that some words make. Nothing comes behind it but lines that end a document. -/
def Document.ofTokens? (ts : List Token) : Option Document := do
  let (directives, rest) := splitDirectives ts
  guard (areValid directives)
  let started := rest.head? = some .documentStart
  guard (started || directives.isEmpty)
  let words := if started then rest.tail else rest
  let (root, s) ← (readRoot (started || ts.isEmpty) (4 * words.length + 8)).run
    ⟨words, handlesOf directives ++ knownHandles, [], []⟩
  guard (s.tokens.all (· = .documentEnd))
  return ⟨root, s.numbered⟩

/-- The one document of a text. -/
def Document.ofText? (text : String) : Option Document := (tokens? text).bind Document.ofTokens?

end SchemaBindings.Yaml
