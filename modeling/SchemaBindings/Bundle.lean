import SchemaBindings.Dereference

/-! Putting schemas together into one document. Every schema stands under `$defs`, and references
lead to where their targets stand in the bundle. A file that is no member is copied in at the first
reference to it; its place is noted before it is gone through, so that all other references to it,
its own ones too, lead there. -/

namespace SchemaBindings

/-- A schema of a bundle. -/
structure BundleMember where
  key : String
  fileName : String
deriving DecidableEq, Repr

namespace BundleMember

/-- The member that a schema file becomes. -/
def ofFile (fileName : String) : BundleMember := ⟨schemaStem fileName, fileName⟩

/-- The name of the member's type. -/
def canonicalName (m : BundleMember) : String := canonicalOfStem m.key

/-- Where the member stands in the bundle. -/
def location (m : BundleMember) : Pointer := Pointer.root.child "$defs" |>.child m.key

/-- The member as a reference within the bundle. -/
def reference (m : BundleMember) : String := m.location.fragment

end BundleMember

/-- Several schemas in one document. -/
structure Bundle where
  document : Json
  members : List BundleMember

namespace Bundle

/-- The schemas under `$defs`. -/
def definitions? (b : Bundle) : Option Members :=
  b.document.members?.bind fun ms => (ms.get? "$defs").bind Json.members?

/-- The schema of a member. -/
def schema? (b : Bundle) (key : String) : Option Json :=
  b.definitions?.bind fun ms => OrderedMap.get? ms key

/-- How many members there are. -/
def size (b : Bundle) : Nat := b.members.length

/-- Whether there are no members. -/
def isEmpty (b : Bundle) : Bool := b.members.isEmpty

/-- The dialect of every bundle. -/
def dialect : String := "https://json-schema.org/draft/2020-12/schema"

/-- A node of a document and where it stands in the bundle. -/
structure Site where
  document : Path
  pointer : Pointer
  location : Pointer

/-- The documents that are known and the nodes that have a place, the latest first. -/
structure State where
  cache : DocumentCache
  sites : List Site

/-- A step of bundling. -/
abbrev BundleM := ExceptT ResolveError (StateM State)

/-- Runs a computation on the known documents. -/
def withCache {α : Type} (act : CacheM α) : BundleM α := do
  let s ← get
  let (result, cache) := act.run s.cache
  set { s with cache := cache }
  match result with
  | .ok a => return a
  | .error e => throw e

/-- Where a node itself was placed. -/
def placeOf? (sites : List Site) (doc : Path) (p : Pointer) : Option Pointer :=
  (sites.find? fun s => s.document.same doc && s.pointer = p).map (·.location)

/-- Where a node stands, given its tokens from the last one on: where it or its nearest placed
ancestor is. `below` holds the tokens that were taken off. -/
def siteFrom? (sites : List Site) (doc : Path) (below : List String) :
    List String → Option Pointer
  | [] => (placeOf? sites doc .root).map (·.append below)
  | token :: above =>
    match placeOf? sites doc ⟨(token :: above).reverse⟩ with
    | some location => some (location.append below)
    | none => siteFrom? sites doc (token :: below) above

/-- Where a node stands, if it or an ancestor has a place. -/
def site? (sites : List Site) (doc : Path) (p : Pointer) : Option Pointer :=
  siteFrom? sites doc [] p.tokens.reverse

/-- What becomes of a reference: it leads to a place, or the target is copied in. -/
inductive Outcome where
  | placed (location : Pointer)
  | copied (content : Json)

/-- How a reference text in a document is treated; a copy of its target is to stand at a place. -/
abbrev Follow := String → Path → Pointer → BundleM Outcome

/-- The two arms that a copy with keywords beside it is given. -/
def arm (here : Pointer) (index : Nat) : Pointer := (here.child "allOf").item index

/-- Replaces the computation under a name. -/
def substitute {α : Type} (acts : List (String × α)) (name : String) (act : α) :
    List (String × α) :=
  acts.map fun a => if a.1 = name then (name, act) else a

mutual
/-- A node of a document as it stands at a place of the bundle: references in it lead to where
their targets stand. -/
def relocateNode (follow : Follow) (doc : Path) (here : Pointer) : Json → BundleM Json
  | .object ms =>
    match OrderedMap.get? ms "$ref" with
    | some (.string reference) => do
      let alone := ms.length = 1
      match ← follow reference doc (if alone then here else arm here 0) with
      | .placed location =>
        let acts := relocateMembers follow doc here ms
        return .object (← runEntries (substitute acts "$ref" (pure (.string location.fragment))))
      | .copied v =>
        if alone then return v
        let siblings ← runEntries
          (OrderedMap.remove (relocateMembers follow doc (arm here 1) ms) "$ref")
        return .object [("allOf", .array [v, .object siblings])]
    | _ => do return .object (← runEntries (relocateMembers follow doc here ms))
  | .array xs => do return .array (← relocateItems follow doc here 0 xs)
  | v => pure v

/-- Items as they stand in the bundle; the first has the given index. -/
def relocateItems (follow : Follow) (doc : Path) (here : Pointer) (index : Nat) :
    List Json → BundleM (List Json)
  | [] => pure []
  | x :: xs => do
    let y ← relocateNode follow doc (here.item index) x
    let ys ← relocateItems follow doc here (index + 1) xs
    return y :: ys

/-- How the members of a schema come to stand in the bundle. -/
def relocateMembers (follow : Follow) (doc : Path) (here : Pointer) :
    List (String × Json) → List (String × BundleM Json)
  | [] => []
  | (key, v) :: ms =>
    (key, match childKind key, v with
      | .data, v => pure v
      | .namedSchemas, .object named => do
        return .object (← runEntries (relocateNamed follow doc (here.child key) named))
      | _, v => relocateNode follow doc (here.child key) v) :: relocateMembers follow doc here ms

/-- How named schemas come to stand in the bundle. -/
def relocateNamed (follow : Follow) (doc : Path) (here : Pointer) :
    List (String × Json) → List (String × BundleM Json)
  | [] => []
  | (name, v) :: ms =>
    (name, relocateNode follow doc (here.child name) v) :: relocateNamed follow doc here ms
end

/-- Treats a reference. `depth` more targets may be opened. -/
def followRef (t : FileTree) : (depth : Nat) → Follow
  | 0 => fun reference _ _ => throw (.exhausted reference)
  | depth + 1 => fun reference doc spot => do
    let target ← withCache (DocumentCache.resolve.liftExcept (RefTarget.parse reference))
    let document ← match target.file? with
      | none => pure doc
      | some file =>
        withCache do
          let p ← DocumentCache.resolve.liftExcept
            (DocumentCache.locate t (← get) reference doc file)
          return documentKey t p
    match site? (← get).sites document target.pointer with
    | some location => return .placed location
    | none =>
      let (_, node) ← withCache (DocumentCache.resolve t reference doc target)
      let node := if target.pointer.isRoot then withoutRootKeywords node else node
      modify fun s => { s with sites := ⟨document, target.pointer, spot⟩ :: s.sites }
      return .copied (← relocateNode (followRef t depth) document spot node)

/-- A schema file that takes part in a bundle. -/
structure Part where
  source : SchemaDocument
  member : BundleMember
  document : Path

/-- Makes a document known and gives it its place. -/
def enter (t : FileTree) (s : State) (d : SchemaDocument) : Part × State :=
  let member := BundleMember.ofFile d.fileName
  let (key, cache) := s.cache.seed t d.path d.value
  (⟨d, member, key⟩, ⟨cache, ⟨key, .root, member.location⟩ :: s.sites⟩)

/-- Makes documents known in order. -/
def enterAll (t : FileTree) (s : State) : List SchemaDocument → List Part × State
  | [] => ([], s)
  | d :: ds =>
    let (part, s) := enter t s d
    let (parts, s) := enterAll t s ds
    (part :: parts, s)

/-- The parts as they stand in the bundle, and the state behind them; a failure is put on the file
that it arose in. -/
def relocateParts (t : FileTree) (depth : Nat) (s : State) :
    List Part → Except GenerationError (Members × State)
  | [] => .ok ([], s)
  | part :: parts =>
    let act := relocateNode (followRef t depth) part.document part.member.location
      (withoutRootKeywords part.source.value)
    match act.run s with
    | (.error e, _) => .error (.unresolved part.source.fileName e)
    | (.ok v, s) =>
      match relocateParts t depth s parts with
      | .error e => .error e
      | .ok (vs, s) => .ok ((part.member.key, v) :: vs, s)

/-- Sorts documents by their file names. -/
def sortDocuments (ds : List SchemaDocument) : List SchemaDocument :=
  ds.mergeSort fun a b => decide (a.fileName ≤ b.fileName)

/-- A bundle, and the nodes that were given a place in it. -/
structure Assembly where
  bundle : Bundle
  sites : List Site

/-- The document of a bundle with some definitions. -/
def documentOf (definitions : Members) : Json :=
  .object [("$schema", .string dialect), ("$defs", .object (OrderedMap.insertAll [] definitions))]

/-- Bundles loaded documents, in the order of their file names. -/
def assemble (t : FileTree) (ds : List SchemaDocument) : Except GenerationError Assembly :=
  let (parts, s) := enterAll t ⟨.empty, []⟩ (sortDocuments ds)
  match relocateParts t (s.cache.allowance t) s parts with
  | .error e => .error e
  | .ok (definitions, s) => .ok ⟨⟨documentOf definitions, parts.map (·.member)⟩, s.sites⟩

/-- The bundle of loaded documents. -/
def ofDocuments (t : FileTree) (ds : List SchemaDocument) : Except GenerationError Bundle :=
  (assemble t ds).map (·.bundle)

/-- Bundles the schemas of a directory. -/
def ofDirectory (t : FileTree) (dir : Path) : Except GenerationError Bundle :=
  match loadSchemas t dir [] with
  | .error e => .error e
  | .ok ds => ofDocuments t ds

end Bundle

end SchemaBindings
