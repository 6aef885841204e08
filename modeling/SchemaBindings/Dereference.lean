import SchemaBindings.DocumentCache
import SchemaBindings.SchemaDocument

/-! Replacing every reference of a schema by a copy of what it leads to. Keywords beside a
reference are kept: they go over those of the target when it is an object, and stand beside it in
an `allOf` otherwise. The targets that are open are kept on a stack; a reference to one of them
would never come to an end and is an error. -/

namespace SchemaBindings

/-- A node of a document. -/
structure Target where
  document : Path
  pointer : Pointer

namespace Target

/-- Whether two targets are the same node. -/
def same (a b : Target) : Bool := a.document.same b.document && a.pointer = b.pointer

/-- The name of the target in a report. -/
def label (a : Target) : String := targetLabel a.document a.pointer.text

end Target

/-- Runs computations in order and keeps their names. -/
def runEntries {m : Type → Type} [Monad m] {α : Type} :
    List (String × m α) → m (OrderedMap α)
  | [] => pure []
  | (name, act) :: rest => do
    let v ← act
    let vs ← runEntries rest
    return (name, v) :: vs

namespace Dereference

/-- How a reference text in a document is replaced. -/
abbrev Follow := String → Path → CacheM Json

/-- Puts the keywords beside a reference over its target. -/
def overlay (target : Json) (siblings : Members) : Json :=
  if siblings.isEmpty then target
  else match target with
    | .object ms => .object (OrderedMap.insertAll ms siblings)
    | other => .object [("allOf", .array [other, .object siblings])]

mutual
/-- Expands a node of a document. -/
def expandNode (follow : Follow) (doc : Path) : Json → CacheM Json
  | .object ms =>
    match OrderedMap.get? ms "$ref" with
    | some (.string reference) => do
      let target ← follow reference doc
      let siblings ← runEntries (OrderedMap.remove (expandMembers follow doc ms) "$ref")
      return overlay target siblings
    | _ => do return .object (← runEntries (expandMembers follow doc ms))
  | .array xs => do return .array (← expandItems follow doc xs)
  | v => pure v

/-- Expands items in order. -/
def expandItems (follow : Follow) (doc : Path) : List Json → CacheM (List Json)
  | [] => pure []
  | x :: xs => do
    let y ← expandNode follow doc x
    let ys ← expandItems follow doc xs
    return y :: ys

/-- How the members of a schema are to be expanded. -/
def expandMembers (follow : Follow) (doc : Path) :
    List (String × Json) → List (String × CacheM Json)
  | [] => []
  | (key, v) :: ms =>
    (key, match childKind key, v with
      | .data, v => pure v
      | .namedSchemas, .object named => do
        return .object (← runEntries (expandNamed follow doc named))
      | _, v => expandNode follow doc v) :: expandMembers follow doc ms

/-- How named schemas are to be expanded. -/
def expandNamed (follow : Follow) (doc : Path) :
    List (String × Json) → List (String × CacheM Json)
  | [] => []
  | (name, v) :: ms => (name, expandNode follow doc v) :: expandNamed follow doc ms
end

/-- Replaces a reference by its expanded target. The stack holds the open targets, the outermost
first; `depth` more of them may be opened. -/
def expandRef (t : FileTree) : (depth : Nat) → (stack : List Target) → Follow
  | 0, _ => fun reference _ => throw (.exhausted reference)
  | depth + 1, stack => fun reference doc => do
    let target ← DocumentCache.resolve.liftExcept (RefTarget.parse reference)
    let (document, node) ← DocumentCache.resolve t reference doc target
    let here : Target := ⟨document, target.pointer⟩
    let loop := stack.dropWhile fun frame => !frame.same here
    if loop.isEmpty then
      let v ← expandNode (expandRef t depth (stack ++ [here])) document node
      return if target.pointer.isRoot then withoutRootKeywords v else v
    else
      throw (.cycle ((loop ++ [here]).map Target.label))

/-- Expands a node with the documents that are known. -/
def expandFrom (t : FileTree) (v : Json) (key : Path) (c : DocumentCache) :
    Except ResolveError Json :=
  ((expandNode (expandRef t (c.allowance t) []) key v).run c).1

end Dereference

/-- Replaces the references of a schema that is in memory. Files are sought from the directory of
`base`; local references lead into the schema itself. -/
def dereferenceValue (t : FileTree) (v : Json) (base : Path) : Except ResolveError Json :=
  let (key, c) := DocumentCache.empty.seed t base v
  Dereference.expandFrom t v key c

/-- Replaces the references of the schema in a file. -/
def dereferenceFile (t : FileTree) (p : Path) : Except ResolveError Json :=
  let key := documentKey t p
  match (DocumentCache.fetch t p.text key).run DocumentCache.empty with
  | (.error e, _) => .error e
  | (.ok v, c) => Dereference.expandFrom t v key c

/-- Replaces the references of a loaded document. -/
def dereferenceDocument (t : FileTree) (d : SchemaDocument) : Except GenerationError Json :=
  (dereferenceValue t d.value d.path).mapError (.unresolved d.fileName)

end SchemaBindings
