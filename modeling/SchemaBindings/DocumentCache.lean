import SchemaBindings.Reference

/-! The documents of a run. A document is read from disk once; documents that are in memory from
the start are put in under their paths and are never read. -/

namespace SchemaBindings

/-- The documents that are known so far, by the steps of their paths. -/
structure DocumentCache where
  documents : List (List PathStep × Json)

/-- A computation that looks documents up and may read some. What was read stays known when it
fails. -/
abbrev CacheM := ExceptT ResolveError (StateM DocumentCache)

/-- The one path of a document: without dots and from the root if the file is there. -/
def documentKey (t : FileTree) (p : Path) : Path := (t.canonical? p).getD p

/-- Reads a file as a JSON document. -/
def readDocument (t : FileTree) (p : Path) : Except DocumentError Json :=
  match t.readText p with
  | .error e => .error (.disk e)
  | .ok text =>
    match Json.read text with
    | .error e => .error (.syntaxError e)
    | .ok v => .ok v

/-- A short name for a node of a document. -/
def targetLabel (key : Path) (pointer : String) : String :=
  key.fileName?.getD "" ++ "#" ++ pointer

namespace DocumentCache

/-- No document is known. -/
def empty : DocumentCache := ⟨[]⟩

/-- The document at a path. -/
def find? (c : DocumentCache) (p : Path) : Option Json := c.documents.lookup p.steps

/-- Makes a document known at a path. -/
def put (c : DocumentCache) (p : Path) (v : Json) : DocumentCache :=
  ⟨(p.steps, v) :: c.documents⟩

/-- Puts a document in under the one path of its file. -/
def seed (t : FileTree) (c : DocumentCache) (p : Path) (v : Json) : Path × DocumentCache :=
  let key := documentKey t p
  (key, c.put key v)

/-- Finds the file that a reference in a document names: on disk, or among the known ones. -/
def locate (t : FileTree) (c : DocumentCache) (reference : String) (referrer : Path)
    (file : String) : Except ResolveError Path :=
  let joined := referrer.directory.join file
  match t.canonical? joined with
  | some p => .ok p
  | none =>
    if (c.find? joined).isSome then .ok joined else .error (.missingFile reference joined)

/-- The document at a path, read if it is not known. -/
def fetch (t : FileTree) (reference : String) (key : Path) : CacheM Json := do
  match (← get).find? key with
  | some v => return v
  | none =>
    match readDocument t key with
    | .error cause => throw (.unreadableFile reference key cause)
    | .ok v =>
      modify (·.put key v)
      return v

/-- The document and the node that a reference in a document leads to. -/
def resolve (t : FileTree) (reference : String) (referrer : Path) (target : RefTarget) :
    CacheM (Path × Json) := do
  let key ← match target.file? with
    | none => pure referrer
    | some file => liftExcept (locate t (← get) reference referrer file)
  let document ← fetch t reference key
  match document.at? target.pointer with
  | some node => return (key, node)
  | none => throw (.pointerNotFound reference target.pointer.text)
where
  liftExcept {α : Type} : Except ResolveError α → CacheM α
    | .ok a => pure a
    | .error e => throw e

/-- The documents that are known or could be read. -/
def inReach (t : FileTree) (c : DocumentCache) : List Json :=
  c.documents.map (·.2) ++ t.entries.filterMap fun e =>
    match e.2 with
    | .file (.text s) => (Json.read s).toOption
    | _ => none

/-- How many references can be open at once when no two of them lead to the same node: one for
each reference text in reach, and one more that finds the last. -/
def allowance (t : FileTree) (c : DocumentCache) : Nat :=
  (inReach t c).foldl (fun n v => n + referenceCount v) 1

end DocumentCache

end SchemaBindings
