import SchemaBindings.Disk
import SchemaBindings.Text.Utf8

/-! A file system as a value: directories and files under one root, and the working directory from
which relative paths start. The operations answer, and fail, the way a disk does that has nothing but
these, room for everything and no reason to forbid anything. So there are no links and no permissions,
no length is limited but that of a name, and a file is written as a whole or left alone. What writing
does on disks where this is otherwise is told with `Volume`. -/

namespace SchemaBindings

/-- The name of an entry; on a disk it need not be text. -/
inductive EntryName where
  | text (s : String)
  | bytes (bs : List UInt8)
deriving DecidableEq, Repr

/-- The name that some bytes spell. -/
def EntryName.ofBytes (bs : List UInt8) : EntryName :=
  match Text.Utf8.strict? bs with
  | some s => .text s
  | none => .bytes bs

/-- What is in a file: a text, or bytes that are no text. -/
inductive Content where
  | text (s : String)
  | bytes (bs : List UInt8)
deriving DecidableEq, Repr

/-- The content that some bytes make. -/
def Content.ofBytes (bs : List UInt8) : Content :=
  match Text.Utf8.strict? bs with
  | some s => .text s
  | none => .bytes bs

/-- An entry of a directory. -/
inductive Entry where
  | directory
  | file (content : Content)
deriving DecidableEq, Repr

/-- Where an entry is: the names from the root down to it. -/
abbrev Place := List EntryName

/-- The path text of a place. -/
def Place.path (p : Place) : Path :=
  ⟨"/" ++ "/".intercalate (p.map fun
    | .text s => s
    | .bytes bs => Text.Utf8.lossy bs)⟩

/-- The entries of a disk by place, and the place from which relative paths start. -/
structure FileTree where
  entries : List (Place × Entry)
  workingPlace : Place

namespace FileTree

/-- The entry at a place. The root is a directory. -/
def entry? (t : FileTree) (p : Place) : Option Entry :=
  if p = [] then some .directory else t.entries.lookup p

/-- Whether there is a directory at a place. -/
def isDirectoryAt (t : FileTree) (p : Place) : Bool := t.entry? p = some .directory

/-- Puts an entry at a place. -/
def put (t : FileTree) (p : Place) (e : Entry) : FileTree :=
  if (t.entry? p).isSome then
    { t with entries := t.entries.map fun old => if old.1 = p then (p, e) else old }
  else { t with entries := t.entries ++ [(p, e)] }

/-- Puts an entry at a place and makes the directories above it that are missing. -/
def plant (t : FileTree) (p : Place) (e : Entry) : FileTree :=
  let above := (List.range p.length).map fun n => p.take n
  let t := above.foldl (fun t dir => if (t.entry? dir).isSome then t else t.put dir .directory) t
  t.put p e

/-- How long a name may be, in bytes. -/
def nameLimit : Nat := 255

/-- Whether a name is longer than a disk allows. -/
def isTooLong (piece : List Char) : Bool :=
  nameLimit < (String.ofList piece).utf8ByteSize

/-- Goes one piece of a path further. Only a directory can be gone on from. -/
def step (t : FileTree) (here : Place) (piece : List Char) : Except DiskError Place :=
  if !t.isDirectoryAt here then .error .notDirectory
  else if Path.isIdle piece then .ok here
  else if piece = ['.', '.'] then .ok here.dropLast
  else if isTooLong piece then .error .nameTooLong
  else
    let next := here ++ [.text (String.ofList piece)]
    if (t.entry? next).isSome then .ok next else .error .notFound

/-- Goes several pieces further. -/
def walk (t : FileTree) (start : Place) (pieces : List (List Char)) : Except DiskError Place :=
  pieces.foldlM t.step start

/-- Where a path starts. -/
def startOf (t : FileTree) (p : Path) : Place :=
  if p.isAbsolute then [] else t.workingPlace

/-- Whether a path holds a character that no file name can hold. -/
def hasNul (p : Path) : Bool := p.text.toList.contains '\x00'

/-- The place of the entry that a path leads to. -/
def resolve (t : FileTree) (p : Path) : Except DiskError Place :=
  if hasNul p then .error .nulInPath
  else if p.text.isEmpty then .error .notFound
  else t.walk (t.startOf p) p.pieces

/-- The one spelling of a path to an entry that has neither dots nor a relative start. -/
def canonical? (t : FileTree) (p : Path) : Option Path :=
  match t.resolve p with
  | .ok place => some place.path
  | .error _ => none

/-- The entry that a path leads to. -/
def find? (t : FileTree) (p : Path) : Option Entry :=
  match t.resolve p with
  | .ok place => t.entry? place
  | .error _ => none

/-- Whether a path leads to a directory. -/
def isDirectory (t : FileTree) (p : Path) : Bool := t.find? p = some .directory

/-- The text of the file that a path leads to. -/
def readText (t : FileTree) (p : Path) : Except DiskError String :=
  match t.resolve p with
  | .error e => .error e
  | .ok place =>
    match t.entry? place with
    | some (.file (.text s)) => .ok s
    | some (.file (.bytes _)) => .error .notText
    | some .directory => .error .isDirectory
    | none => .error .notFound

/-- The name of an entry that lies right below a place. -/
def nameBelow? (dir place : Place) : Option EntryName :=
  match place.getLast? with
  | some name => if place.dropLast = dir then some name else none
  | none => none

/-- The entries of the directory that a path leads to, with their names. -/
def list (t : FileTree) (p : Path) : Except DiskError (List (EntryName × Entry)) :=
  match t.resolve p with
  | .error e => .error e
  | .ok place =>
    if t.isDirectoryAt place then
      .ok (t.entries.filterMap fun e => (nameBelow? place e.1).map fun name => (name, e.2))
    else .error .notDirectory

/-- Splits a path at its last piece; slashes at the end do not count. The directory that is to
hold the last piece has to be there. -/
def lastStep (t : FileTree) (p : Path) : Except DiskError (Place × List Char) :=
  if hasNul p then .error .nulInPath
  else if p.text.isEmpty then .error .notFound
  else
    match p.pieces.reverse.dropWhile (·.isEmpty) with
    | [] => .ok ([], [])
    | last :: before =>
      match t.walk (t.startOf p) before.reverse with
      | .error e => .error e
      | .ok dir => if t.isDirectoryAt dir then .ok (dir, last) else .error .notDirectory

/-- Makes a directory in one that is there. -/
def makeDirectory (t : FileTree) (p : Path) : Except DiskError FileTree :=
  match t.lastStep p with
  | .error e => .error e
  | .ok (dir, last) =>
    if Path.isIdle last || last = ['.', '.'] then .error .alreadyExists
    else if isTooLong last then .error .nameTooLong
    else
      let place := dir ++ [.text (String.ofList last)]
      if (t.entry? place).isSome then .error .alreadyExists else .ok (t.put place .directory)

/-- Whether a path ends in a slash, so that only a directory can be meant. -/
def endsInSlash (p : Path) : Bool := p.text.toList.getLast? = some '/'

/-- Writes a file in a directory that is there, over the one that may be there. -/
def writeText (t : FileTree) (p : Path) (s : String) : Except DiskError FileTree :=
  match t.lastStep p with
  | .error e => .error e
  | .ok (dir, last) =>
    if Path.isIdle last || last = ['.', '.'] || endsInSlash p then .error .isDirectory
    else if isTooLong last then .error .nameTooLong
    else
      let place := dir ++ [.text (String.ofList last)]
      if t.isDirectoryAt place then .error .isDirectory
      else .ok (t.put place (.file (.text s)))

/-- The tree that a call leaves, which is the same one when the call fails. -/
def after (t : FileTree) (made : Except DiskError FileTree) : FileTree × Except DiskError Unit :=
  match made with
  | .ok t => (t, .ok ())
  | .error cause => (t, .error cause)

instance : Disk FileTree where
  makeDirectory t p := t.after (t.makeDirectory p)
  isDirectory t p := (t, t.isDirectory p)
  writeText t p s := t.after (t.writeText p s)

end FileTree

end SchemaBindings
