import SchemaBindings.FileTree

/-! Disks on which more can happen than in a tree. A name may be a symbolic link, which spells a path
to go on with, or a further name of a file that has another one already. And every call can fail for
reasons that lie outside the tree: there is no room left, a permission is missing, a device breaks. A
write that fails may have begun by then, and has put a beginning of the text in the place of what the
file held. What is not here are files that are neither directories nor bytes, and other programs. -/

namespace SchemaBindings

/-- What befalls a call. A write may be broken off when some bytes are written; other calls do not
begin. -/
inductive Fault where
  | refused (cause : DiskError)
  | brokenOff (kept : Nat) (cause : DiskError)
deriving DecidableEq, Repr

/-- What the call is told. -/
def Fault.cause : Fault → DiskError
  | .refused cause => cause
  | .brokenOff _ cause => cause

/-- What a file holds when so many bytes of a text are in it. -/
def Content.upTo (kept : Nat) (s : String) : Content :=
  .ofBytes ((Text.Utf8.encode s).take kept)

/-- A tree of directories and files, the names in it that are links, each with the path that it
spells, the further names of files, each with the place where the file is, and what befalls the calls
to come. -/
structure Volume where
  tree : FileTree
  links : List (Place × Path)
  names : List (Place × Place)
  faults : List (Option Fault)

/-- Where pieces of a path lead: to a place, or to a link, from which other pieces lead on. -/
inductive Lead where
  | place (next : Place)
  | link (start : Place) (ahead : List (List Char))

/-- The place in the end, with what to do at a link. -/
def Lead.follow (onward : Place → List (List Char) → Except DiskError Place) :
    Lead → Except DiskError Place
  | .place next => .ok next
  | .link start ahead => onward start ahead

namespace Volume

/-- A tree without links, on which no call fails but for what it asks. -/
def ofTree (t : FileTree) : Volume := ⟨t, [], [], []⟩

/-! ## Paths -/

/-- How many links one path may lead through. -/
def linkLimit : Nat := 40

/-- The place of a name in a directory. -/
def below (dir : Place) (piece : List Char) : Place := dir ++ [.text (String.ofList piece)]

/-- The place of the file that has a name, which is the name's own place as a rule. -/
def homeOf (v : Volume) (p : Place) : Place := (v.names.lookup p).getD p

/-- Goes one piece of a path further. Only a directory can be gone on from. -/
def step (v : Volume) (mayMiss : Bool) (here : Place) (piece : List Char) : Except DiskError Lead :=
  if !v.tree.isDirectoryAt here then .error .notDirectory
  else if Path.isIdle piece then .ok (.place here)
  else if piece = ['.', '.'] then .ok (.place here.dropLast)
  else if FileTree.isTooLong piece then .error .nameTooLong
  else match v.links.lookup (below here piece) with
    | some target => .ok (.link (if target.isAbsolute then [] else here) target.pieces)
    | none =>
      let next := v.homeOf (below here piece)
      if (v.tree.entry? next).isSome || mayMiss then .ok (.place next) else .error .notFound

/-- Goes along pieces to the end or to the next link. With `mayMiss` there need be nothing yet under
the last name. -/
def stretch (v : Volume) (mayMiss : Bool) : Place → List (List Char) → Except DiskError Lead
  | here, [] => .ok (.place here)
  | here, piece :: rest =>
    match v.step (mayMiss && rest.isEmpty) here piece with
    | .error cause => .error cause
    | .ok (.place next) => v.stretch mayMiss next rest
    | .ok (.link start ahead) => .ok (.link start (ahead ++ rest))

/-- Goes along pieces and through so many links. -/
def walk (v : Volume) (mayMiss : Bool) :
    (links : Nat) → Place → List (List Char) → Except DiskError Place
  | 0, here, pieces => v.stretch mayMiss here pieces >>= Lead.follow fun _ _ => .error .tooManyLinks
  | links + 1, here, pieces => v.stretch mayMiss here pieces >>= Lead.follow (v.walk mayMiss links)

/-- The place that a path leads to, or would lead to if there need be nothing under its last name. -/
def reach (v : Volume) (mayMiss : Bool) (p : Path) : Except DiskError Place :=
  if FileTree.hasNul p then .error .nulInPath
  else if p.text.isEmpty then .error .notFound
  else v.walk mayMiss linkLimit (v.tree.startOf p) p.pieces

/-- The place of the entry that a path leads to. -/
def resolve (v : Volume) (p : Path) : Except DiskError Place := v.reach false p

/-- What the file holds that has a name. -/
def file? (v : Volume) (p : Place) : Option Content :=
  match v.tree.entry? (v.homeOf p) with
  | some (.file c) => some c
  | _ => none

/-- What the file holds that a path leads to. -/
def content? (v : Volume) (p : Path) : Option Content :=
  match v.resolve p with
  | .ok place =>
    match v.tree.entry? place with
    | some (.file c) => some c
    | _ => none
  | .error _ => none

/-- Splits a path at its last piece; slashes at the end do not count. The directory that is to
hold the last piece has to be there. -/
def lastStep (v : Volume) (p : Path) : Except DiskError (Place × List Char) :=
  if FileTree.hasNul p then .error .nulInPath
  else if p.text.isEmpty then .error .notFound
  else
    match p.pieces.reverse.dropWhile (·.isEmpty) with
    | [] => .ok ([], [])
    | last :: before =>
      match v.walk false linkLimit (v.tree.startOf p) before.reverse with
      | .error cause => .error cause
      | .ok dir => if v.tree.isDirectoryAt dir then .ok (dir, last) else .error .notDirectory

/-! ## Calls -/

/-- What befalls the next call. -/
def fault? (v : Volume) : Option Fault := v.faults.head?.join

/-- The volume once a call is over that has changed nothing. -/
def served (v : Volume) : Volume := { v with faults := v.faults.tail }

/-- The volume once a call is over that has put an entry at a place. -/
def putting (v : Volume) (p : Place) (e : Entry) : Volume :=
  { v.served with tree := v.tree.put p e }

/-- Whether a name is taken, be it by a link. -/
def isTaken (v : Volume) (p : Place) : Bool :=
  (v.links.lookup p).isSome || (v.names.lookup p).isSome || (v.tree.entry? p).isSome

/-- Where a directory is to be made. The last name is not followed if it is a link. -/
def placeForDirectory (v : Volume) (p : Path) : Except DiskError Place :=
  match v.lastStep p with
  | .error cause => .error cause
  | .ok (dir, last) =>
    if Path.isIdle last || last = ['.', '.'] then .error .alreadyExists
    else if FileTree.isTooLong last then .error .nameTooLong
    else if v.isTaken (below dir last) then .error .alreadyExists
    else .ok (below dir last)

/-- Where a file is to be written. Links are followed to the end, also one that leads to nothing
yet. -/
def placeForFile (v : Volume) (p : Path) : Except DiskError Place :=
  match v.lastStep p with
  | .error cause => .error cause
  | .ok (_, last) =>
    if Path.isIdle last || last = ['.', '.'] || FileTree.endsInSlash p then .error .isDirectory
    else match v.reach true p with
      | .error cause => .error cause
      | .ok place => if v.tree.isDirectoryAt place then .error .isDirectory else .ok place

/-- Makes a directory in one that is there. -/
def makeDirectory (v : Volume) (p : Path) : Volume × Except DiskError Unit :=
  match v.fault?, v.placeForDirectory p with
  | some fault, _ => (v.served, .error fault.cause)
  | none, .error cause => (v.served, .error cause)
  | none, .ok place => (v.putting place .directory, .ok ())

/-- Whether a path leads to a directory, as far as the disk tells. -/
def isDirectory (v : Volume) (p : Path) : Volume × Bool :=
  match v.fault?, v.resolve p with
  | none, .ok place => (v.served, v.tree.isDirectoryAt place)
  | _, _ => (v.served, false)

/-- Writes a file in a directory that is there, over the one that may be there. -/
def writeText (v : Volume) (p : Path) (s : String) : Volume × Except DiskError Unit :=
  match v.fault?, v.placeForFile p with
  | some (.refused cause), _ => (v.served, .error cause)
  | _, .error cause => (v.served, .error cause)
  | some (.brokenOff kept cause), .ok place =>
    (v.putting place (.file (.upTo kept s)), .error cause)
  | none, .ok place => (v.putting place (.file (.text s)), .ok ())

instance : Disk Volume := ⟨makeDirectory, isDirectory, writeText⟩

end Volume

end SchemaBindings
