import SchemaBindings.CommandLine.Program

/-! The program on a disk. What it may need to know of the disk is looked at first, then it runs as
a function, and what changed in between is written. -/

namespace SchemaBindings.Disk

/-- The place that a path leads to from a place, by its spelling alone. -/
def placeFrom (start : Place) (p : Path) : Place :=
  p.pieces.foldl (fun (here : Place) piece =>
    if Path.isIdle piece then here
    else if piece = ['.', '.'] then here.dropLast
    else here ++ [.text (String.ofList piece)]) (if p.isAbsolute then [] else start)

/-- The entry at a place of the disk. -/
def entryAt (place : Place) : IO (Option Entry) := do
  try
    let path ← IO.FS.realPath place.path.text
    if ← path.isDir then return some .directory
    else return some (.file (.ofBytes (← IO.FS.readBinFile path).toList))
  catch _ => return none

/-- Looks at a place. -/
def lookAt (t : FileTree) (place : Place) : IO FileTree := do
  match ← entryAt place with
  | some e => return t.plant place e
  | none => return t

/-- Looks at everything that a path passes, and at what it leads to. -/
def lookAlong (t : FileTree) (p : Path) : IO FileTree := do
  let steps := (List.range (p.pieces.length + 1)).map fun n =>
    placeFrom (t.startOf p) ⟨"/".intercalate ((p.pieces.take n).map String.ofList)⟩
  (steps ++ [placeFrom (t.startOf p) p]).foldlM lookAt t

/-- The places right below a place. -/
def placesBelow (place : Place) : IO (List Place) := do
  try
    let path ← IO.FS.realPath place.path.text
    return (← path.readDir).toList.map fun e => place ++ [.text e.fileName]
  catch _ => return []

/-- Looks at a place and everything below it, some levels deep. -/
def lookBelow (t : FileTree) (place : Place) : (levels : Nat) → IO FileTree
  | 0 => return t
  | levels + 1 => do
    (← placesBelow place).foldlM (fun t below => do lookBelow (← lookAt t below) below levels) t

/-- How deep the directories of a written package are nested. -/
def packageDepth : Nat := 4

/-- Looks at the files that references lead to, until there is none left to look at. -/
partial def lookAtReferences (t : FileTree) (o : GenerateOptions) : IO FileTree := do
  match Plan.ofOptions t o with
  | .error (.unresolved _ (.missingFile _ p)) =>
    let seen ← lookAlong t p
    if seen.entries.length = t.entries.length then return t else lookAtReferences seen o
  | _ => return t

/-- Looks at what a run takes and at what it may write over. -/
def lookAtRun (t : FileTree) (o : GenerateOptions) : IO FileTree := do
  let t ← lookAlong t o.schemasDir
  let t ← lookBelow t (placeFrom (t.startOf o.schemasDir) o.schemasDir) 1
  let t ← lookAlong t o.outputDir
  let t ← lookBelow t (placeFrom (t.startOf o.outputDir) o.outputDir) packageDepth
  lookAtReferences t o

/-- Looks at what arguments name. -/
def lookAtArguments (t : FileTree) (arguments : List String) : IO FileTree := do
  match CommandLine.readArguments arguments with
  | .error _ => return t
  | .ok i =>
    let t ← match i.globals.config with
      | some p => lookAlong t p
      | none => pure t
    match (CommandLine.settingsOf t i.globals).toOption.map i.request.resolve with
    | some (.ok o) => lookAtRun t o
    | _ => return t

/-- Writes what changed. -/
def write (before after : FileTree) : IO Unit :=
  after.entries.forM fun (place, e) => do
    if before.entry? place ≠ some e then
      match e with
      | .directory => IO.FS.createDirAll place.path.text
      | .file (.text s) => IO.FS.writeFile place.path.text s
      | .file (.bytes bs) => IO.FS.writeBinFile place.path.text ⟨bs.toArray⟩

/-- Prints a line. -/
def print : CommandLine.OutputLine → IO Unit
  | .text s => IO.println s
  | .log level s => IO.println (level.name ++ " " ++ s)

end SchemaBindings.Disk

open SchemaBindings in
def main (arguments : List String) : IO UInt32 := do
  let here := Disk.placeFrom [] ⟨(← IO.currentDir).toString⟩
  let t ← Disk.lookAtArguments ((FileTree.mk [] here).plant here .directory) arguments
  let outcome := CommandLine.run t arguments
  Disk.write t outcome.disk
  outcome.output.forM Disk.print
  if let some e := outcome.complaint then IO.eprintln ("error: " ++ e.message)
  return outcome.exit.toUInt32
