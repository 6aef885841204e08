import SchemaBindings.Path

/-! What a program asks of a disk when it writes, whatever the disk is. Every call answers with the
disk that it leaves, also when it fails, so that nothing has to be assumed of a call that failed. -/

namespace SchemaBindings

/-- Why a file operation fails. `refused` stands for every reason that does not lie in what is asked
for, as a full disk or a missing permission, in the words and with the number of the system. -/
inductive DiskError where
  | notFound
  | alreadyExists
  | notDirectory
  | isDirectory
  | nameTooLong
  | tooManyLinks
  | notText
  | nulInPath
  | refused (phrase : String) (code : Nat)
deriving DecidableEq, Repr

/-- The reason as a phrase. -/
def DiskError.message : DiskError → String
  | .notFound => "No such file or directory (os error 2)"
  | .alreadyExists => "File exists (os error 17)"
  | .notDirectory => "Not a directory (os error 20)"
  | .isDirectory => "Is a directory (os error 21)"
  | .nameTooLong => "File name too long (os error 36)"
  | .tooManyLinks => "Too many levels of symbolic links (os error 40)"
  | .notText => "stream did not contain valid UTF-8"
  | .nulInPath => "file name contained an unexpected NUL byte"
  | .refused phrase code => phrase ++ " (os error " ++ toString code ++ ")"

/-- The calls that a program writes with. -/
class Disk (δ : Type) where
  /-- Makes a directory in one that is there. -/
  makeDirectory : δ → Path → δ × Except DiskError Unit
  /-- Whether a path leads to a directory, as far as the disk tells. -/
  isDirectory : δ → Path → δ × Bool
  /-- Writes a file in a directory that is there, over the one that may be there. -/
  writeText : δ → Path → String → δ × Except DiskError Unit

namespace Disk

variable {δ : Type} [Disk δ]

/-- Lets it pass that a directory could not be made if there is one. -/
def passIfThere (d : δ) (p : Path) (cause : DiskError) : δ × Except DiskError Unit :=
  match isDirectory d p with
  | (d, true) => (d, .ok ())
  | (d, false) => (d, .error cause)

/-- Makes a directory unless it is there. -/
def ensureDirectory (d : δ) (p : Path) : δ × Except DiskError Unit :=
  match makeDirectory d p with
  | (d, .ok ()) => (d, .ok ())
  | (d, .error cause) => passIfThere d p cause

/-- Makes a directory and those above it. What was made before a failure stays. -/
def makeDirectories : (levels : Nat) → δ → Path → δ × Except DiskError Unit
  | 0, d, _ => (d, .error .notFound)
  | levels + 1, d, p =>
    if p.text.isEmpty then (d, .ok ())
    else match makeDirectory d p with
      | (d, .ok ()) => (d, .ok ())
      | (d, .error .notFound) =>
        match p.parent? with
        | none => (d, .error .notFound)
        | some above =>
          match makeDirectories levels d above with
          | (d, .error cause) => (d, .error cause)
          | (d, .ok ()) => ensureDirectory d p
      | (d, .error cause) => passIfThere d p cause

/-- Makes sure that a directory is there. -/
def ensureDirectories (d : δ) (p : Path) : δ × Except DiskError Unit :=
  makeDirectories (p.steps.length + 1) d p

end Disk

end SchemaBindings
