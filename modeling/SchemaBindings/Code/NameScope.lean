/-! Handing out names. A name that is taken gets the first number from two on that makes it
free. -/

namespace SchemaBindings.Code

/-- The names that are taken. -/
structure NameScope where
  taken : List String
deriving DecidableEq, Repr

namespace NameScope

/-- No name is taken. -/
def empty : NameScope := ⟨[]⟩

/-- Whether a name is taken. -/
def contains (s : NameScope) (name : String) : Bool := s.taken.contains name

/-- Takes a name. -/
def reserve (s : NameScope) (name : String) : NameScope := ⟨name :: s.taken⟩

/-- A name with a number. -/
def numbered (name : String) (n : Nat) : String := name ++ toString n

/-- The first number from `n` on that makes a name free; `tries` numbers are tried. -/
def firstFree (s : NameScope) (name : String) : (tries n : Nat) → Nat
  | 0, n => n
  | tries + 1, n =>
    if s.contains (numbered name n) then firstFree s name tries (n + 1) else n

/-- A free name for a candidate. As many numbers as there are taken names cannot all be taken. -/
def freshName (s : NameScope) (candidate : String) : String :=
  if s.contains candidate then numbered candidate (s.firstFree candidate s.taken.length 2)
  else candidate

/-- Takes a free name for a candidate. -/
def claim (s : NameScope) (candidate : String) : String × NameScope :=
  let name := s.freshName candidate
  (name, s.reserve name)

/-- Takes free names for several candidates in order. -/
def claimAll (s : NameScope) : List String → List String × NameScope
  | [] => ([], s)
  | candidate :: rest =>
    let (name, s) := s.claim candidate
    let (names, s) := s.claimAll rest
    (name :: names, s)

end NameScope

end SchemaBindings.Code
