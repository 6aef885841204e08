/-! Maps from names to values that keep the order in which names first came. -/

namespace SchemaBindings

/-- The entries of a map in order. Names are distinct. -/
abbrev OrderedMap (α : Type) := List (String × α)

namespace OrderedMap

variable {α : Type}

/-- The value under a name. -/
def get? (m : OrderedMap α) (name : String) : Option α := m.lookup name

/-- Whether there is a value under a name. -/
def has (m : OrderedMap α) (name : String) : Bool := (m.get? name).isSome

/-- The names in order. -/
def names (m : OrderedMap α) : List String := m.map (·.1)

/-- Puts a value under a name. A name that is there keeps its place; a new name comes last. -/
def insert : OrderedMap α → String → α → OrderedMap α
  | [], name, v => [(name, v)]
  | (n, old) :: rest, name, v =>
    if n = name then (n, v) :: rest else (n, old) :: insert rest name v

/-- Puts the entries of another map in, one after the other. -/
def insertAll (m new : OrderedMap α) : OrderedMap α :=
  new.foldl (fun acc e => acc.insert e.1 e.2) m

/-- Takes a name out. The last entry moves into the place that becomes free. -/
def remove (m : OrderedMap α) (name : String) : OrderedMap α :=
  match m.findIdx? (·.1 = name), m.getLast? with
  | some i, some last => if i + 1 = m.length then m.dropLast else m.dropLast.set i last
  | _, _ => m

end OrderedMap

end SchemaBindings
