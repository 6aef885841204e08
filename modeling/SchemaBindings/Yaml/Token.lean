/-! The words of a YAML text. Indentation is told by words too: `blockSequence` and `blockMapping`
stand where a collection starts, `blockEnd` where its lines are over. -/

namespace SchemaBindings.Yaml

/-- A tag as it is written: a handle that stands for the start of the tag, and the rest. The handle
of a tag that is written in full is empty. -/
structure TagWord where
  handle : String
  suffix : String
deriving DecidableEq, Repr

/-- A line in front of a document that says how to read it. -/
inductive Directive where
  | version (major minor : Nat)
  | tag (handle start : String)
deriving DecidableEq, Repr

/-- A word. A scalar is plain if it was not quoted. -/
inductive Token where
  | directive (d : Directive)
  | documentStart
  | documentEnd
  | blockSequence
  | blockMapping
  | blockEnd
  | openSequence
  | closeSequence
  | openMapping
  | closeMapping
  | entry
  | comma
  | key
  | value
  | «alias» (name : String)
  | anchor (name : String)
  | tag (t : TagWord)
  | scalar (plain : Bool) (text : String)
deriving DecidableEq, Repr

end SchemaBindings.Yaml
