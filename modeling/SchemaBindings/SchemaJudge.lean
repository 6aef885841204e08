import SchemaBindings.MetaSchema
import SchemaBindings.ReferenceReach

/-! Who decides which schemas are good enough to be embedded in a parser. -/

namespace SchemaBindings

/-- A judge of schemas: what is a schema at all, and what a validator can be made for. -/
structure SchemaJudge where
  admits : Json → Bool
  compiles : Json → Bool

/-- Whether a value is a schema of the dialect that it says it is in. -/
def admitsDocument (v : Json) : Bool := (Dialect.ofDocument? v).any (·.admits v)

/-- A validator can be made for a schema of its dialect whose references all lead somewhere. -/
def SchemaJudge.standard : SchemaJudge where
  admits := admitsDocument
  compiles v := admitsDocument v && ReferenceReach.isClosed v

end SchemaBindings
