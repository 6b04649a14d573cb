import ObjectRegistry.Resource.Bytes
import ObjectRegistry.Store.Draft

/-!
# Raw edits

Edits of single tables past every check, as a tool for repair (or for damage) makes them: they
keep no table in step with another.
-/

namespace ObjectRegistry.Store

/-- Puts any bytes under an id. -/
def putBytes (id : String) (bytes : List UInt8) : Draft (Ending Unit) := do
  Draft.putResources ((← Draft.openResources).insert id bytes)
  return .keep ()

/-- Takes the bytes under an id away. -/
def dropBytes (id : String) : Draft (Ending Unit) := do
  Draft.putResources ((← Draft.openResources).erase id)
  return .keep ()

/-- Adds an entry to an index. -/
def putEntry (axis : Axis) (entry : IndexEntry) : Draft (Ending Unit) := do
  Draft.putIndex axis ((← Draft.openIndex axis).insert entry ())
  return .keep ()

/-- Takes a whole table away. -/
def dropTable (name : TableName) : Draft (Ending Unit) := do
  modify fun s =>
    match name with
    | .sequences => { s with sequences := none }
    | .resources => { s with resources := none }
    | .byHash => { s with byHash := none }
    | .byBucket => { s with byBucket := none }
  return .keep ()

end ObjectRegistry.Store
