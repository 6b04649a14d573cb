import ObjectRegistry.Json.Value
import ObjectRegistry.Page
import ObjectRegistry.Backing
import ObjectRegistry.Store.Counters

/-!
# Replies

What a command answers, and how it is printed: as JSON over several lines with a line break at the
end. A resource that is a reply of its own, alone or in a list, has its fields in the order of their
declaration; everything in an object of several parts has its fields in the order of their names.
-/

namespace ObjectRegistry

/-- The version of the program. -/
def version : String := "0.1.0"

/-- The name of the program. -/
def programName : String := "resource-registry"

/-- What a command answers. -/
inductive Reply where
  | migrated (backend : Backend)
  | healthy
  | block (name : String) (block : Block)
  | counter (name : String) (value : Option Int64)
  | ids (ids : List String)
  | registered (resource : Resource) (reused : Bool)
  | created (resource : Resource)
  | found (id : String) (resource : Option Resource)
  | matching (resources : List Resource)
  | page (page : Page)
  | deleted (id : String) (resource : Option Resource)
  | purged (resources : List Resource)

namespace Reply

/-- The value that a reply is printed as. -/
def json : Reply → Json.Value
  | .migrated backend =>
    Json.sorted [("backend", .string backend.name), ("migrated", .boolean true)]
  | .healthy => Json.sorted [("status", .string "healthy"), ("version", .string version)]
  | .block name b =>
    Json.sorted [("name", .string name), ("first", Json.int64 b.first),
      ("last", Json.int64 b.last)]
  | .counter name value =>
    Json.sorted [("name", .string name), ("value", Json.orNull Json.int64 value)]
  | .ids texts => .array (texts.map .string)
  | .registered resource reused =>
    Json.sorted [("reused", .boolean reused), ("resource", Json.sortedResource resource)]
  | .created resource => Json.resource resource
  | .found id resource =>
    Json.sorted [("id", .string id), ("resource", Json.orNull Json.sortedResource resource)]
  | .matching resources => .array (resources.map Json.resource)
  | .page p =>
    Json.sorted [("items", .array (p.items.map Json.sortedResource)),
      ("next", Json.orNull (fun cursor : Cursor => .string cursor.encode) p.next)]
  | .deleted id resource =>
    Json.sorted [("id", .string id), ("deleted", Json.orNull Json.sortedResource resource)]
  | .purged resources =>
    Json.sorted [("count", .integer resources.length),
      ("purged", .array (resources.map Json.sortedResource))]

/-- A reply as it is printed. -/
def text (reply : Reply) : String :=
  reply.json.pretty ++ "\n"

end Reply

end ObjectRegistry
