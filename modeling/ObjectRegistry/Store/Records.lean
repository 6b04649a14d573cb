import ObjectRegistry.Resource.Bytes
import ObjectRegistry.Store.Draft

/-!
# Records

A record is written once under its id and listed in both indexes; it is removed together with its
entries. The entries to remove are computed from the stored bytes, so a record whose bytes cannot
be read cannot be removed either.
-/

namespace ObjectRegistry

/-- The entry that lists a resource on an axis. -/
def Resource.entry (r : Resource) (axis : Axis) : IndexEntry where
  label := r.record.label axis
  position := r.position

namespace Store

/-- The resource whose record is stored in some bytes. -/
def readRecord (id : String) (bytes : List UInt8) : Except Error Resource :=
  match Record.decode bytes with
  | .ok record => .ok (record.named id)
  | .error fault => .error (.storage (.unreadable fault))

/-- The resource stored under an id. -/
def load (resources : ResourceTable) (id : String) : Except Error (Option Resource) :=
  match resources.get? id with
  | none => .ok none
  | some bytes => (readRecord id bytes).map some

/-- The resource with an id. -/
def find (s : Store) (id : String) : Except Error (Option Resource) :=
  match s.resources with
  | none => .error (.storage .missingTable)
  | some resources => load resources id

/-- Lists a resource on an axis. -/
def addEntry (r : Resource) (axis : Axis) : Draft Unit := do
  let index ← Draft.openIndex axis
  Draft.putIndex axis (index.insert (r.entry axis) ())

/-- Takes a resource off an axis. -/
def dropEntry (r : Resource) (axis : Axis) : Draft Unit := do
  let index ← Draft.openIndex axis
  Draft.putIndex axis (index.erase (r.entry axis))

/-- Stores a new resource; one whose id is taken is refused. -/
def insert (r : Resource) : Draft (Ending Unit) := do
  if ¬ r.record.Holdable then Draft.fail .unwritable
  let resources ← Draft.openResources
  if resources.contains r.id then throw (.duplicateId r.id)
  Draft.putResources (resources.insert r.id r.record.encode)
  addEntry r .hash
  addEntry r .bucket
  return .keep ()

/-- Removes the resource with an id. If there is none, nothing is kept. -/
def remove (id : String) : Draft (Ending (Option Resource)) := do
  let resources ← Draft.openResources
  match resources.get? id with
  | none => return .discard none
  | some bytes =>
    let r ← (readRecord id bytes : Except Error Resource)
    Draft.putResources (resources.erase id)
    dropEntry r .hash
    dropEntry r .bucket
    return .keep (some r)

/-- Resources in the order of their positions. -/
def inOrder (rs : List Resource) : List Resource :=
  rs.mergeSort fun x y => TableKey.compare x.position y.position != .gt

/-- Removes every resource created at or before a second, and answers them in order. -/
def purge (cutoff : Int64) : Draft (Ending (List Resource)) := do
  let resources ← Draft.openResources
  let all ← (resources.toList.mapM fun b => readRecord b.1 b.2 : Except Error (List Resource))
  let old := all.filter fun r => r.createTime ≤ cutoff
  Draft.putResources (old.foldl (fun table r => table.erase r.id) resources)
  old.forM fun r => do
    dropEntry r .hash
    dropEntry r .bucket
  return .keep (inOrder old)

end Store

end ObjectRegistry
