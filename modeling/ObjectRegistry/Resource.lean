import ObjectRegistry.Error

/-!
# Resources

A resource is the record kept about one stored object: the bucket it belongs to, the second it was
created in, the hash of its content and its length. The record is stored under the id of the
resource; with the id it is the resource (`Record.named`, `Resource.record`).
-/

namespace ObjectRegistry

/-- What is stored about an object, without its id. -/
structure Record where
  bucket : String
  /-- Seconds since 1970. -/
  createTime : Int64
  /-- The content hash of the object, not unique. -/
  hash : String
  /-- The length of the object in bytes. -/
  size : Int64
  deriving DecidableEq

/-- An object's record together with its id. -/
structure Resource where
  id : String
  bucket : String
  createTime : Int64
  hash : String
  size : Int64
  deriving DecidableEq

/-- The resource that a record stored under an id describes. -/
def Record.named (record : Record) (id : String) : Resource where
  id
  bucket := record.bucket
  createTime := record.createTime
  hash := record.hash
  size := record.size

namespace Resource

/-- What is stored about a resource under its id. -/
def record (r : Resource) : Record where
  bucket := r.bucket
  createTime := r.createTime
  hash := r.hash
  size := r.size

@[simp] theorem named_record (r : Resource) : r.record.named r.id = r := rfl

@[simp] theorem record_named (record : Record) (id : String) : (record.named id).record = record :=
  rfl

/-- The first fault of a resource that is offered for storing. -/
def fault? (r : Resource) : Option ArgumentFault :=
  if r.id.isEmpty then some .emptyId
  else if r.createTime < 0 then some .negativeCreateTime
  else if r.size < 0 then some .negativeSize
  else none

/-- A resource is refused before any storage is touched if its id is empty or a number negative. -/
def validate (r : Resource) : Except Error Unit :=
  match r.fault? with
  | some fault => .error (.argument fault)
  | none => .ok ()

end Resource

end ObjectRegistry
