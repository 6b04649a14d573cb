import ObjectRegistry.Backing
import ObjectRegistry.Store.Counters
import ObjectRegistry.Store.Listing

/-!
# The registry of resources

Records are written once: a resource comes into being with `create`, and ends with `delete` or
`purge`. Everything else looks. What a call is given is checked before the storage is touched.
-/

namespace ObjectRegistry.Registry

/-- Records a new resource. An id that is taken is refused and its record stays as it is. -/
def create (r : Resource) : Access Resource := do
  Access.check r.validate
  Access.write (Store.insert r)
  return r

/-- The resource with an id. -/
def get (id : String) : Access (Option Resource) :=
  Access.read fun store => store.find id

/-- Removes the resource with an id and answers it. -/
def delete (id : String) : Access (Option Resource) :=
  Access.write (Store.remove id)

/-- Removes every resource created at or before a second and answers them in order. -/
def purge (cutoff : Int64) : Access (List Resource) :=
  Access.write (Store.purge cutoff)

/-- One page of a scope. -/
def page (scope : Scope) (request : PageRequest) : Access Page :=
  Access.read fun store => store.page scope request.after request.effectiveLimit

/-- Whether the storage answers. -/
def health : Access Unit :=
  Access.read Store.health

end ObjectRegistry.Registry
