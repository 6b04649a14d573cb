import ObjectRegistry.Page
import ObjectRegistry.Store.Records

/-!
# Listings

A page of a scope is read along one index: the entries of the scope strictly behind the starting
position, as many as the page holds and one more, each replaced by the record it names. The first
entry whose record is missing or unreadable fails the page, the extra entry included.

The index holds the entries of all scopes of its axis. The scan for a page starts at the first entry
of the scope that the page may show, has no upper bound, and ends at an entry of another scope.
-/

namespace ObjectRegistry.Store

/-- The least entry that a label can have. -/
def leastEntry (label : String) : IndexEntry where
  label
  position := { createTime := Int64.minValue, id := "" }

/-- Whether an entry lies within the bound at which a scan starts: strictly behind the entry of a
position, or from the least entry of the label. -/
def isWithin (label : String) (after : Option Cursor) (e : IndexEntry) : Bool :=
  match after with
  | some position => TableKey.compare { label, position } e == .lt
  | none => TableKey.compare e (leastEntry label) != .lt

/-- The entries of an index under a label strictly behind a position, as a scan upwards finds
them. -/
def scan (index : IndexTable) (label : String) (after : Option Cursor) : List IndexEntry :=
  (index.keys.dropWhile fun e => !isWithin label after e).takeWhile fun e => e.label == label

/-- The resource that an entry names. -/
def follow (resources : ResourceTable) (e : IndexEntry) : Except Error Resource := do
  match ← load resources e.position.id with
  | some r => return r
  | none => throw (.storage (.corrupt (.danglingEntry e.position.id)))

/-- One page of a scope, with exactly the limit asked for. -/
def page (s : Store) (scope : Scope) (after : Option Cursor) (limit : UInt32) :
    Except Error Page :=
  match s.index scope.axis, s.resources with
  | some index, some resources => do
    let entries := (scan index scope.key after).take (limit.toNat + 1)
    return Page.ofRows (← entries.mapM (follow resources)) limit
  | _, _ => throw (.storage .missingTable)

/-- The number of entries of a scope. -/
def scopeSize (s : Store) (scope : Scope) : Nat :=
  match s.index scope.axis with
  | some index => (scan index scope.key none).length
  | none => 0

end ObjectRegistry.Store
