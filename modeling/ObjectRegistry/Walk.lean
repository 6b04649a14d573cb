import ObjectRegistry.Registry

/-!
# Walks

A walk reads a whole scope page by page and remembers where it is. Each step fetches one page;
after the last one the walk is over until it is started again. Resources written or removed
meanwhile may or may not be seen.

A step goes on from the position of the last resource of its page. Where an index disagrees with
the records it names, that position may lie before the entry it was read from, and then a walk
can run in a circle. A walk that repeats a position repeats it forever, and there are no more
positions to go on from than entries in the scope; so a walk that is not over after one page for
each entry and two more never will be, and reading it to the end is given up (`bound`).
-/

namespace ObjectRegistry

/-- A walk over a scope. -/
structure Walk where
  scope : Scope
  /-- The items of a page, 0 for the default. -/
  pageSize : UInt32
  /-- The position behind which the next page starts. -/
  after : Option Cursor
  finished : Bool
  deriving DecidableEq

namespace Walk

/-- A walk that has not begun. -/
def along (scope : Scope) (pageSize : UInt32) : Walk where
  scope
  pageSize
  after := none
  finished := false

/-- The same walk with pages of another size from here on. -/
def resize (w : Walk) (pageSize : UInt32) : Walk := { w with pageSize }

/-- The walk back at its start. -/
def restart (w : Walk) : Walk := { w with after := none, finished := false }

/-- The next page, if the walk is not over. The walk moves behind the page, unless the page cannot
be had. -/
def nextPage : Method Walk (Option (List Resource)) := do
  let w ← Method.self
  if w.finished then return none
  let page ← Registry.page w.scope { after := w.after, limit := w.pageSize }
  Method.change fun w => { w with finished := page.next.isNone }
  Method.change fun w => { w with after := page.next }
  return if page.items.isEmpty then none else some page.items

/-- The next page and the walk behind it, for a walk that nobody keeps behind a failure. -/
def next (w : Walk) : Access (Option (List Resource) × Walk) := nextPage.of w

/-- Visits pages until `pick` finds something on one or the walk is over, at most `fuel` pages. -/
def search (pick : List Resource → Option α) : Nat → Walk → Access (Option α)
  | 0, _ => throw (.storage .endlessWalk)
  | fuel + 1, w => do
    match ← w.next with
    | (none, _) => return none
    | (some items, behind) =>
      match pick items with
      | some found => return some found
      | none => search pick fuel behind

/-- Every remaining resource in front of those collected, at most `fuel` pages. -/
def collectFrom : Nat → List Resource → Walk → Access (List Resource)
  | 0, _, _ => throw (.storage .endlessWalk)
  | fuel + 1, collected, w => do
    match ← w.next with
    | (none, _) => return collected
    | (some items, behind) => collectFrom fuel (collected ++ items) behind

/-- A number of pages that no walk exceeds and ends. -/
def bound (w : Walk) : Access Nat := fun backing =>
  match backing with
  | .embedded store => (.ok (store.scopeSize w.scope + 2), backing)
  | .unreachable => (.ok 1, backing)

/-- Every remaining resource. -/
def collect (w : Walk) : Access (List Resource) := do
  collectFrom (← w.bound) [] w

end Walk

namespace Registry

/-- The earliest resource of a bucket with a content hash. -/
def findDuplicate (bucket hash : String) : Access (Option Resource) := do
  let walk := Walk.along ⟨.hash, hash⟩ 0
  Walk.search (fun items => items.find? fun r => r.bucket == bucket) (← walk.bound) walk

end Registry

end ObjectRegistry
