import ObjectRegistry.Cursor

/-!
# Pages

A listing is read a page at a time. Up to one row more than the page holds is fetched: the extra
row is not shown, it only tells that another page exists, and then the page names the position of
its last item as the place to go on from.
-/

namespace ObjectRegistry

/-- The items of a page when the caller asks for none. -/
def Page.defaultSize : UInt32 := 100

/-- The most items of one page. -/
def Page.greatestSize : UInt32 := 1000

/-- What a caller asks for: a size, 0 for the default, and the position to start behind. -/
structure PageRequest where
  after : Option Cursor
  limit : UInt32
  deriving DecidableEq

/-- The number of items that a request is served with, always within 1 and 1000. -/
def PageRequest.effectiveLimit (request : PageRequest) : UInt32 :=
  if request.limit = 0 then Page.defaultSize
  else if request.limit ≤ Page.greatestSize then request.limit
  else Page.greatestSize

/-- Items in order, and the position to go on from if more follow. -/
structure Page where
  items : List Resource
  next : Option Cursor
  deriving DecidableEq

/-- The page made of up to `limit + 1` rows in order. -/
def Page.ofRows (rows : List Resource) (limit : UInt32) : Page :=
  let items := rows.take limit.toNat
  { items
    next := if limit.toNat < rows.length then items.getLast?.map Resource.position else none }

end ObjectRegistry
