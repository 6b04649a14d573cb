import ObjectRegistry.Resource
import ObjectRegistry.Table.Key
import ObjectRegistry.Text.Hex
import ObjectRegistry.Text.Numeral
import ObjectRegistry.Text.Utf8

/-!
# Positions in a listing

Resources are listed by creation time, and by id among those of one second, ids in the order of
their bytes. A cursor is a position in that order: a page starts strictly behind it.

Outside the program a cursor travels as an opaque token, the hexadecimal spelling of
`<time>:<id>`. The time is numeric, so the first colon ends it whatever the id holds. A token that
spells no such text is refused.
-/

namespace ObjectRegistry

/-- A position in the order of creation times and ids. -/
structure Cursor where
  createTime : Int64
  id : String
  deriving DecidableEq

/-- The position of a resource. -/
def Resource.position (r : Resource) : Cursor where
  createTime := r.createTime
  id := r.id

namespace Cursor

/-- Earlier times come first, and lesser ids among equal times. -/
instance : TableKey Cursor :=
  TableKey.lex Cursor.createTime Cursor.id fun {x y} time id => by cases x; cases y; simp_all

/-- Whether a position comes strictly behind another. -/
def isAfter (x y : Cursor) : Bool :=
  TableKey.compare y x == .lt

/-- The text that a token spells. -/
def text (c : Cursor) : String :=
  Text.Numeral.ofInt64 c.createTime ++ ":" ++ c.id

/-- The token of a position. -/
def encode (c : Cursor) : String :=
  Text.Hex.encode (Text.bytes c.text)

/-- The position that a text `<time>:<id>` denotes; the id must not be empty. -/
def ofText? (text : String) : Option Cursor := do
  let time := text.toList.takeWhile (· != ':')
  match text.toList.dropWhile (· != ':') with
  | _ :: c :: id =>
    return { createTime := ← Text.Numeral.int64? time, id := String.ofList (c :: id) }
  | _ => none

/-- The position that a token denotes. -/
def decode? (token : String) : Option Cursor := do
  let bytes ← Text.Hex.decode? token
  let text ← Text.ofBytes? bytes
  ofText? text

/-- The position that a token denotes; any other text is refused as an argument. -/
def decode (token : String) : Except Error Cursor :=
  match decode? token with
  | some cursor => .ok cursor
  | none => .error (.argument .malformedToken)

end Cursor

end ObjectRegistry
