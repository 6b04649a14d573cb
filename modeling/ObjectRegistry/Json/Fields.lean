import ObjectRegistry.Json.Skip
import ObjectRegistry.Json.Value
import ObjectRegistry.Text.Numeral

/-!
# Records in JSON

A record type is a list of named fields, each a text or a signed 64-bit number (`Shape`). A text
is read as such a record strictly and from left to right, and the first fault decides: an object
must hold every field once, in any order, and may hold other fields, which are skipped; an array
must hold the fields and nothing else in the order of the shape.

Numbers must be written as integers. A value of the wrong kind is read for its own faults before
it is refused, a bracket where a plain value belongs is refused at once, and a field that comes a
second time is refused at its name.
-/

namespace ObjectRegistry.Json

/-- The kinds of fields. -/
inductive Kind where
  | text
  | integer
  deriving DecidableEq

/-- The fields of a record type. -/
abbrev Shape := List (String × Kind)

/-- The fields of a resource. -/
def Shape.resource : Shape :=
  [("id", .text), ("bucket", .text), ("create_time", .integer), ("hash", .text),
    ("resource_size", .integer)]

/-- The fields of a stored record. -/
def Shape.record : Shape :=
  [("bucket", .text), ("create_time", .integer), ("hash", .text), ("resource_size", .integer)]

/-- The fields of a position. -/
def Shape.cursor : Shape := [("create_time", .integer), ("id", .text)]

/-- The fault of a value that is not of the kind that is wanted. -/
def wrongKind : List Char → Fault
  | [] => .truncated
  | c :: rest =>
    if c = 'n' then faultOf (readWord "ull".toList rest)
    else if c = 't' then faultOf (readWord "rue".toList rest)
    else if c = 'f' then faultOf (readWord "alse".toList rest)
    else if c = '"' then faultOf (readString rest)
    else if c = '-' then faultOf (readNumber true rest)
    else if isDigit c then faultOf (readNumber false (c :: rest))
    else if c = '[' ∨ c = '\x7b' then .mismatched
    else .malformed
where
  /-- The fault of a reading, or that what was read has the wrong kind. -/
  faultOf {α : Type} : Except Fault α → Fault
    | .error fault => fault
    | .ok _ => .mismatched

/-- An integer within the signed 64-bit numbers. -/
def readInteger (negative : Bool) (text : List Char) : Except Fault (Value × List Char) := do
  match ← readNumber negative text with
  | (.integer i, rest) =>
    if Text.Numeral.least64 ≤ i ∧ i ≤ Text.Numeral.greatest64 then return (.integer i, rest)
    else throw .mismatched
  | (.fraction, _) => throw .mismatched

/-- A plain value of some kind. -/
def readPlain (kind : Kind) (text : List Char) : Except Fault (Value × List Char) :=
  let text := skipBlanks text
  match kind, text with
  | .text, '"' :: rest => (readString rest).map fun (s, rest) => (.string s, rest)
  | .integer, '-' :: rest => readInteger true rest
  | .integer, c :: _ => if isDigit c then readInteger false text else .error (wrongKind text)
  | _, _ => .error (wrongKind text)

/-! ## Arrays -/

/-- The fields of an array behind its bracket or behind an item, with the closing bracket. -/
def readItems : Shape → Bool → List Char → Except Fault (List (String × Value) × List Char)
  | [], _, text =>
    match skipBlanks text with
    | [] => .error .truncated
    | ']' :: rest => .ok ([], rest)
    | _ => .error .malformed
  | (name, kind) :: shape, first, text => do
    let rest ← match skipBlanks text with
      | [] => throw .truncated
      | ']' :: _ => throw .mismatched
      | c :: rest =>
        if first then pure (c :: rest)
        else if c = ',' then
          match skipBlanks rest with
          | [] => throw .truncated
          | ']' :: _ => throw .malformed
          | rest => pure rest
        else throw .malformed
    let (value, rest) ← readPlain kind rest
    let (fields, rest) ← readItems shape false rest
    return ((name, value) :: fields, rest)

/-! ## Objects -/

/-- What comes next in an object: its end, or a field, whose name starts behind its quote. -/
inductive NextField where
  | none (rest : List Char)
  | named (rest : List Char)

/-- What comes next in an object, behind its bracket or behind a field. -/
def nextField (first : Bool) (text : List Char) : Except Fault NextField :=
  match skipBlanks text with
  | [] => .error .truncated
  | '\x7d' :: rest => .ok (.none rest)
  | c :: rest =>
    if first then
      if c = '"' then .ok (.named rest) else .error .malformed
    else if c = ',' then
      match skipBlanks rest with
      | [] => .error .truncated
      | '"' :: rest => .ok (.named rest)
      | _ => .error .malformed
    else .error .malformed

/-- The text behind the colon of a field. -/
def readColon (text : List Char) : Except Fault (List Char) :=
  match skipBlanks text with
  | [] => .error .truncated
  | ':' :: rest => .ok rest
  | _ => .error .malformed

/-- The fields of a shape, in its order, out of those that were found. -/
def gather (found : List (String × Value)) : Shape → Except Fault (List (String × Value))
  | [] => .ok []
  | (name, _) :: shape => do
    match found.lookup name with
    | some value => return (name, value) :: (← gather found shape)
    | none => throw .mismatched

/-- The fields of an object behind its bracket or behind a field, with the closing bracket. Every
field takes one or more characters of the text and one step; the first list counts the steps. -/
def readNamed (shape : Shape) :
    List Char → Bool → List (String × Value) → List Char →
      Except Fault (List (String × Value) × List Char)
  | [], _, _, _ => .error .truncated
  | _ :: steps, first, found, text => do
    match ← nextField first text with
    | .none rest => return (← gather found shape, rest)
    | .named rest =>
      let (name, rest) ← readString rest
      match shape.lookup name with
      | none =>
        let rest ← skipValue (← readColon rest)
        readNamed shape steps false found rest
      | some kind =>
        if (found.lookup name).isSome then throw .mismatched
        let (value, rest) ← readPlain kind (← readColon rest)
        readNamed shape steps false ((name, value) :: found) rest

/-! ## Whole texts -/

/-- The fields of a record in the order of its shape, from a whole text. -/
def readShape (shape : Shape) (text : String) : Except Fault (List (String × Value)) := do
  let (fields, rest) ← match skipBlanks text.toList with
    | '[' :: rest => readItems shape true rest
    | '\x7b' :: rest => readNamed shape rest true [] rest
    | other => throw (wrongKind other)
  if (skipBlanks rest).isEmpty then return fields else throw .malformed

/-- A text read as a record and printed without blanks, the fields in the order of the shape. -/
def normalize (shape : Shape) (text : String) : Except Fault String :=
  (readShape shape text).map fun fields => (Value.object fields).compact

end ObjectRegistry.Json
