import ObjectRegistry.Resource

/-!
# JSON values and their text

Values are printed in two ways: without any blanks, or with one item to a line and two blanks for
every level, where an empty array or object stays on one line. The fields of an object are printed
in the order they are held in; `Value.sorted` puts them in the order of their names.

In a string the quote, the backslash and the control characters below the blank are escaped, those
with a short form by it; every other character stands for itself.
-/

namespace ObjectRegistry.Json

/-- The JSON values that the registry prints. -/
inductive Value where
  | null
  | boolean (b : Bool)
  | integer (i : Int)
  | string (s : String)
  | array (items : List Value)
  | object (fields : List (String × Value))

/-- A character as it stands inside a string. -/
def escape (c : Char) : List Char :=
  if c = '"' then ['\\', '"']
  else if c = '\\' then ['\\', '\\']
  else if c.toNat = 8 then ['\\', 'b']
  else if c.toNat = 9 then ['\\', 't']
  else if c.toNat = 10 then ['\\', 'n']
  else if c.toNat = 12 then ['\\', 'f']
  else if c.toNat = 13 then ['\\', 'r']
  else if c.toNat < 32 then
    ['\\', 'u', '0', '0', hexDigit (c.toNat / 16), hexDigit (c.toNat % 16)]
  else [c]
where
  /-- The lower-case hexadecimal digit of a number below sixteen. -/
  hexDigit (n : Nat) : Char := if n < 10 then Char.ofNat (48 + n) else Char.ofNat (87 + n)

/-- A string in quotes. -/
def quote (s : String) : String :=
  "\"" ++ String.ofList (s.toList.flatMap escape) ++ "\""

/-- The integer of a signed 64-bit number. -/
def int64 (n : Int64) : Value := .integer n.toInt

/-- A value or null. -/
def orNull (f : α → Value) : Option α → Value
  | some a => f a
  | none => .null

/-- An object with its fields in the order of their names. -/
def sorted (fields : List (String × Value)) : Value :=
  .object (fields.mergeSort fun x y => String.compare x.1 y.1 != .gt)

mutual

/-- A value without blanks, behind some text. -/
def Value.compactAfter (front : String) : Value → String
  | .null => front ++ "null"
  | .boolean true => front ++ "true"
  | .boolean false => front ++ "false"
  | .integer i => front ++ toString i
  | .string s => front ++ quote s
  | .array [] => front ++ "[]"
  | .array (v :: rest) => compactItems (v.compactAfter (front ++ "[")) rest ++ "]"
  | .object [] => front ++ "\x7b\x7d"
  | .object ((name, v) :: rest) =>
    compactFields (v.compactAfter (front ++ "\x7b" ++ quote name ++ ":")) rest ++ "\x7d"

/-- Further items of an array without blanks. -/
def compactItems (front : String) : List Value → String
  | [] => front
  | v :: rest => compactItems (v.compactAfter (front ++ ",")) rest

/-- Further fields of an object without blanks. -/
def compactFields (front : String) : List (String × Value) → String
  | [] => front
  | (name, v) :: rest =>
    compactFields (v.compactAfter (front ++ "," ++ quote name ++ ":")) rest

end

/-- A value without blanks. -/
def Value.compact (v : Value) : String := v.compactAfter ""

/-- A line break and the blanks in front of a line at some level. -/
def newLine (level : Nat) : String :=
  "\n" ++ String.ofList (List.replicate (2 * level) ' ')

mutual

/-- A value over several lines, at some level and behind some text. -/
def Value.indentedAfter (level : Nat) (front : String) : Value → String
  | .null => front ++ "null"
  | .boolean true => front ++ "true"
  | .boolean false => front ++ "false"
  | .integer i => front ++ toString i
  | .string s => front ++ quote s
  | .array [] => front ++ "[]"
  | .array (v :: rest) =>
    indentedItems (level + 1)
      (v.indentedAfter (level + 1) (front ++ "[" ++ newLine (level + 1))) rest ++
        newLine level ++ "]"
  | .object [] => front ++ "\x7b\x7d"
  | .object ((name, v) :: rest) =>
    indentedFields (level + 1)
      (v.indentedAfter (level + 1)
        (front ++ "\x7b" ++ newLine (level + 1) ++ quote name ++ ": ")) rest ++
        newLine level ++ "\x7d"

/-- Further items of an array, a line each. -/
def indentedItems (level : Nat) (front : String) : List Value → String
  | [] => front
  | v :: rest =>
    indentedItems level (v.indentedAfter level (front ++ "," ++ newLine level)) rest

/-- Further fields of an object, a line each. -/
def indentedFields (level : Nat) (front : String) : List (String × Value) → String
  | [] => front
  | (name, v) :: rest =>
    indentedFields level
      (v.indentedAfter level (front ++ "," ++ newLine level ++ quote name ++ ": ")) rest

end

/-- A value over several lines. -/
def Value.pretty (v : Value) : String := v.indentedAfter 0 ""

/-- The fields of a resource in the order of their declaration. -/
def resourceFields (r : Resource) : List (String × Value) :=
  [("id", .string r.id), ("bucket", .string r.bucket), ("create_time", int64 r.createTime),
    ("hash", .string r.hash), ("resource_size", int64 r.size)]

/-- A resource with its fields in the order of their declaration. -/
def resource (r : Resource) : Value := .object (resourceFields r)

/-- A resource with its fields in the order of their names. -/
def sortedResource (r : Resource) : Value := sorted (resourceFields r)

end ObjectRegistry.Json
