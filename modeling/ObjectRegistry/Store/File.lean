import ObjectRegistry.Store
import ObjectRegistry.Text.Hex
import ObjectRegistry.Text.Numeral
import ObjectRegistry.Text.Split
import ObjectRegistry.Text.Utf8

/-!
# The file of a store

A store is kept in a file of lines. The first line is a heading that no other file starts with;
every further line is a row, which either says that a table exists or holds one binding of a table.
A row is a few words with a blank between each two: the kind of row first, then texts and bytes in
hexadecimal and numbers in decimal, so no word holds a blank or a line break.
-/

namespace ObjectRegistry

namespace TableName

/-- The word for a table. -/
def word : TableName → List Char
  | .sequences => "sequences".toList
  | .resources => "resources".toList
  | .byHash => "by-hash".toList
  | .byBucket => "by-bucket".toList

/-- The table that a word stands for. -/
def ofWord? (word : List Char) : Option TableName :=
  [sequences, resources, byHash, byBucket].find? fun name => name.word == word

end TableName

namespace Axis

/-- The word for an axis. -/
def word : Axis → List Char
  | .hash => "hash".toList
  | .bucket => "bucket".toList

/-- The axis that a word stands for. -/
def ofWord? (word : List Char) : Option Axis :=
  [hash, bucket].find? fun axis => axis.word == word

end Axis

/-- A row of the file of a store. -/
inductive StoreRow where
  | table (name : TableName)
  | counter (name : String) (value : Int64)
  | record (id : String) (bytes : List UInt8)
  | entry (axis : Axis) (entry : IndexEntry)
  deriving DecidableEq

namespace StoreRow

/-- A text as one word. -/
def textWord (text : String) : List Char :=
  Text.Hex.digits (Text.bytes text)

/-- The text that a word stands for. -/
def ofTextWord? (word : List Char) : Option String := do
  Text.ofBytes? (← Text.Hex.ofDigits? word)

/-- A number as one word. -/
def numberWord (n : Int64) : List Char :=
  (Text.Numeral.ofInt64 n).toList

/-- The words of a row. -/
def words : StoreRow → List (List Char)
  | .table name => ["table".toList, name.word]
  | .counter name value => ["counter".toList, textWord name, numberWord value]
  | .record id bytes => ["record".toList, textWord id, Text.Hex.digits bytes]
  | .entry axis e =>
    ["entry".toList, axis.word, textWord e.label, numberWord e.position.createTime,
      textWord e.position.id]

/-- The row that words spell. -/
def ofWords? : List (List Char) → Option StoreRow
  | [kind, word] =>
    if kind = "table".toList then (TableName.ofWord? word).map .table else none
  | [kind, first, second] =>
    if kind = "counter".toList then do
      return .counter (← ofTextWord? first) (← Text.Numeral.int64? second)
    else if kind = "record".toList then do
      return .record (← ofTextWord? first) (← Text.Hex.ofDigits? second)
    else none
  | [kind, axis, label, time, id] =>
    if kind = "entry".toList then do
      let position := { createTime := ← Text.Numeral.int64? time, id := ← ofTextWord? id }
      return .entry (← Axis.ofWord? axis) { label := ← ofTextWord? label, position }
    else none
  | _ => none

end StoreRow

namespace Store

/-- The rows of a store. -/
def rows (s : Store) : List StoreRow :=
  (match s.sequences with
    | some table => .table .sequences :: table.toList.map fun b => .counter b.1 b.2
    | none => []) ++
  (match s.resources with
    | some table => .table .resources :: table.toList.map fun b => .record b.1 b.2
    | none => []) ++
  (match s.byHash with
    | some table => .table .byHash :: table.keys.map (.entry .hash)
    | none => []) ++
  (match s.byBucket with
    | some table => .table .byBucket :: table.keys.map (.entry .bucket)
    | none => [])

/-- The store with what a row says. -/
def addRow (s : Store) : StoreRow → Store
  | .table .sequences => { s with sequences := some (s.sequences.getD .empty) }
  | .table .resources => { s with resources := some (s.resources.getD .empty) }
  | .table .byHash => { s with byHash := some (s.byHash.getD .empty) }
  | .table .byBucket => { s with byBucket := some (s.byBucket.getD .empty) }
  | .counter name value =>
    { s with sequences := some ((s.sequences.getD .empty).insert name value) }
  | .record id bytes => { s with resources := some ((s.resources.getD .empty).insert id bytes) }
  | .entry .hash e => { s with byHash := some ((s.byHash.getD .empty).insert e ()) }
  | .entry .bucket e => { s with byBucket := some ((s.byBucket.getD .empty).insert e ()) }

/-- The store that rows describe. -/
def ofRows (rows : List StoreRow) : Store :=
  rows.foldl addRow blank

/-- The first line of the file. -/
def heading : List Char := "tables of an object registry".toList

/-- The lines of the file; the last one is empty, so every other line is ended. -/
def lines (s : Store) : List (List Char) :=
  heading :: (s.rows.map fun row => Text.join ' ' row.words) ++ [[]]

/-- The store in lines. -/
def ofLines? : List (List Char) → Option Store
  | first :: rest =>
    if first = heading ∧ rest.getLast? = some [] then
      (rest.dropLast.mapM fun line => StoreRow.ofWords? (Text.split ' ' line)).map ofRows
    else none
  | [] => none

/-- The content of the file. -/
def file (s : Store) : ByteArray :=
  (String.ofList (Text.join '\n' s.lines)).toUTF8

/-- The store in a file. A file without content is that of a store that was just created. -/
def ofFile? (content : ByteArray) : Option Store :=
  if content.isEmpty then some blank
  else (String.fromUTF8? content).bind fun text => ofLines? (Text.split '\n' text.toList)

end Store

end ObjectRegistry
