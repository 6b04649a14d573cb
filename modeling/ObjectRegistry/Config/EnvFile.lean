import ObjectRegistry.Config
import ObjectRegistry.Text.Letter

/-!
# Environment files

An environment file assigns values to variables, one `NAME=value` to a line, with blanks around
name and value, an optional `export`, comments behind `#`, and quotes: between single quotes every
character stands for itself; elsewhere a backslash takes the meaning from the next character, and
`$NAME` stands for the value of a variable. A quote that is open at the end of a line, a backslash
or a blank there, makes the assignment go on on the next line.

A variable keeps the value it already has, so the first assignment wins. Loading stops without a
word at the first line that cannot be read; what was assigned before it stays assigned.
-/

namespace ObjectRegistry.EnvFile

/-! ## Lines -/

/-- Where a scan for the end of an assignment is. -/
inductive Scan where
  | plain
  | blank
  | escape
  | doubleQuote
  | doubleEscape
  | singleQuote
  | singleEscape
  deriving DecidableEq

/-- The scan behind one more character, or none where a comment begins. -/
def Scan.step (scan : Scan) (c : Char) : Option Scan :=
  match scan with
  | .blank =>
    if c = '#' then none
    else if c = '\\' then some .escape
    else if c = '"' then some .doubleQuote
    else if c = '\'' then some .singleQuote
    else some .plain
  | .escape => some .plain
  | .plain =>
    if Text.isBlank c ∧ c ≠ '\n' ∧ c ≠ '\r' then some .blank
    else if c = '\\' then some .escape
    else if c = '"' then some .doubleQuote
    else if c = '\'' then some .singleQuote
    else some .plain
  | .doubleQuote =>
    if c = '\\' then some .doubleEscape
    else if c = '"' then some .plain
    else some .doubleQuote
  | .doubleEscape => some .doubleQuote
  | .singleQuote =>
    if c = '\\' then some .singleEscape
    else if c = '\'' then some .plain
    else some .singleQuote
  | .singleEscape => some .singleQuote

/-- What a scan of a line finds. -/
inductive ScanEnd where
  /-- A comment, and the text in front of it. -/
  | comment (front : List Char)
  | unended (scan : Scan)

/-- Scans a line, of which `front` has been scanned and is held in reverse. -/
def scanLine (scan : Scan) (front : List Char) : List Char → ScanEnd
  | [] => .unended scan
  | c :: rest =>
    match scan.step c with
    | none => .comment front.reverse
    | some scan => scanLine scan (c :: front) rest

/-- A line without the line break it ends in, out of its characters in reverse. -/
def chomp : List Char → List Char
  | '\n' :: '\r' :: front => front.reverse
  | '\n' :: front => front.reverse
  | front => front.reverse

/-- Bytes cut behind every line break; `front` is the line so far, in reverse. -/
def splitLines (front : List UInt8) : List UInt8 → List (List UInt8)
  | [] => if front.isEmpty then [] else [front.reverse]
  | b :: rest =>
    if b = 10 then (b :: front).reverse :: splitLines [] rest else splitLines (b :: front) rest

/-! ## Values -/

/-- The quotes around a character. -/
inductive Quotes where
  | bare
  | single
  | double
  deriving DecidableEq

/-- What the characters before have left open. -/
inductive Pending where
  | nothing
  /-- A backslash. -/
  | escape
  /-- A dollar sign and a name, in reverse, which may stand in braces. -/
  | reference (name : List Char) (braced : Bool)
  /-- A blank that ended the value; only blanks and a comment may follow. -/
  | ended

/-- Where the reader of a value is. -/
structure ValueState where
  /-- What was read, in reverse. -/
  output : List Char
  quotes : Quotes
  pending : Pending

/-- The start of a value. -/
def ValueState.start : ValueState where
  output := []
  quotes := .bare
  pending := .nothing

/-- The value of a variable: from the environment, or else as assigned earlier in the file. -/
def valueOf (environment assigned : Environment) (name : String) : String :=
  match environment.valueOf? name with
  | some value => value
  | none => (assigned.get? name).getD ""

namespace ValueState

/-- One more character of output. -/
def push (s : ValueState) (c : Char) : ValueState :=
  { s with output := c :: s.output, pending := .nothing }

/-- The output with the value of a name, which is in reverse. -/
def substitute (s : ValueState) (environment assigned : Environment) (name : List Char) :
    ValueState :=
  let value := valueOf environment assigned (String.ofList name.reverse)
  { s with output := value.toList.reverse ++ s.output, pending := .nothing }

/-- Behind a dollar sign. -/
def refer (s : ValueState) (name : List Char) (braced : Bool) : ValueState :=
  { s with pending := .reference name braced }

/-- One character outside single quotes with nothing left open. -/
def plainStep (s : ValueState) (c : Char) : ValueState :=
  if c = '$' then s.refer [] false
  else if c = '\\' then { s with pending := .escape }
  else if c = '"' then
    { s with quotes := if s.quotes = .double then .bare else .double }
  else if s.quotes = .double then s.push c
  else if c = '\'' then { s with quotes := .single }
  else if c = ' ' ∨ c = '\t' then { s with pending := .ended }
  else s.push c

/-- One character inside a name. -/
def referenceStep (environment assigned : Environment) (s : ValueState) (name : List Char)
    (braced : Bool) (c : Char) : ValueState :=
  if Text.isAlphanumeric c then s.refer (c :: name) braced
  else if braced then
    if c = '\x7d' then s.substitute environment assigned name else s.refer (c :: name) true
  else if c = '\x7b' ∧ name.isEmpty then s.refer [] true
  else
    let s := s.substitute environment assigned name
    if c = '$' then s.refer [] false else s.push c

/-- The character that an escape stands for. -/
def escaped? (c : Char) : Option Char :=
  if c = '\\' ∨ c = '\'' ∨ c = '"' ∨ c = '$' ∨ c = ' ' then some c
  else if c = 'n' then some '\n'
  else none

/-- One character of a value, or none if it cannot stand there. -/
def step (environment assigned : Environment) (s : ValueState) (c : Char) : Option ValueState :=
  match s.pending with
  | .escape => (escaped? c).map s.push
  | .ended => if c = ' ' ∨ c = '\t' then some s else none
  | .reference name braced => some (referenceStep environment assigned s name braced c)
  | .nothing =>
    if s.quotes = .single then
      some (if c = '\'' then { s with quotes := .bare } else s.push c)
    else some (s.plainStep c)

/-- The value at its end, or none if a quote or a brace is open there. -/
def finish (environment assigned : Environment) (s : ValueState) : Option String :=
  if s.quotes = .bare then
    match s.pending with
    | .reference _ true => none
    | .reference name false =>
      some (String.ofList (s.substitute environment assigned name).output.reverse)
    | _ => some (String.ofList s.output.reverse)
  else none

end ValueState

/-- A value behind what was read of it. -/
def readValueFrom (environment assigned : Environment) (s : ValueState) :
    List Char → Option String
  | [] => s.finish environment assigned
  | c :: rest =>
    match s.pending, c with
    | .ended, '#' => s.finish environment assigned
    | _, _ => do readValueFrom environment assigned (← s.step environment assigned c) rest

/-! ## Assignments -/

/-- An assignment; without a value, later lines do not see it as assigned. -/
structure Assignment where
  name : String
  value : Option String

/-- A name, which starts with a letter or an underscore, and the text behind it. -/
def readName : List Char → Option (List Char × List Char)
  | [] => none
  | c :: rest =>
    if Char.isAlpha c ∨ c = '_' then
      let more := fun c => Char.isAlphanum c || c == '_' || c == '.'
      some (c :: rest.takeWhile more, rest.dropWhile more)
    else none

/-- The text behind an equals sign. -/
def readEquals : List Char → Option (List Char)
  | '=' :: rest => some rest
  | _ => none

/-- The name that a line assigns to, and the text behind the equals sign. The word `export` may
stand in front of the name, and is a name itself where an equals sign follows. -/
def readTarget (line : List Char) : Option (String × List Char) := do
  let (name, rest) ← readName line
  let rest := Text.trimStart rest
  match readEquals rest with
  | some rest => return (String.ofList name, rest)
  | none =>
    if name = "export".toList then
      let (name, rest) ← readName rest
      return (String.ofList name, ← readEquals (Text.trimStart rest))
    else none

/-- The assignment of a line, if it holds one; none if the line cannot be read. -/
def readLine (environment assigned : Environment) (line : List Char) :
    Option (Option Assignment) :=
  match Text.trimStart (Text.trimEnd line) with
  | [] => some none
  | '#' :: _ => some none
  | text => do
    let (name, rest) ← readTarget text
    match Text.trimStart rest with
    | [] => return some { name, value := none }
    | '#' :: _ => return some { name, value := none }
    | rest =>
      let value ← readValueFrom environment assigned .start rest
      return some { name, value := some value }

/-- Assigns a value to a variable that has none. -/
def assign (environment : Environment) (a : Assignment) : Environment :=
  if environment.contains a.name then environment
  else environment.insert a.name (a.value.getD "")

/-- Remembers what a file assigned last to a name. -/
def remember (assigned : Environment) (a : Assignment) : Environment :=
  match a.value with
  | some value => assigned.insert a.name value
  | none => assigned.erase a.name

/-- The lines of an assignment that waits for its end. -/
structure Unended where
  /-- The text of the lines, in reverse. -/
  text : List Char
  /-- Whether there are only blanks in the text. -/
  isBlank : Bool
  scan : Scan

namespace Unended

/-- No line yet. -/
def start : Unended where
  text := []
  isBlank := true
  scan := .plain

/-- Whether the next line makes a comment of the whole. -/
def becomesComment (front : Unended) (line : List Char) : Bool :=
  front.isBlank && (Text.trimStart line).head? == some '#'

/-- One more line, behind which the scan has come to some place. -/
def extend (front : Unended) (line : List Char) (scan : Scan) : Unended where
  text := line.reverseAux front.text
  isBlank := front.isBlank && (Text.trimStart line).isEmpty
  scan := scan

end Unended

/-- The environment behind the lines of a file, with the assignment that waits for its end. -/
def loadLines (environment assigned : Environment) (front : Unended) :
    List (List UInt8) → Environment
  | [] => environment
  | bytes :: rest =>
    match Text.ofBytes? bytes with
    | none => environment
    | some piece =>
      let line := piece.toList
      if front.becomesComment line then loadLines environment assigned .start rest
      else
        match scanLine front.scan [] line with
        | .comment before =>
          finishLine environment assigned (front.text.reverse ++ before) rest
        | .unended scan =>
          let whole := front.extend line scan
          if scan = .plain then finishLine environment assigned (chomp whole.text) rest
          else loadLines environment assigned whole rest
where
  /-- The environment behind a whole assignment and the lines after it. -/
  finishLine (environment assigned : Environment) (line : List Char)
      (rest : List (List UInt8)) : Environment :=
    match readLine environment assigned line with
    | none => environment
    | some none => loadLines environment assigned .start rest
    | some (some a) => loadLines (assign environment a) (remember assigned a) .start rest

/-- The environment with the assignments of a file. A byte order mark in front is ignored. -/
def load (file : List UInt8) (environment : Environment) : Environment :=
  let body := match file with
    | 0xEF :: 0xBB :: 0xBF :: rest => rest
    | rest => rest
  loadLines environment .empty .start (splitLines [] body)

end ObjectRegistry.EnvFile
