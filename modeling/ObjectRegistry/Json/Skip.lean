import ObjectRegistry.Json.Lexeme

/-!
# Values that do not matter

A value that nobody asked for is read for its extent alone (`skipValue`). Brackets that are open
are kept on a stack, so nesting has no limit.
-/

namespace ObjectRegistry.Json

/-- An open bracket. -/
inductive Bracket where
  | square
  | curly

/-- What is awaited next. -/
inductive Await where
  /-- A value; right behind an opening square bracket, the closing one may come instead. -/
  | value (closable : Bool)
  /-- The name of a field; right behind an opening curly bracket, the closing one may come
  instead. -/
  | name (closable : Bool)
  /-- A comma or the closing bracket. -/
  | next

/-- What is awaited behind a whole value, or none if it was the outermost. -/
def afterValue : List Bracket → Option (Await × List Bracket)
  | [] => none
  | brackets => some (.next, brackets)

/-- What is awaited behind a comma. -/
def awaitItem : Bracket → Await
  | .square => .value false
  | .curly => .name false

/-- What one piece of the text leads to: what is awaited, the open brackets and the text behind
it. Without anything awaited, the value is over. -/
def skipPiece (await : Await) (brackets : List Bracket) (text : List Char) :
    Except Fault (Option (Await × List Bracket) × List Char) := do
  let text := skipBlanks text
  match await with
  | .value closable =>
    match text with
    | [] => throw .truncated
    | 'n' :: rest => return (afterValue brackets, ← readWord "ull".toList rest)
    | 't' :: rest => return (afterValue brackets, ← readWord "rue".toList rest)
    | 'f' :: rest => return (afterValue brackets, ← readWord "alse".toList rest)
    | '-' :: rest => return (afterValue brackets, ← skipNumber rest)
    | '"' :: rest => return (afterValue brackets, ← skipString rest)
    | '[' :: rest => return (some (.value true, .square :: brackets), rest)
    | '\x7b' :: rest => return (some (.name true, .curly :: brackets), rest)
    | ']' :: rest => if closable then return (afterValue brackets.tail, rest) else throw .malformed
    | c :: _ =>
      if isDigit c then return (afterValue brackets, ← skipNumber text) else throw .malformed
  | .name closable =>
    match text with
    | [] => throw .truncated
    | '"' :: rest =>
      match skipBlanks (← skipString rest) with
      | [] => throw .truncated
      | ':' :: rest => return (some (.value false, brackets), rest)
      | _ => throw .malformed
    | '\x7d' :: rest =>
      if closable then return (afterValue brackets.tail, rest) else throw .malformed
    | _ => throw .malformed
  | .next =>
    match brackets, text with
    | [], text => return (none, text)
    | _, [] => throw .truncated
    | .square :: outer, ']' :: rest => return (afterValue outer, rest)
    | .curly :: outer, '\x7d' :: rest => return (afterValue outer, rest)
    | bracket :: _, ',' :: rest => return (some (awaitItem bracket, brackets), rest)
    | _, _ => throw .malformed

/-- The text behind a value. Every piece takes one or more characters of the text and one step; the
first list counts the steps. -/
def skipPieces : List Char → Await → List Bracket → List Char → Except Fault (List Char)
  | [], _, _, _ => .error .truncated
  | _ :: steps, await, brackets, text =>
    match skipPiece await brackets text with
    | .error fault => .error fault
    | .ok (none, rest) => .ok rest
    | .ok (some (await, brackets), rest) => skipPieces steps await brackets rest

/-- The text behind a value. There are no more steps than characters. -/
def skipValue (text : List Char) : Except Fault (List Char) :=
  skipPieces text (.value false) [] text

end ObjectRegistry.Json
