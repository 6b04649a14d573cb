/-!
# The pieces of JSON text

Readers for the pieces that JSON text is made of: blanks, words, strings and numbers. A reader
takes the text that is left and answers what it read with the text behind it, or the first fault.
A fault says whether the text breaks the grammar, ends too soon, or is fine as JSON and no value
of the kind that is wanted.
-/

namespace ObjectRegistry.Json

/-- What is wrong with a text, at the first place where something is. -/
inductive Fault where
  /-- The text is not JSON. -/
  | malformed
  /-- The text is JSON of the wrong kind. -/
  | mismatched
  /-- The text ends too soon. -/
  | truncated
  deriving DecidableEq

/-- What a reader answers: a value and the rest of the text. -/
abbrev Reading (α : Type) := Except Fault (α × List Char)

/-- The four characters that may stand between the pieces. -/
def isBlank (c : Char) : Bool :=
  c == ' ' || c == '\t' || c == '\n' || c == '\r'

/-- The text behind any blanks. -/
def skipBlanks (text : List Char) : List Char :=
  text.dropWhile isBlank

/-- The rest of a word whose first letter has been read. -/
def readWord : List Char → List Char → Except Fault (List Char)
  | [], text => .ok text
  | _ :: _, [] => .error .truncated
  | expected :: word, c :: text =>
    if c = expected then readWord word text else .error .malformed

/-! ## Strings -/

/-- The value of a hexadecimal digit of either case. -/
def hexValue? (c : Char) : Option Nat :=
  let n := c.toNat
  if 48 ≤ n ∧ n ≤ 57 then some (n - 48)
  else if 97 ≤ n ∧ n ≤ 102 then some (n - 87)
  else if 65 ≤ n ∧ n ≤ 70 then some (n - 55)
  else none

/-- The four digits of an escape. With fewer than four bytes left, the text ends too soon. -/
def readFourDigits (text : List Char) : Reading Nat :=
  match text with
  | a :: b :: c :: d :: rest =>
    match hexValue? a, hexValue? b, hexValue? c, hexValue? d with
    | some a, some b, some c, some d => .ok (4096 * a + 256 * b + 16 * c + d, rest)
    | _, _, _, _ => .error .malformed
  | short =>
    if (String.ofList short).utf8ByteSize < 4 then .error .truncated else .error .malformed

/-- The character that a short escape stands for. -/
def shortEscape? (c : Char) : Option Char :=
  if c = '"' ∨ c = '\\' ∨ c = '/' then some c
  else if c = 'b' then some (Char.ofNat 8)
  else if c = 'f' then some (Char.ofNat 12)
  else if c = 'n' then some '\n'
  else if c = 'r' then some '\r'
  else if c = 't' then some '\t'
  else none

/-- The second half of a character that takes two escapes, behind the first half. -/
def readLowHalf (high : Nat) : List Char → Except Fault (Char × List Char)
  | [] => .error .truncated
  | ['\\'] => .error .truncated
  | '\\' :: 'u' :: text => do
    let (low, rest) ← readFourDigits text
    if 0xDC00 ≤ low ∧ low ≤ 0xDFFF then
      return (Char.ofNat (0x10000 + 0x400 * (high - 0xD800) + (low - 0xDC00)), rest)
    else throw .malformed
  | _ => .error .malformed

/-- The character that an escape stands for, behind the backslash. -/
def readEscape : List Char → Except Fault (Char × List Char)
  | [] => .error .truncated
  | 'u' :: text => do
    let (code, rest) ← readFourDigits text
    if 0xDC00 ≤ code ∧ code ≤ 0xDFFF then throw .malformed
    if 0xD800 ≤ code ∧ code ≤ 0xDBFF then readLowHalf code rest
    else return (Char.ofNat code, rest)
  | c :: text =>
    match shortEscape? c with
    | some meant => .ok (meant, text)
    | none => .error .malformed

/-- The rest of a string behind what was read of it, which is held in reverse. A character, plain
or escaped, takes one or more characters of the text and one step; the first list counts the
steps. -/
def readStringFrom : List Char → List Char → List Char → Except Fault (String × List Char)
  | [], _, _ => .error .truncated
  | _ :: _, _, [] => .error .truncated
  | _ :: _, front, '"' :: rest => .ok (String.ofList front.reverse, rest)
  | _ :: steps, front, '\\' :: rest => do
    let (c, rest) ← readEscape rest
    readStringFrom steps (c :: front) rest
  | _ :: steps, front, c :: rest =>
    if c.toNat < 32 then .error .malformed else readStringFrom steps (c :: front) rest

/-- A string behind its opening quote. There are no more steps than characters. -/
def readString (text : List Char) : Reading String :=
  readStringFrom text [] text

/-- An escape whose character does not matter. -/
def skipEscape : List Char → Except Fault (List Char)
  | [] => .error .truncated
  | 'u' :: text => (readFourDigits text).map (·.2)
  | c :: text => if (shortEscape? c).isSome then .ok text else .error .malformed

/-- The text behind a string whose value does not matter; half characters pass. The first list
counts the steps, one for a character, plain or escaped. -/
def skipStringFrom : List Char → List Char → Except Fault (List Char)
  | [], _ => .error .truncated
  | _ :: _, [] => .error .truncated
  | _ :: _, '"' :: rest => .ok rest
  | _ :: steps, '\\' :: rest => do skipStringFrom steps (← skipEscape rest)
  | _ :: steps, c :: rest =>
    if c.toNat < 32 then .error .malformed else skipStringFrom steps rest

/-- The text behind a string whose value does not matter, behind its opening quote. -/
def skipString (text : List Char) : Except Fault (List Char) :=
  skipStringFrom text text

/-! ## Numbers -/

/-- Whether a character is an ASCII digit. -/
def isDigit (c : Char) : Bool := 48 ≤ c.toNat && c.toNat ≤ 57

/-- A number as it was written. -/
inductive Numeral where
  /-- Digits alone, behind at most a minus sign, that are no negative zero. -/
  | integer (i : Int)
  /-- Any other number. -/
  | fraction

/-- Digits folded into a value of at most 64 bits: the value, how many digits did not fit, and the
text behind all of them. -/
def readDigits (value : Nat) : List Char → Nat × Nat × List Char
  | c :: rest =>
    if isDigit c then
      let next := 10 * value + (c.toNat - 48)
      if next < 18446744073709551616 then readDigits next rest
      else (value, (c :: rest.takeWhile isDigit).length, rest.dropWhile isDigit)
    else (value, 0, c :: rest)
  | [] => (value, 0, [])

/-- A number written with a fraction or an exponent must fit a double: its leading digits times
the power of ten stay below infinity. -/
def fitsDouble (significand : Nat) (exponent : Int) : Bool :=
  significand == 0 || exponent < 0 ||
    (exponent ≤ 308 &&
      !(Float.ofNat significand * Float.ofScientific 1 false exponent.toNat).isInf)

/-- The size of an exponent. From `2 ^ 31` on it is all the same: no text is so long that the
digits in front make up for it. -/
def exponentSize (digits : List Char) : Nat :=
  digits.foldl (fun n c => min 2147483648 (10 * n + (c.toNat - 48))) 0

/-- The part of a number behind its exponent mark, for the value in front of it. -/
def readExponent (significand : Nat) (scale : Int) (text : List Char) : Reading Numeral :=
  let (negative, text) := match text with
    | '+' :: rest => (false, rest)
    | '-' :: rest => (true, rest)
    | rest => (false, rest)
  match text with
  | [] => .error .truncated
  | c :: _ =>
    if isDigit c then
      let (digits, rest) := (text.takeWhile isDigit, text.dropWhile isDigit)
      let size : Int := exponentSize digits
      if fitsDouble significand (if negative then scale - size else scale + size) then
        .ok (.fraction, rest)
      else .error .malformed
    else .error .malformed

/-- The end of a number that is an integer no longer. -/
def readScaled (significand : Nat) (scale : Int) (text : List Char) : Reading Numeral :=
  match text with
  | 'e' :: rest | 'E' :: rest => readExponent significand scale rest
  | rest => if fitsDouble significand scale then .ok (.fraction, rest) else .error .malformed

/-- The part of a number behind its point. -/
def readFraction (significand : Nat) (scale : Int) (text : List Char) : Reading Numeral :=
  match text with
  | [] => .error .truncated
  | c :: _ =>
    if isDigit c then
      let (value, dropped, rest) := readDigits significand text
      let places := (text.takeWhile isDigit).length - dropped
      readScaled value (scale - places) rest
    else .error .malformed

/-- A number behind its sign. -/
def readNumber (negative : Bool) (text : List Char) : Reading Numeral :=
  match text with
  | [] => .error .truncated
  | first :: rest =>
    if !isDigit first then .error .malformed
    else if first == '0' && (rest.head?.any isDigit) then .error .malformed
    else
      let (value, dropped, rest) := readDigits 0 (first :: rest)
      match rest with
      | '.' :: fraction => readFraction value dropped fraction
      | 'e' :: exponent | 'E' :: exponent => readExponent value dropped exponent
      | rest =>
        if dropped ≠ 0 then readScaled value dropped rest
        else if negative then
          if value = 0 ∨ 9223372036854775808 < value then .ok (.fraction, rest)
          else .ok (.integer (-(value : Int)), rest)
        else .ok (.integer value, rest)

/-- The text behind the exponent of a number whose value does not matter. -/
def skipExponent (text : List Char) : Except Fault (List Char) :=
  let text := match text with
    | '+' :: rest | '-' :: rest => rest
    | rest => rest
  match text with
  | c :: rest => if isDigit c then .ok (rest.dropWhile isDigit) else .error .malformed
  | [] => .error .malformed

/-- The text behind a number whose value does not matter, behind its sign. A number that is cut
short counts as malformed here. -/
def skipNumber (text : List Char) : Except Fault (List Char) :=
  match text with
  | [] => .error .malformed
  | first :: rest =>
    if !isDigit first then .error .malformed
    else if first == '0' && (rest.head?.any isDigit) then .error .malformed
    else
      match rest.dropWhile isDigit with
      | '.' :: c :: fraction =>
        if isDigit c then
          match fraction.dropWhile isDigit with
          | 'e' :: exponent | 'E' :: exponent => skipExponent exponent
          | rest => .ok rest
        else .error .malformed
      | ['.'] => .error .malformed
      | 'e' :: exponent | 'E' :: exponent => skipExponent exponent
      | rest => .ok rest

end ObjectRegistry.Json
