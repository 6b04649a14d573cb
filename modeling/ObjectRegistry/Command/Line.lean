import ObjectRegistry.Command.Grammar

/-!
# Reading a command line

The first argument names the command; the others are read from left to right. Two dashes in front
of a word make an option, whose value follows an equals sign or is the next argument; two dashes
alone end the options, and everything behind them is taken as it stands.

An option or an operand is settled when the next one begins, or at the end: only then it is an error
that its value is missing, malformed, or the second one. An argument that the command does not know
is an error at once, so it wins over what is still to be settled. What the command needs is asked
for last.
-/

namespace ObjectRegistry.CommandLine

/-- The shape of an argument. -/
inductive Shape where
  /-- Two dashes alone. -/
  | dashes
  /-- Two dashes and a word, perhaps with an equals sign and a value. -/
  | long (word : String) (value : Option String)
  /-- One dash and the character behind it. -/
  | short (c : Char)
  | word (text : String)
  deriving DecidableEq

/-- The shape of an argument. -/
def shape (argument : String) : Shape :=
  match argument.toList with
  | ['-', '-'] => .dashes
  | '-' :: '-' :: rest =>
    let word := String.ofList (rest.takeWhile (· != '='))
    match rest.dropWhile (· != '=') with
    | _ :: value => .long word (some (String.ofList value))
    | [] => .long word none
  | '-' :: c :: _ => .short c
  | _ => .word argument

/-- What is read and not settled yet. -/
inductive Pending where
  | nothing
  | choice (choice : Choice) (value : Option String)
  | operand (text : String)
  deriving DecidableEq

/-- Where the reader of a command's arguments is. -/
structure State where
  given : Given
  pending : Pending
  /-- Whether the options have ended. -/
  trailing : Bool
  deriving DecidableEq

namespace State

/-- The start of the arguments. -/
def start : State where
  given := .empty
  pending := .nothing
  trailing := false

/-- Whether an operand was read. -/
def hasOperand (s : State) : Bool :=
  match s.pending with
  | .operand _ => true
  | _ => s.given.operand.isSome

/-- Leaves an option pending, with or without its value. -/
def await (s : State) (choice : Choice) (value : Option String) : State :=
  { s with pending := .choice choice value }

/-- Settles what is pending. -/
def settle (verb : Verb) (s : State) : Except Usage State :=
  match s.pending with
  | .nothing => .ok s
  | .choice _ none => .error .missingValue
  | .choice choice (some value) =>
    if s.given.has choice then .error .conflict
    else
      match s.given.put? choice value with
      | some given => .ok { s with given, pending := .nothing }
      | none => .error .malformedValue
  | .operand text =>
    if verb.operand = .path ∧ text.isEmpty then .error .missingValue
    else .ok { s with given := { s.given with operand := some text }, pending := .nothing }

/-- Takes an argument as the operand, of which a command has one at most. -/
def takeOperand (verb : Verb) (s : State) (text : String) : Except Usage State := do
  if verb.operand = .none ∨ s.hasOperand then throw .unknownArgument
  let s ← s.settle verb
  return { s with pending := .operand text }

/-- Takes an option with the value that is attached to it. -/
def takeChoice (verb : Verb) (s : State) (choice : Choice) (value : Option String) :
    Except Usage State := do
  if choice.isSwitch ∧ value.isSome then throw .surplusValue
  let s ← s.settle verb
  if choice.isSwitch then (s.await choice (some "")).settle verb
  else if value.isSome then (s.await choice value).settle verb
  else return s.await choice none

/-- Help is shown once everything before it is settled. -/
def takeHelp (verb : Verb) (s : State) : Except Usage State := do
  let _ ← s.settle verb
  throw .help

/-- Reads one argument by its shape. -/
def takeShape (verb : Verb) (s : State) : Shape → Except Usage State
  | .dashes => .ok { s with trailing := true }
  | .short c => if c = 'h' then s.takeHelp verb else .error .unknownArgument
  | .long word value =>
    match verb.choice? word with
    | some choice => s.takeChoice verb choice value
    | none =>
      if word = "help" then if value.isSome then .error .surplusValue else s.takeHelp verb
      else .error .unknownArgument
  | .word text =>
    match s.pending with
    | .choice choice none => .ok (s.await choice (some text))
    | _ => s.takeOperand verb text

/-- Reads one argument. -/
def take (verb : Verb) (s : State) (argument : String) : Except Usage State :=
  match s.pending with
  | .choice choice none =>
    if choice.isGreedy then .ok (s.await choice (some argument))
    else if s.trailing then s.takeOperand verb argument
    else s.takeShape verb (shape argument)
  | _ => if s.trailing then s.takeOperand verb argument else s.takeShape verb (shape argument)

end State

/-- The command that a word and the arguments behind it make. -/
def readArguments (verb : Verb) (arguments : List String) : Except Usage Command := do
  let s ← arguments.foldlM (State.take verb) .start
  (← s.settle verb).given.command verb

/-- Whether a word stands where a command stands. -/
def isCommandWord (word : String) : Bool :=
  (Verb.ofWord? word).isSome || word == "help"

/-- Help is asked for in general or for one command. -/
def readHelp : List String → Usage
  | [] => .help
  | [word] => if isCommandWord word then .help else .unknownCommand
  | _ => .unknownCommand

/-- Reads a command line. -/
def read : List String → Except Usage Command
  | [] => .error .nothing
  | first :: rest =>
    match shape first with
    | .dashes =>
      match rest with
      | [] => .error .nothing
      | word :: _ => .error (if isCommandWord word then .unknownArgument else .unknownCommand)
    | .short c =>
      .error (if c = 'h' then .help else if c = 'V' then .version else .unknownArgument)
    | .long word value =>
      if word = "help" then .error (if value.isSome then .surplusValue else .help)
      else if word = "version" then .error (if value.isSome then .surplusValue else .version)
      else .error .unknownArgument
    | .word text =>
      match Verb.ofWord? text with
      | some verb => readArguments verb rest
      | none => .error (if text = "help" then readHelp rest else .unknownCommand)

end ObjectRegistry.CommandLine
