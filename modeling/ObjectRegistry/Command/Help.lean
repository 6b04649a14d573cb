import ObjectRegistry.Command.Grammar
import ObjectRegistry.Command.Reply

/-!
# Help

The explanations of a command line that runs no command: an overview of the commands with their
options, and one sentence for each mistake.
-/

namespace ObjectRegistry

/-- What a mistake in a command line is. -/
def Usage.message : Usage → String
  | .help | .version => ""
  | .nothing => "a command is needed"
  | .unknownCommand => "there is no such command"
  | .unknownArgument => "the command does not know an argument"
  | .missingArgument => "the command needs an argument that is not given"
  | .missingValue => "an argument has no value"
  | .malformedValue => "an argument has a value that it cannot have"
  | .surplusValue => "an argument that has no value is given one"
  | .conflict => "two arguments cannot be given together"

namespace Help

/-- An option as the overview shows it. -/
def choice (c : Choice) : String :=
  " [--" ++ c.word ++ (if c.isSwitch then "]" else " ...]")

/-- What a command is about as the overview shows it. -/
def operand : Operand → String
  | .none => ""
  | .text => " NAME"
  | .path => " FILE"

/-- A command as the overview shows it. -/
def verb (v : Verb) : String :=
  "  " ++ v.word ++ operand v.operand ++ String.join (v.choices.map choice) ++ "\n"

/-- The overview of the commands. -/
def overview : String :=
  "Usage: " ++ programName ++ " COMMAND\n\nCommands:\n" ++ String.join (Verb.all.map verb)

end Help

end ObjectRegistry
