import EtherLang.Text.Blank

/-!
# Slash commands

A line that begins with a slash is not evaluated but directs the dialogue itself.
-/

namespace EtherLang

/-- What a slash command asks for. -/
inductive SlashCommand where
  | clear
  /-- Turns tracebacks on or off. -/
  | setTraceback (on : Bool)
  | toggleTraceback
  /-- The traceback command with an argument that it does not know. -/
  | tracebackUsage
  | reset
  /-- A command that there is not. -/
  | unknown (word : String)
  deriving DecidableEq, Repr

namespace SlashCommand

/-- The commands that are offered, each with its description. -/
def offered : List (String × String) := [
  ("/clear", "Clear the terminal screen"),
  ("/py-traceback", "Toggle Python traceback on errors"),
  ("/reset", "Reset the REPL environment")
]

/-- Reads the argument of the traceback command. -/
def readTraceback (argument : String) : SlashCommand :=
  if Text.lower argument ∈ ["on", "1", "true", "yes"] then setTraceback true
  else if Text.lower argument ∈ ["off", "0", "false", "no"] then setTraceback false
  else if argument.isEmpty then toggleTraceback
  else tracebackUsage

/-- Reads a line as a command; `none` if it is not one. -/
def read? (line : String) : Option SlashCommand :=
  let (word, argument) := Text.firstWord (Text.trim line)
  if word.toList.head? = some '/' then
    some <|
      match word with
      | "/clear" => clear
      | "/py-traceback" => readTraceback argument
      | "/reset" => reset
      | _ => unknown word
  else none

/-- A way to complete what has been typed: the whole command and its description. -/
structure Completion where
  command : String
  description : String
  /-- How many typed characters the command replaces. -/
  replaced : Nat
  deriving DecidableEq, Repr

/-- The commands that begin with what has been typed, if this begins with a slash. -/
def completions (typed : String) : List Completion :=
  let cs := typed.toList
  if cs.head? = some '/' then
    (offered.filter fun (command, _) => cs.isPrefixOf command.toList).map
      fun (command, description) => ⟨command, description, cs.length⟩
  else []

end SlashCommand

end EtherLang
