import EtherLang.Command
import EtherLang.Repl.Editor

/-!
# The program

The command with the file system, the settings of the process and the terminal around it. All
decisions are made by `EtherLang.Command` and `EtherLang.Repl`.
-/

namespace EtherLang

/-- What clears a terminal. -/
def clearSequence : String := "\x1b[2J\x1b[H"

/-- Writes to the two channels. -/
def Transcript.put (written : Transcript) : IO Unit := do
  IO.print written.out
  IO.eprint written.err
  (← IO.getStdout).flush

/-- The settings of the process. -/
def Settings.ofProcess : IO Settings := do
  let names := ["ETHER_DEBUG_PY_TRACE", "ETHER_RECURSION_LIMIT", "ETHER_LOG_LEVEL"]
  let entries ← names.filterMapM fun name => do
    return (← IO.getEnv name).map (name, ·)
  return ⟨entries⟩

/-- The error behind a failure of the system to open a file, if it is one of the usual ones. -/
def OpenError.ofSystem? : IO.Error → Option OpenError
  | .noFileOrDirectory .. => some .notFound
  | .inappropriateType _ code _ => some (if code = 21 then .isADirectory else .notADirectory)
  | .invalidArgument _ code _ => if code = 36 then some .nameTooLong else none
  | _ => none

/-- The text of the source file at a path. -/
def readSource (path : String) : IO (Except ReadError String) := do
  try
    let bytes ← IO.FS.readBinFile (Path.shorten path)
    return (Text.Utf8.readText bytes).mapError ReadError.notText
  catch e =>
    match OpenError.ofSystem? e with
    | some error => return .error (.cannotOpen error)
    | none => throw e

/-- Reads an entry from the terminal: further lines follow as long as brackets are open. -/
partial def readEntry (input : IO.FS.Stream) (typed : String) : IO Entry := do
  let line ← input.getLine
  if line.isEmpty then
    return if typed.isEmpty then .endOfInput else .text typed
  else
    let ended := line.toList.getLast? = some '\n'
    let text := typed ++ (if ended then String.ofList line.toList.dropLast else line)
    if ended && !(Editor.press text .enter).submitted then
      readEntry input (text ++ "\n")
    else
      return .text text

/-- Holds the dialogue from a state on. -/
partial def converse (input : IO.FS.Stream) (r : Repl) : IO UInt32 := do
  Transcript.put ⟨Repl.prompt, ""⟩
  match r.respond (← readEntry input "") with
  | .prompting written r =>
    written.put
    converse input r
  | .ended written =>
    written.put
    return 0
  | .broken written _ =>
    written.put
    return 1

/-- Ends with a result. -/
def finish (result : Command.Result) : IO UInt32 := do
  result.written.put
  match result.ending with
  | .exit code => return code.number.toUInt32
  | .dialogueOver => return 0
  | .broken _ => return 1

/-- Carries out a command line. -/
def perform (args : List String) : IO UInt32 := do
  let settings ← Settings.ofProcess
  match Command.Action.ofArguments args with
  | .help => finish ⟨.exit .success, ⟨Command.helpText, ""⟩⟩
  | .usageError message => finish ⟨.exit .usage, ⟨"", Command.usageReport message⟩⟩
  | .repl =>
    Transcript.put ⟨Repl.banner, ""⟩
    converse (← IO.getStdin) (Repl.start settings settings.showsEvents clearSequence)
  | .run path =>
    finish (Command.withSource path (Command.runText settings path) (← readSource path))
  | .showTree path =>
    finish (Command.withSource path (Command.treeOfText settings) (← readSource path))

end EtherLang

/-- Carries out the command line of the process. -/
def main (args : List String) : IO UInt32 :=
  EtherLang.perform args
