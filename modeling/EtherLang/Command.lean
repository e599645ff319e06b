import EtherLang.Command.Arguments
import EtherLang.Command.SourceFile
import EtherLang.Repl

/-!
# The command

Given a file the command runs it, or prints its syntax tree one statement a line; without a file
it holds a dialogue. Its exit code tells whether the command line was wrong or the file unreadable,
the file was no program, or the program failed. If the interpreter breaks down there is no exit
code, but what was written before remains.
-/

namespace EtherLang.Command

/-- The exit codes of the command. -/
inductive ExitCode where
  | success
  | usage
  | parse
  | runtime
  deriving DecidableEq, Repr

/-- The number of an exit code. -/
def ExitCode.number : ExitCode → Nat
  | success => 0
  | usage => 1
  | parse => 2
  | runtime => 3

/-- How the command ends. -/
inductive Ending where
  | exit (code : ExitCode)
  /-- The dialogue is over. -/
  | dialogueOver
  | broken (cause : Breakdown)
  deriving DecidableEq, Repr

/-- What the command has written when it is over, and how it ends. -/
structure Result where
  ending : Ending
  written : Transcript

/-- The records of the interpreter's steps, if they are to be shown. -/
def records (settings : Settings) (events : List Event) : String :=
  if settings.showsEvents then Event.log events else ""

/-- Runs a source text that was read from a path. -/
def runText (settings : Settings) (path source : String) : Result :=
  let session := Session.start BuiltinTable.standard settings.recursionLimit?
  let (report, _) := session.evaluate source
  let log := records settings (.running path :: report.events)
  match report.outcome with
  | .ok _ => ⟨.exit .success, ⟨report.output, log⟩⟩
  | .error (.parse e) => ⟨.exit .parse, ⟨report.output, log ++ e.report ++ "\n"⟩⟩
  | .error (.eval e) => ⟨.exit .runtime, ⟨report.output, log ++ e.report ++ "\n"⟩⟩
  | .error (.broken cause) => ⟨.broken cause, ⟨report.output, log⟩⟩

/-- Prints the syntax tree of a source text, one statement a line. -/
def treeOfText (settings : Settings) (source : String) : Result :=
  let depth := Depth.atMost (levelsOf initialLimit)
  match Surface.parse depth source with
  | .error (.rejected e) => ⟨.exit .parse, ⟨"", e.report ++ "\n"⟩⟩
  | .error .oversizedLiteral => ⟨.broken .oversizedLiteral, ⟨"", ""⟩⟩
  | .ok tree =>
    let parsed := Event.parsed tree.length
    match desugar depth tree with
    | .error e => ⟨.exit .parse, ⟨"", records settings [parsed] ++ e.report ++ "\n"⟩⟩
    | .ok program =>
      ⟨.exit .success, ⟨program.listing, records settings [parsed, .lowered program]⟩⟩

/-- Holds a dialogue over some entries, with the prompts written out. -/
def dialogue (settings : Settings) (clearScreen : String) (entries : List Entry) : Result :=
  let start := Repl.start settings settings.showsEvents clearScreen
  let held := start.dialogue entries
  ⟨held.breakdown.elim .dialogueOver .broken,
    held.responses.foldl (fun written response => written ++ ⟨Repl.prompt, ""⟩ ++ response)
      ⟨Repl.banner, ""⟩⟩

/-- Carries out the command with what was read from a path. -/
def withSource (path : String) (use : String → Result) (read : Except ReadError String) :
    Result :=
  if Path.hasNull path then ⟨.broken .nullInPath, ⟨"", ""⟩⟩
  else
    match read with
    | .ok source => use source
    | .error e => ⟨.exit .usage, ⟨"", e.report path⟩⟩

/-- Carries out a command line in a directory, with the entries for a dialogue if there is one. -/
def run (args : List String) (directory : Directory) (settings : Settings) (clearScreen : String)
    (entries : List Entry) : Result :=
  match Action.ofArguments args with
  | .help => ⟨.exit .success, ⟨helpText, ""⟩⟩
  | .usageError message => ⟨.exit .usage, ⟨"", usageReport message⟩⟩
  | .repl => dialogue settings clearScreen entries
  | .run path => withSource path (runText settings path) (directory.read path)
  | .showTree path => withSource path (treeOfText settings) (directory.read path)

end EtherLang.Command
