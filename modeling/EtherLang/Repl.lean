import EtherLang.Repl.Slash
import EtherLang.Session
import EtherLang.Settings

/-!
# The dialogue

The interpreter prompts for an entry, evaluates it and prints its value or its error, until the
input ends or the interpreter breaks down. Entries that begin with a slash direct the dialogue
itself. Invisible characters are taken out of an entry first, and entries of blanks only are passed
over.
-/

namespace EtherLang

/-- What is written on the two channels. -/
structure Transcript where
  out : String
  err : String
  deriving DecidableEq, Repr

/-- One transcript after another. -/
def Transcript.append (a b : Transcript) : Transcript :=
  ⟨a.out ++ b.out, a.err ++ b.err⟩

instance : Append Transcript := ⟨Transcript.append⟩

/-- What a user gives at the prompt. -/
inductive Entry where
  | text (text : String)
  | interrupt
  | endOfInput
  deriving DecidableEq, Repr

/-- The state of a dialogue. -/
structure Repl where
  session : Session
  /-- Whether errors are shown with a traceback. -/
  traceback : Bool
  /-- Whether records of the interpreter's steps are shown. -/
  showsEvents : Bool
  /-- What clears the terminal when it is written. -/
  clearScreen : String
  deriving Repr

namespace Repl

/-- The greeting at the beginning of a dialogue. -/
def banner : String := "ether repl - Ctrl-D to exit, / for commands\n"

/-- What the user is prompted with. -/
def prompt : String := "~> "

/-- A dialogue in which nothing has been said yet. -/
def start (settings : Settings) (showsEvents : Bool) (clearScreen : String) : Repl :=
  { session := Session.start BuiltinTable.standard settings.recursionLimit?
    traceback := settings.traceback
    showsEvents
    clearScreen }

/-- Whether a character is taken out of entries: zero-width characters, the no-break space and the
carriage return. -/
def isInvisible (c : Char) : Bool :=
  ['\u200b', '\u200c', '\u200d', '\ufeff', '\u00a0', '\r'].contains c

/-- An entry without invisible characters. -/
def normalize (text : String) : String :=
  String.ofList (text.toList.filter (!isInvisible ·))

/-- Carries out a slash command. -/
def command (r : Repl) : SlashCommand → Transcript × Repl
  | .clear => (⟨r.clearScreen, ""⟩, r)
  | .setTraceback on => (tracebackState on, { r with traceback := on })
  | .toggleTraceback => (tracebackState !r.traceback, { r with traceback := !r.traceback })
  | .tracebackUsage => (⟨"", "Usage: /py-traceback [on|off]\n"⟩, r)
  | .reset => (⟨"Environment reset.\n", ""⟩, { r with session := r.session.reset })
  | .unknown word => (⟨"", "Unknown command: " ++ word ++ "\n"⟩, r)
where
  /-- The report on whether tracebacks are on. -/
  tracebackState (on : Bool) : Transcript :=
    ⟨"Python traceback: " ++ (if on then "on" else "off") ++ "\n", ""⟩

/-- What is printed for a value; nothing is for null. -/
def valueText : Value → String
  | .null => ""
  | value => value.display ++ "\n"

/-- The report on an error of a running program; the steps of the interpreter would follow the
heading of a traceback. -/
def errorText (traceback : Bool) (report : String) : String :=
  "Error: " ++ report ++ "\n" ++ (if traceback then "\nPython traceback:\n" else "")

/-- What is printed for the outcome of an entry. A value that is nested deeper than `levels` levels
cannot be printed. -/
def outcomeText (traceback : Bool) (levels : Nat) :
    Except Failure Value → Except Breakdown Transcript
  | .ok value =>
    if value.nesting ≤ levels then .ok ⟨valueText value, ""⟩ else .error .tooDeep
  | .error (.parse e) => .ok ⟨"", errorText false e.report⟩
  | .error (.eval e) => .ok ⟨"", errorText traceback e.report⟩
  | .error (.broken cause) => .error cause

/-- How a dialogue goes on after an entry. -/
inductive Next where
  /-- Something was written, and the next entry is prompted for. -/
  | prompting (written : Transcript) (r : Repl)
  /-- Something was written, and the dialogue is over. -/
  | ended (written : Transcript)
  /-- Something was written before the interpreter broke down. -/
  | broken (written : Transcript) (cause : Breakdown)

/-- Evaluates an entry. -/
def evaluate (r : Repl) (source : String) : Next :=
  let (report, session) := r.session.evaluate source
  let records := if r.showsEvents then Event.log report.events else ""
  let written : Transcript := ⟨report.output, records⟩
  match outcomeText r.traceback (levelsOf session.limit) report.outcome with
  | .ok printed => .prompting (written ++ printed) { r with session }
  | .error cause => .broken written cause

/-- Responds to an entry. -/
def respond (r : Repl) : Entry → Next
  | .endOfInput => .ended ⟨"\n", ""⟩
  | .interrupt => .prompting ⟨"KeyboardInterrupt\n", ""⟩ r
  | .text text =>
    let text := normalize text
    if Text.allBlank text then .prompting ⟨"", ""⟩ r
    else
      match SlashCommand.read? text with
      | some c =>
        let (written, r) := r.command c
        .prompting written r
      | none => r.evaluate text

/-- A dialogue that is over: what was written after each prompt, and what the interpreter did not
survive if it broke down. -/
structure Dialogue where
  responses : List Transcript
  breakdown : Option Breakdown

/-- The dialogue over some entries; after the last one the input ends. -/
def dialogue (r : Repl) : List Entry → Dialogue
  | [] => ⟨[⟨"\n", ""⟩], none⟩
  | entry :: entries =>
    match r.respond entry with
    | .prompting written r =>
      let others := r.dialogue entries
      { others with responses := written :: others.responses }
    | .ended written => ⟨[written], none⟩
    | .broken written cause => ⟨[written], some cause⟩

end Repl

end EtherLang
