import EtherLang.Text.Decimal
import EtherLang.Text.Quoted

/-!
# The command line

The command takes at most one file and the options `-h`, `--help` and `--ast`. A long option may be
abbreviated as long as it stays unambiguous, and `-h` may be repeated behind one dash. Options may
stand before and after the file, and `--` ends them. An argument that looks like a negative number,
holds a space or is a lone `-` is a file and not an option.
-/

namespace EtherLang.Command

/-- The options of the command. -/
inductive Flag where
  | help
  | ast
  deriving DecidableEq, Repr

/-- How messages name an option. -/
def Flag.title : Flag → String
  | help => "-h/--help"
  | ast => "--ast"

/-- The ways to write an option. -/
def spellings : List (String × Flag) :=
  [("-h", .help), ("--help", .help), ("--ast", .ast)]

/-- What an argument before the first `--` is taken for. -/
inductive Argument where
  | file
  /-- An option, with the value that an equals sign attaches to it. -/
  | flag (flag : Flag) (value : Option String)
  /-- The option `-h` with further letters behind it. -/
  | helpAnd (letters : List Char)
  | unknown
  /-- An abbreviation of several options. -/
  | ambiguous (spellings : List String)
  deriving DecidableEq, Repr

/-- Splits a text at its first equals sign. -/
def splitValue (cs : List Char) : List Char × Option String :=
  match cs.span (· != '=') with
  | (name, []) => (name, none)
  | (name, _ :: value) => (name, some (String.ofList value))

/-- Whether an argument looks like a negative number: a dash, then decimal digits with at most one
point among or before them and digits after it. -/
def isNegativeNumber (cs : List Char) : Bool :=
  let cs := if cs.getLast? = some '\n' then cs.dropLast else cs
  match cs with
  | '-' :: digits =>
    let isDigit := fun c => (Text.decimalDigit? c).isSome
    match digits.span isDigit with
    | (whole, []) => !whole.isEmpty
    | (_, '.' :: fraction) => !fraction.isEmpty && fraction.all isDigit
    | _ => false
  | _ => false

/-- The options that a long option may abbreviate. -/
def abbreviated (name : List Char) : List (String × Flag) :=
  spellings.filter fun (spelling, _) => name.isPrefixOf spelling.toList

/-- What an argument is taken for if it is none of the options as they are written. -/
def classifyOther (text : String) : Argument :=
  if isNegativeNumber text.toList || text.toList.contains ' ' then .file else .unknown

/-- What the option `-h` is taken for, given what stands behind it. An equals sign between the
option and its letters is left out. -/
def classifyHelp : List Char → Argument
  | [] => .flag .help none
  | ['='] => .flag .help (some "")
  | '=' :: letters => .helpAnd letters
  | letters => .helpAnd letters

/-- What an argument that begins with two dashes is taken for. -/
def classifyLong (text : String) : Argument :=
  let (name, value) := splitValue text.toList
  match spellings.lookup (String.ofList name) with
  | some flag => .flag flag value
  | none =>
    match abbreviated name with
    | [] => classifyOther text
    | [(_, flag)] => .flag flag value
    | several => .ambiguous (several.map Prod.fst)

/-- What an argument is taken for. -/
def classify (text : String) : Argument :=
  match text.toList with
  | '-' :: 'h' :: letters => classifyHelp letters
  | '-' :: '-' :: _ => classifyLong text
  | '-' :: _ :: _ => classifyOther text
  | _ => .file

/-- What the command is asked to do. -/
inductive Action where
  | help
  /-- The command line is wrong. -/
  | usageError (message : String)
  | repl
  | run (path : String)
  | showTree (path : String)
  deriving DecidableEq, Repr

/-- The complaint about a value attached to an option that takes none. -/
def ignoredValue (flag : Flag) (value : String) : Action :=
  .usageError ("argument " ++ flag.title ++ ": ignored explicit argument " ++ Text.quoted value)

/-- What `-h` with further letters behind it asks for. Each further `h` is `-h` once more; the
first other letter and all that follows it is complained about. -/
def helpWith : List Char → Action
  | [] => .help
  | 'h' :: rest => helpWith rest
  | rest => ignoredValue .help (String.ofList rest)

/-- What has been gathered from the command line so far. -/
structure Gathered where
  file : Option String
  ast : Bool
  /-- The arguments that belong nowhere, the last one first. -/
  extras : List String
  deriving DecidableEq, Repr

/-- What the gathered arguments ask for. -/
def Gathered.action (g : Gathered) : Action :=
  if g.extras.isEmpty then
    match g.file, g.ast with
    | some path, true => .showTree path
    | some path, false => .run path
    | none, true => .usageError "--ast needs a FILE"
    | none, false => .repl
  else
    .usageError ("unrecognized arguments: " ++ String.intercalate " " g.extras.reverse)

/-- Gathers the arguments after `--`, all of which are files. The `--` itself is dropped if the
file is still due or was the argument just before it. -/
def gatherFiles (g : Gathered) (afterFile : Bool) (files : List String) : Action :=
  match g.file, files with
  | none, [] => g.action
  | none, file :: others =>
    { g with file := some file, extras := others.reverse ++ g.extras }.action
  | some _, files =>
    let dropped := if afterFile then [] else ["--"]
    { g with extras := files.reverse ++ dropped ++ g.extras }.action

/-- Gathers arguments from left to right; `afterFile` tells whether the argument just before them
was taken as the file. -/
def gather (g : Gathered) (afterFile : Bool) : List String → Action
  | [] => g.action
  | arg :: args =>
    if arg = "--" then gatherFiles g afterFile args
    else
      match classify arg with
      | .file =>
        match g.file with
        | none => gather { g with file := some arg } true args
        | some _ => gather { g with extras := arg :: g.extras } false args
      | .flag .help none => .help
      | .flag .ast none => gather { g with ast := true } false args
      | .flag flag (some value) => ignoredValue flag value
      | .helpAnd letters => helpWith letters
      | .unknown | .ambiguous _ => gather { g with extras := arg :: g.extras } false args

/-- The complaint about the first ambiguous abbreviation before `--`, which comes before all
others. -/
def ambiguity? : List String → Option String
  | [] => none
  | arg :: args =>
    if arg = "--" then none
    else
      match classify arg with
      | .ambiguous several =>
        some ("ambiguous option: " ++ arg ++ " could match " ++ String.intercalate ", " several)
      | _ => ambiguity? args

/-- What a command line asks for. -/
def Action.ofArguments (args : List String) : Action :=
  match ambiguity? args with
  | some message => .usageError message
  | none => gather ⟨none, false, []⟩ false args

/-- The usage line. -/
def usage : String := "usage: ether [-h] [--ast] [file]\n"

/-- The help text. -/
def helpText : String :=
  usage ++ "\nRun an ether program, or start the REPL.\n\n"
    ++ "positional arguments:\n"
    ++ "  file        source file to run; omit for the interactive REPL\n\n"
    ++ "options:\n"
    ++ "  -h, --help  show this help message and exit\n"
    ++ "  --ast       print the parsed program instead of running it\n"

/-- The report on a wrong command line. -/
def usageReport (message : String) : String :=
  usage ++ "ether: error: " ++ message ++ "\n"

end EtherLang.Command
