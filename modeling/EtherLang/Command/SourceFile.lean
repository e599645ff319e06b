import EtherLang.Text.Quoted
import EtherLang.Text.Utf8

/-!
# Source files

A source file is found by its path in a directory, read as UTF-8 and reported if it cannot be read.
A path is brought into its shortest form first: empty parts and parts that are a single dot are
left out. Its length and the lengths of its parts are bounded, and it may not hold the null
character.
-/

namespace EtherLang

/-- Why the file of a path cannot be opened. -/
inductive OpenError where
  | notFound
  | notADirectory
  | isADirectory
  | nameTooLong
  deriving DecidableEq, Repr

/-- The number and the wording of an error. -/
def OpenError.reason : OpenError → String
  | notFound => "[Errno 2] No such file or directory"
  | notADirectory => "[Errno 20] Not a directory"
  | isADirectory => "[Errno 21] Is a directory"
  | nameTooLong => "[Errno 36] File name too long"

/-- Why a source file cannot be read. -/
inductive ReadError where
  | cannotOpen (error : OpenError)
  | notText (error : Text.Utf8.DecodeError)
  deriving DecidableEq, Repr

namespace Path

/-- Cuts a text into the parts between slashes. -/
def splitSlashes : List Char → List (List Char)
  | [] => [[]]
  | c :: cs =>
    if c == '/' then [] :: splitSlashes cs
    else
      match splitSlashes cs with
      | [] => [[c]]
      | first :: others => (c :: first) :: others

/-- The parts of a path that matter. -/
def parts (path : String) : List String :=
  ((splitSlashes path.toList).map String.ofList).filter fun part => part ≠ "" ∧ part ≠ "."

/-- What a path begins with: nothing, a slash, or exactly two slashes, which are kept. -/
def root (path : String) : String :=
  match path.toList with
  | '/' :: '/' :: '/' :: _ => "/"
  | '/' :: '/' :: _ => "//"
  | '/' :: _ => "/"
  | _ => ""

/-- The shortest form of a path. -/
def shorten (path : String) : String :=
  let short := root path ++ String.intercalate "/" (parts path)
  if short.isEmpty then "." else short

/-- Whether a path holds the null character, which no path may hold. -/
def hasNull (path : String) : Bool :=
  path.toList.contains '\x00'

/-- The greatest length of one part of a path, in bytes. -/
def maxPart : Nat := 255

/-- The greatest length of a whole path, in bytes. -/
def maxPath : Nat := 4095

end Path

/-- The report on a source file that cannot be read. -/
def ReadError.report (path : String) (error : ReadError) : String :=
  let reason :=
    match error with
    | cannotOpen e => e.reason ++ ": " ++ Text.quoted (Path.shorten path)
    | notText e => e.message
  "ether: cannot read " ++ path ++ ": " ++ reason ++ "\n"

/-- What a directory holds at a path below it. -/
inductive DirectoryEntry where
  | file (bytes : ByteArray)
  | directory

/-- A directory: its files and the directories in it, each with the parts of its path. -/
structure Directory where
  entries : List (List String × DirectoryEntry)

namespace Directory

/-- The directory with the given files and directories in it. -/
def ofLists (files : List (String × ByteArray)) (directories : List String) : Directory :=
  ⟨files.map (fun (path, bytes) => (Path.parts path, .file bytes))
    ++ directories.map fun path => (Path.parts path, .directory)⟩

/-- What is found at the parts of a path, all of which go down. -/
def entry? (d : Directory) (parts : List String) : Option DirectoryEntry :=
  match d.entries.lookup parts with
  | some found => some found
  | none =>
    if d.entries.any fun (below, _) => parts.isPrefixOf below then some .directory else none

/-- Where the parts of a path lead from above the whole directory. Nothing is known there but
further directories above, the last of which is above itself. -/
def followAbove : List String → OpenError
  | [] => .isADirectory
  | part :: rest =>
    if part = ".." then followAbove rest
    else if Path.maxPart < part.utf8ByteSize then .nameTooLong
    else .notFound

/-- Follows the parts of a path from the directory at `here`, which is given by the parts that lead
to it. -/
def follow (d : Directory) (here : List String) : List String → Except OpenError ByteArray
  | [] => .error .isADirectory
  | part :: rest =>
    if part = ".." then
      if here.isEmpty then .error (followAbove rest) else d.follow here.dropLast rest
    else if Path.maxPart < part.utf8ByteSize then .error .nameTooLong
    else
      match d.entry? (here ++ [part]), rest with
      | none, _ => .error .notFound
      | some (.file bytes), [] => .ok bytes
      | some (.file _), _ => .error .notADirectory
      | some .directory, rest => d.follow (here ++ [part]) rest

/-- The bytes of the file at a path. -/
def open? (d : Directory) (path : String) : Except OpenError ByteArray :=
  if Path.maxPath < (Path.shorten path).utf8ByteSize then .error .nameTooLong
  else if (Path.root path).isEmpty then d.follow [] (Path.parts path)
  else .error (followAbove (Path.parts path))

/-- The text of the source file at a path. -/
def read (d : Directory) (path : String) : Except ReadError String := do
  let bytes ← (d.open? path).mapError ReadError.cannotOpen
  (Text.Utf8.readText bytes).mapError ReadError.notText

end Directory

end EtherLang
