import EtherLang.Token.Scanner

/-!
# The line editor

An entry may span several lines: as long as brackets are open, the enter key begins a new line,
indented by the number of open brackets, and otherwise it submits the entry. Brackets are counted
by their tokens, so those in comments do not count.
-/

namespace EtherLang.Editor

/-- The number of open brackets after a token, given the number before it. A closing bracket that
closes nothing does not count. -/
def bracketStep (depth : Nat) (t : Token) : Nat :=
  match t.kind with
  | .leftParen | .leftBracket | .leftBrace => depth + 1
  | .rightParen | .rightBracket | .rightBrace => depth - 1
  | _ => depth

/-- The number of brackets that are still open at the end of a text. -/
def openDepth (text : String) : Nat :=
  (tokenStream text).tokens.foldl bracketStep 0

/-- What a user does at the keyboard. -/
inductive Key where
  | typed (text : String)
  | enter
  | backspace
  deriving DecidableEq, Repr

/-- What the editor shows after a key. -/
structure Shown where
  text : String
  /-- Whether the text was submitted; the editor is empty then. -/
  submitted : Bool
  /-- Whether the menu of completions was opened. -/
  completing : Bool
  deriving DecidableEq, Repr

/-- Whether a text is the beginning of a slash command. -/
def isCommand (text : String) : Bool :=
  text.toList.head? == some '/'

/-- The break that the enter key inserts inside open brackets. -/
def lineBreak (depth : Nat) : String :=
  "\n" ++ String.join (List.replicate depth "    ")

/-- What a key makes of the text in the editor. -/
def press (text : String) : Key → Shown
  | .typed more => ⟨text ++ more, false, false⟩
  | .backspace =>
    let shorter := String.ofList text.toList.dropLast
    ⟨shorter, false, isCommand shorter⟩
  | .enter =>
    let depth := openDepth text
    if !isCommand text && depth > 0 then ⟨text ++ lineBreak depth, false, false⟩
    else ⟨text, true, false⟩

/-- The text that is left in the editor. -/
def Shown.remaining (shown : Shown) : String :=
  if shown.submitted then "" else shown.text

/-- What the editor shows after each of some keys. -/
def pressAll (text : String) : List Key → List Shown
  | [] => []
  | key :: keys =>
    let shown := press text key
    shown :: pressAll shown.remaining keys

end EtherLang.Editor
