import EtherLang.Token.Scanner

/-!
# Highlighting

A line of source text is shown in pieces, each in a style. Tokens have the style of their kind and
the text between them has none, but for comments. The pieces of a line make up the line.
-/

namespace EtherLang

/-- The styles that text is shown in. -/
inductive Style where
  | plain
  | keyword
  | boolean
  | number
  | builtin
  | comment
  | error
  deriving DecidableEq, Repr

/-- How a style is named to the terminal. -/
def Style.code : Style → String
  | plain => ""
  | keyword => "bold ansicyan"
  | boolean => "ansicyan"
  | number => "ansimagenta"
  | builtin => "bold ansiyellow"
  | comment => "italic ansigray"
  | error => "bold ansired"

/-- A piece of text in one style. -/
structure Span where
  style : Style
  text : String
  deriving DecidableEq, Repr

namespace Highlight

/-- The style of a token; the names of the standard builtins have one of their own. -/
def tokenStyle (t : Token) : Style :=
  match t.kind with
  | .kwVar | .kwReturn | .kwIf | .kwElse => .keyword
  | .kwTrue | .kwFalse => .boolean
  | .integer => .number
  | .ident => if t.text ∈ ["len", "map", "puts"] then .builtin else .plain
  | .illegal => .error
  | _ => .plain

/-- The pieces of the text between two tokens: what stands before a comment, and the comment. -/
def gapSpans (gap : List Char) : List Span :=
  match gap.span (· != '#') with
  | (blank, []) => [⟨.plain, String.ofList blank⟩]
  | ([], comment) => [⟨.comment, String.ofList comment⟩]
  | (blank, comment) => [⟨.plain, String.ofList blank⟩, ⟨.comment, String.ofList comment⟩]

/-- Cuts a text at the first place where `part` occurs in it: what stands before and what stands
after. -/
def cutAtFirst (part : List Char) : List Char → Option (List Char × List Char)
  | [] => if part.isEmpty then some ([], []) else none
  | c :: cs =>
    if part.isPrefixOf (c :: cs) then some ([], (c :: cs).drop part.length)
    else (cutAtFirst part cs).map fun (before, after) => (c :: before, after)

/-- The pieces of the text that is left, given its tokens. -/
def spansOf (rest : List Char) : List Token → List Span
  | [] => if rest.isEmpty then [] else gapSpans rest
  | t :: ts =>
    match cutAtFirst t.text.toList rest with
    | none => spansOf rest ts
    | some (gap, after) =>
      (if gap.isEmpty then [] else gapSpans gap) ++ ⟨tokenStyle t, t.text⟩ :: spansOf after ts

/-- The pieces of a line. -/
def line (text : String) : List Span :=
  if text.isEmpty then [⟨.plain, ""⟩] else spansOf text.toList (tokenStream text).tokens

/-- The lines of a text, parted by line feeds and by nothing else. -/
def splitLines : List Char → List (List Char)
  | [] => [[]]
  | c :: cs =>
    if c == '\n' then [] :: splitLines cs
    else
      match splitLines cs with
      | [] => [[c]]
      | first :: others => (c :: first) :: others

/-- The pieces of one line of a text; lines count from zero, and beyond the last one they are
empty. -/
def documentLine (text : String) (number : Nat) : List Span :=
  match (splitLines text.toList)[number]? with
  | some content => line (String.ofList content)
  | none => [⟨.plain, ""⟩]

end Highlight

end EtherLang
