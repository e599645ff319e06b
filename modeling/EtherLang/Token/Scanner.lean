import EtherLang.Token

/-!
# Reading tokens

Between tokens stand gaps of blanks and comments; a comment runs from `#` to the end of its line.
After a gap the longest token is taken: a run of digits, a word, one of the operators of two
characters, or a single character. The line of a token is one more than the number of line feeds
before it.
-/

namespace EtherLang

/-- The characters that separate tokens and have no meaning of their own. -/
def isSpace (c : Char) : Bool :=
  c == ' ' || c == '\t' || c == '\r' || c == '\n'

/-- The characters that a word may begin with: ASCII letters and the underscore. -/
def isWordStart (c : Char) : Bool :=
  c == '_' || c.isAlpha

/-- The characters that a word may go on with. -/
def isWordChar (c : Char) : Bool :=
  isWordStart c || c.isDigit

/-- Splits off the gap that a text begins with; `inComment` tells whether the text begins inside
a comment. -/
def splitGap (inComment : Bool) : List Char → List Char × List Char
  | [] => ([], [])
  | c :: cs =>
    if inComment || isSpace c || c == '#' then
      let (gap, rest) := splitGap (c == '#' || (inComment && c != '\n')) cs
      (c :: gap, rest)
    else
      ([], c :: cs)

/-- A gap and what follows it make up the text. -/
theorem splitGap_append (inComment : Bool) (cs : List Char) :
    (splitGap inComment cs).1 ++ (splitGap inComment cs).2 = cs := by
  induction cs generalizing inComment with
  | nil => rfl
  | cons c cs ih =>
    simp only [splitGap]
    split
    · exact congrArg (c :: ·) (ih _)
    · rfl

/-- What follows a gap is no longer than the whole text. -/
theorem length_splitGap_le (inComment : Bool) (cs : List Char) :
    (splitGap inComment cs).2.length ≤ cs.length := by
  have := congrArg List.length (splitGap_append inComment cs)
  simp only [List.length_append] at this
  omega

/-- The kind of a word: a keyword or an identifier. -/
def wordKind (word : String) : TokenKind :=
  match word with
  | "var" => .kwVar
  | "return" => .kwReturn
  | "true" => .kwTrue
  | "false" => .kwFalse
  | "if" => .kwIf
  | "else" => .kwElse
  | _ => .ident

/-- The kind of a token that is a single character other than a digit or a letter. -/
def charKind : Char → TokenKind
  | '=' => .assign
  | '+' => .plus
  | '-' => .minus
  | '*' => .star
  | '/' => .slash
  | '!' => .bang
  | '(' => .leftParen
  | ')' => .rightParen
  | '{' => .leftBrace
  | '}' => .rightBrace
  | '[' => .leftBracket
  | ']' => .rightBracket
  | '|' => .bar
  | ',' => .comma
  | ';' => .semicolon
  | _ => .illegal

/-- The operator that two characters in a row make, if they make one. -/
def pairKind? (first second : Char) : Option TokenKind :=
  if first == '=' && second == '=' then some .equal
  else if first == '!' && second == '=' then some .notEqual
  else if first == '-' && second == '>' then some .arrow
  else none

/-- The text of one token with its kind, and the text after it. -/
structure Lexeme where
  kind : TokenKind
  text : List Char
  rest : List Char

/-- The longest token at the head of a text that begins with the character `c`. -/
def munch (c : Char) (cs : List Char) : Lexeme :=
  if c.isDigit then
    ⟨.integer, c :: cs.takeWhile Char.isDigit, cs.dropWhile Char.isDigit⟩
  else if isWordStart c then
    let word := c :: cs.takeWhile isWordChar
    ⟨wordKind (String.ofList word), word, cs.dropWhile isWordChar⟩
  else
    match cs with
    | [] => ⟨charKind c, [c], []⟩
    | d :: rest =>
      match pairKind? c d with
      | some kind => ⟨kind, [c, d], rest⟩
      | none => ⟨charKind c, [c], d :: rest⟩

/-- A token and what follows it make up the text. -/
theorem munch_append (c : Char) (cs : List Char) :
    (munch c cs).text ++ (munch c cs).rest = c :: cs := by
  simp only [munch]
  split
  · simp
  · split
    · simp
    · split
      · rfl
      · split <;> rfl

/-- A token has at least one character. -/
theorem length_munch_rest_le (c : Char) (cs : List Char) :
    (munch c cs).rest.length ≤ cs.length := by
  simp only [munch]
  split
  · exact (List.dropWhile_sublist _).length_le
  · split
    · exact (List.dropWhile_sublist _).length_le
    · split
      · simp
      · split <;> simp

/-- A place in a text: what is still to be read, how many characters were read and the line. -/
structure Cursor where
  rest : List Char
  pos : Nat
  line : Nat
  deriving DecidableEq, Repr

namespace Cursor

/-- The place before the first character of a text. -/
def start (source : String) : Cursor :=
  ⟨source.toList, 0, 1⟩

/-- Reads one token. At the end of the text every further reading gives the end of the input. -/
def next (c : Cursor) : Token × Cursor :=
  let (gap, rest) := splitGap false c.rest
  let line := c.line + gap.count '\n'
  let pos := c.pos + gap.length
  match rest with
  | [] => (Token.endOfInput line, ⟨[], pos, line⟩)
  | ch :: cs =>
    let lexeme := munch ch cs
    (⟨lexeme.kind, String.ofList lexeme.text, line⟩,
      ⟨lexeme.rest, pos + lexeme.text.length, line⟩)

/-- The first `count` tokens from a place on, each with the place after it. -/
def pull (c : Cursor) : Nat → List (Token × Cursor)
  | 0 => []
  | count + 1 => c.next :: c.next.2.pull count

end Cursor

/-- All tokens of a text that begins on line `line`. -/
def scanFrom (line : Nat) (cs : List Char) : TokenStream :=
  match _h : splitGap false cs with
  | (gap, []) => ⟨[], line + gap.count '\n'⟩
  | (gap, ch :: rest) =>
    let lexeme := munch ch rest
    let after := scanFrom (line + gap.count '\n') lexeme.rest
    ⟨⟨lexeme.kind, String.ofList lexeme.text, line + gap.count '\n'⟩ :: after.tokens, after.endLine⟩
termination_by cs.length
decreasing_by
  have hgap := length_splitGap_le false cs
  have hmunch := length_munch_rest_le ch rest
  simp only [_h, List.length_cons] at hgap
  omega

/-- All tokens of a text. -/
def tokenStream (source : String) : TokenStream :=
  scanFrom 1 source.toList

/-- All tokens of a text, the end of the input included. -/
def tokenize (source : String) : List Token :=
  (tokenStream source).toList

end EtherLang
