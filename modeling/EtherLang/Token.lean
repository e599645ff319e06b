import EtherLang.Text.Quoted

/-!
# Tokens

A program is read as a sequence of tokens. A token has a kind, the exact text it was read from and
the line it begins on; lines count from one. A character that begins no token is a token of its
own, of the kind `illegal`, so that reading tokens never fails.
-/

namespace EtherLang

/-- The kinds of tokens. -/
inductive TokenKind where
  | illegal
  | endOfInput
  | ident
  | integer
  | kwVar
  | kwReturn
  | kwTrue
  | kwFalse
  | kwIf
  | kwElse
  | assign
  | plus
  | minus
  | star
  | slash
  | bang
  | arrow
  | equal
  | notEqual
  | comma
  | semicolon
  | leftParen
  | rightParen
  | leftBrace
  | rightBrace
  | leftBracket
  | rightBracket
  | bar
  deriving DecidableEq, Repr

/-- The name under which messages mention a kind of token. -/
def TokenKind.name : TokenKind → String
  | illegal => "ILLEGAL"
  | endOfInput => "EOF"
  | ident => "IDENT"
  | integer => "INTEGER"
  | kwVar => "VAR"
  | kwReturn => "RETURN"
  | kwTrue => "TRUE"
  | kwFalse => "FALSE"
  | kwIf => "IF"
  | kwElse => "ELSE"
  | assign => "ASSIGN"
  | plus => "PLUS"
  | minus => "MINUS"
  | star => "ASTER"
  | slash => "SLASH"
  | bang => "BANG"
  | arrow => "ARROW"
  | equal => "EQ"
  | notEqual => "NEQ"
  | comma => "COMMA"
  | semicolon => "SEMI"
  | leftParen => "LPAR"
  | rightParen => "RPAR"
  | leftBrace => "LBRACE"
  | rightBrace => "RBRACE"
  | leftBracket => "LSQB"
  | rightBracket => "RSQB"
  | bar => "BAR"

/-- A token: its kind, its text and the line it begins on. -/
structure Token where
  kind : TokenKind
  text : String
  line : Nat
  deriving DecidableEq, Repr

namespace Token

/-- The token that stands for the end of the input. -/
def endOfInput (line : Nat) : Token :=
  ⟨.endOfInput, "", line⟩

/-- How a message names a token that it did not expect. -/
def describe (t : Token) : String :=
  if t.kind = .endOfInput then "end of input" else t.kind.name ++ " " ++ Text.quoted t.text

/-- A token written out with all its parts. -/
def display (t : Token) : String :=
  "Tok(" ++ t.kind.name ++ ", " ++ Text.quoted t.text ++ ", " ++ toString t.line ++ ")"

end Token

/-- All tokens of a text up to its end, and the line on which the text ends. -/
structure TokenStream where
  tokens : List Token
  endLine : Nat
  deriving DecidableEq, Repr

/-- The tokens of a stream, the end of the input included. -/
def TokenStream.toList (s : TokenStream) : List Token :=
  s.tokens ++ [Token.endOfInput s.endLine]

end EtherLang
