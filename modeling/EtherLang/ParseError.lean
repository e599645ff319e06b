import EtherLang.Token

/-!
# Why a text is not a program

A text that is no program is rejected at one place for one cause. A numeral of more digits than are
ever converted is not rejected but ends the reading altogether.
-/

namespace EtherLang

/-- What was due at the place of an unexpected token. -/
inductive Expectation where
  | varName
  | varAssign
  | indexClose
  | groupClose
  | parameter
  | parametersClose
  | functionBody
  | ifBody
  | elseBody
  | listClose (close : TokenKind)
  | terminator
  deriving DecidableEq, Repr

/-- The wording of what was due. -/
def Expectation.message : Expectation → String
  | varName => "expected identifier after 'var'"
  | varAssign => "expected '=' in var statement"
  | indexClose => "expected ']' after index"
  | groupClose => "expected ')'"
  | parameter => "malformed parameter list, expected identifier"
  | parametersClose => "malformed parameter list, expected '|'"
  | functionBody => "expected '\x7b' to open function body"
  | ifBody => "expected '\x7b' after if condition"
  | elseBody => "expected '\x7b' after else"
  | listClose close => "expected ',' or " ++ close.name
  | terminator => "expected ';' after statement"

/-- The causes for which a text is rejected. -/
inductive ParseError.Cause where
  /-- A certain token was due and another one was found. -/
  | expected (due : Expectation) (got : Token)
  /-- No expression begins with this token. -/
  | unexpected (got : Token)
  /-- The character begins no token. -/
  | illegalCharacter (text : String)
  /-- The text ended inside a block. -/
  | unterminatedBlock
  /-- The numeral denotes no integer of the language. -/
  | literalOutOfRange (digits : String)
  /-- What stands after an arrow is not a call. -/
  | arrowTarget (rendered : String)
  /-- The text is nested more deeply than allowed. -/
  | tooDeep
  deriving DecidableEq, Repr

/-- A rejection: its cause and the line it is reported for. -/
structure ParseError where
  cause : ParseError.Cause
  line : Nat
  deriving DecidableEq, Repr

namespace ParseError

/-- The wording of a cause. -/
def Cause.message : Cause → String
  | expected due got => due.message ++ ", got " ++ got.describe
  | unexpected got => "unexpected " ++ got.describe
  | illegalCharacter text => "illegal character " ++ Text.quoted text
  | unterminatedBlock => "unterminated block, expected '\x7d'"
  | literalOutOfRange digits => "integer literal " ++ digits ++ " out of range"
  | arrowTarget rendered => "right side of '->' must be a function call, got " ++ rendered
  | tooDeep => "expression nested too deeply"

/-- The wording of a rejection, without its line. -/
def message (e : ParseError) : String :=
  e.cause.message

/-- The report on a rejection. -/
def report (e : ParseError) : String :=
  "line " ++ toString e.line ++ ": " ++ e.message

end ParseError

/-- How reading a text can fail. -/
inductive ParseFailure where
  /-- The text is no program. -/
  | rejected (error : ParseError)
  /-- A numeral is too long to be converted. -/
  | oversizedLiteral
  deriving DecidableEq, Repr

end EtherLang
