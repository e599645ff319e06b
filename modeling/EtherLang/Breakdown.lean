import EtherLang.EvalError
import EtherLang.ParseError

/-!
# Breakdowns

Most failures are reported and lead to an orderly end. A few are outside of what the interpreter
reports: at these it stops where it stands, and only what it has written so far remains.
-/

namespace EtherLang

/-- What the interpreter does not survive. -/
inductive Breakdown where
  /-- The recursion limit that was asked for is greater than can be set. -/
  | limitTooGreat
  /-- A numeral is too long to be converted. -/
  | oversizedLiteral
  /-- A value is nested too deeply to be shown. -/
  | tooDeep
  /-- A path holds the null character. -/
  | nullInPath
  /-- The tree to be evaluated is no program. -/
  | illFormed (e : IllFormed)
  deriving DecidableEq, Repr

/-- Why a source text gave no value. -/
inductive Failure where
  | parse (error : ParseError)
  | eval (error : EvalError)
  | broken (cause : Breakdown)
  deriving DecidableEq, Repr

/-- What a failure to read a text means for the whole. -/
def ParseFailure.toFailure : ParseFailure → Failure
  | rejected error => .parse error
  | oversizedLiteral => .broken .oversizedLiteral

/-- What the end of an evaluation without a value means for the whole. -/
def Fault.toFailure : Fault → Failure
  | error e => .eval e
  | illFormed e => .broken (.illFormed e)
  | exhausted => .broken .tooDeep

end EtherLang
