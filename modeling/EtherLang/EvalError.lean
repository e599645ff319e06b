import EtherLang.Value

/-!
# How evaluation fails

An error of the running program has a cause and, once it has been placed, a line. Besides, a tree
that no text gives may be ill-formed, and evaluation may run out of the depth it was given; these
two are not errors of the program and have no line.
-/

namespace EtherLang

/-- The categories that errors of a running program fall into. -/
inductive ErrorCategory where
  | general
  | type
  | name
  | arity
  | index
  | zeroDivision
  | recursion
  deriving DecidableEq, Repr

/-- The causes of errors of a running program. -/
inductive EvalError.Cause where
  /-- The operands are of different kinds. -/
  | typeMismatch (left : ValueKind) (op : Spelled BinaryOp) (right : ValueKind)
  /-- The operator is not for operands of this kind. -/
  | unknownUnary (op : Spelled UnaryOp) (operand : ValueKind)
  /-- The operator is not for operands of this kind. -/
  | unknownBinary (left : ValueKind) (op : Spelled BinaryOp) (right : ValueKind)
  | divisionByZero (dividend : Int)
  | undefinedName (name : String)
  | notAFunction (kind : ValueKind)
  /-- A function was called with another number of arguments than it has parameters. -/
  | wrongArity (want got : Nat)
  /-- A builtin was called with a wrong number of arguments. -/
  | builtinArity (name : String) (want got : Nat)
  /-- A builtin was called with an argument of the wrong kind. -/
  | argumentKind (name : String) (want got : ValueKind)
  | notIndexable (kind : ValueKind)
  | indexKind (kind : ValueKind)
  | indexOutOfRange (index : Int) (length : Nat)
  /-- A `return` was met inside an `if` whose value was wanted. -/
  | returnInValue
  /-- Evaluation went down too many levels. -/
  | recursionLimit
  deriving DecidableEq, Repr

/-- An error of a running program: its cause and its line, once it has one. -/
structure EvalError where
  cause : EvalError.Cause
  line : Option Int
  deriving DecidableEq, Repr

namespace EvalError

/-- The category of a cause. -/
def Cause.category : Cause → ErrorCategory
  | typeMismatch .. | unknownUnary .. | unknownBinary .. | notAFunction .. => .type
  | argumentKind .. | notIndexable .. | indexKind .. => .type
  | divisionByZero .. => .zeroDivision
  | undefinedName .. => .name
  | wrongArity .. | builtinArity .. => .arity
  | indexOutOfRange .. => .index
  | returnInValue => .general
  | recursionLimit => .recursion

/-- The wording of a cause. -/
def Cause.message : Cause → String
  | typeMismatch left op right =>
    "type mismatch: " ++ left.name ++ " " ++ op.symbol BinaryOp.symbol ++ " " ++ right.name
  | unknownUnary op operand => "unknown operator: " ++ op.symbol UnaryOp.symbol ++ operand.name
  | unknownBinary left op right =>
    "unknown operator: " ++ left.name ++ " " ++ op.symbol BinaryOp.symbol ++ " " ++ right.name
  | divisionByZero dividend => "division by zero: " ++ toString dividend ++ " / 0"
  | undefinedName name => "undefined identifier: " ++ name
  | notAFunction kind => "not a function: " ++ kind.name
  | wrongArity want got =>
    "wrong number of arguments: want=" ++ toString want ++ ", got=" ++ toString got
  | builtinArity name want got =>
    "wrong number of arguments for " ++ name ++ ": want=" ++ toString want ++ ", got="
      ++ toString got
  | argumentKind name want got =>
    "argument to " ++ name ++ " must be " ++ want.name ++ ", got " ++ got.name
  | notIndexable kind => "index operator not supported: " ++ kind.name
  | indexKind kind => "array index must be INTEGER, got " ++ kind.name
  | indexOutOfRange index length =>
    "index out of range: index " ++ toString index ++ ", length " ++ toString length
  | returnInValue => "'return' inside an if expression used as a value"
  | recursionLimit => "maximum recursion depth exceeded"

/-- The wording of an error, without its line. -/
def message (e : EvalError) : String :=
  e.cause.message

/-- The report on an error, with its line if it has one. -/
def report (e : EvalError) : String :=
  match e.line with
  | none => e.message
  | some line => "line " ++ toString line ++ ": " ++ e.message

/-- Places an error that has no line yet; the first place stays. -/
def placeAt (line : Option Int) (e : EvalError) : EvalError :=
  { e with line := e.line.or line }

end EvalError

/-- What makes a tree ill-formed: a node of the wrong family was met. -/
inductive IllFormed where
  | notAnExpression (familyName : String)
  | notAStatement (familyName : String)
  deriving DecidableEq, Repr

/-- The report on an ill-formed tree. -/
def IllFormed.message : IllFormed → String
  | notAnExpression familyName => "unknown expression node: " ++ familyName
  | notAStatement familyName => "unknown statement node: " ++ familyName

/-- The ways in which evaluation ends without a value. -/
inductive Fault where
  /-- The program is in error. -/
  | error (e : EvalError)
  /-- The tree is no program. -/
  | illFormed (e : IllFormed)
  /-- The depth given to evaluation is used up. -/
  | exhausted
  deriving DecidableEq, Repr

end EtherLang
