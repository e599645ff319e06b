import EtherLang.EvalError
import EtherLang.Integer

/-!
# Operations on values

Operators and indexing on values that have already been computed. They fail with a cause; the line
of the failure is not theirs to know.
-/

namespace EtherLang

/-- What the operators of the language make of two integers. -/
def BinaryOp.onIntegers (op : BinaryOp) (a b : Int) : Except EvalError.Cause Value :=
  match op with
  | .add => .ok (.int (Integer.wrap (a + b)))
  | .sub => .ok (.int (Integer.wrap (a - b)))
  | .mul => .ok (.int (Integer.wrap (a * b)))
  | .div =>
    match Integer.quotient? a b with
    | some q => .ok (.int q)
    | none => .error (.divisionByZero a)
  | .equal => .ok (.bool (a == b))
  | .notEqual => .ok (.bool (a != b))

namespace Value

/-- Applies an operator with one operand. -/
def unary (op : Spelled UnaryOp) (operand : Value) : Except EvalError.Cause Value :=
  match op, operand with
  | .known .not, v => .ok (.bool (!v.truthy))
  | .known .negate, .int n => .ok (.int (Integer.wrap (-n)))
  | op, v => .error (.unknownUnary op v.kind)

/-- Applies an operator with two operands. Their kinds have to agree; integers have all operators,
booleans can be compared, and nothing else has an operator. -/
def binary (op : Spelled BinaryOp) (left right : Value) : Except EvalError.Cause Value :=
  if left.kind ≠ right.kind then .error (.typeMismatch left.kind op right.kind)
  else
    match op, left, right with
    | .known op, .int a, .int b => op.onIntegers a b
    | .known .equal, .bool a, .bool b => .ok (.bool (a == b))
    | .known .notEqual, .bool a, .bool b => .ok (.bool (a != b))
    | op, left, right => .error (.unknownBinary left.kind op right.kind)

/-- Takes the element at a position of an array; positions count from zero. -/
def element (target position : Value) : Except EvalError.Cause Value :=
  match target with
  | .array elements =>
    match position with
    | .int i =>
      if i < 0 then .error (.indexOutOfRange i elements.length)
      else
        match elements[i.toNat]? with
        | some value => .ok value
        | none => .error (.indexOutOfRange i elements.length)
    | other => .error (.indexKind other.kind)
  | other => .error (.notIndexable other.kind)

end Value

end EtherLang
